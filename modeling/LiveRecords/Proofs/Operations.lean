import LiveRecords.Proofs.Holding
import LiveRecords.Proofs.Keying
import Mathlib.Data.List.Forall2

/-!
# Operations as deeds

Each operation on identity maps, records and stores is a course of deeds, and
keeps what is beside the core. Which deeds are allowed is a parameter, so that
an operation can be followed under whatever discipline a program keeps.
-/

namespace LiveRecords.Workspace

variable {w w' : Workspace} {P : Deed → Core → Prop} {own : Prop}

/-- A course of allowed deeds leads from one workspace to another, and what is
beside the core stays. -/
def Goes (P : Deed → Core → Prop) (w w' : Workspace) : Prop :=
  ∃ ds, Core.Course P ds w.core w'.core ∧ Keeps w w'

theorem Goes.refl (w : Workspace) : Goes P w w := ⟨[], .nil _, .refl w⟩

theorem Still.goes (h : Still w w') : Goes P w w' :=
  ⟨[], by rw [h.1]; exact .nil _, h.2⟩

theorem Goes.of_deed {d : Deed} (ha : P d w.core) (hd : Core.Does d w.core w'.core)
    (hk : Keeps w w') : Goes P w w' :=
  ⟨[d], .single ⟨ha, hd⟩, hk⟩

theorem Goes.sound (h : Goes P w w') (hs : w.core.Sound) : w'.core.Sound := by
  obtain ⟨ds, hc, -⟩ := h
  exact hs.course hc

theorem Goes.keeps (h : Goes P w w') : Keeps w w' := by
  obtain ⟨ds, -, hk⟩ := h
  exact hk

/-- Gentle deeds leave what is registered and the identity maps. -/
theorem Goes.stays (h : Goes (fun d k => P d k ∧ d.isGentle = true) w w') :
    w.core.Stays w'.core := by
  obtain ⟨ds, hc, -⟩ := h
  exact Core.stays_of_course hc

theorem Holding.goes (hw : Holding own w)
    (h : Goes (fun d k => P d k ∧ d.isGentle = true) w w') : Holding own w' := by
  obtain ⟨ds, hc, hk⟩ := h
  exact hw.keeps (Core.stays_of_course hc) hk

theorem maps_lt_of_stays (h : w.core.Stays w'.core) {m : MapRef} (hm : m < w.maps.length) :
    m < w'.maps.length := by
  have hlen : w'.maps.length = w.maps.length := Core.length_maps_of_shape h.frame.shape
  rw [hlen]
  exact hm

theorem Still.stays (h : Still w w') : w.core.Stays w'.core := by
  rw [h.1]
  exact .refl _

/-- A registered record is in memory. -/
theorem instance_of_listed (hs : w.core.Sound) {r : RecordRef} (hl : w.core.Listed r) :
    ∃ i, w.records[r]? = some i := by
  obtain ⟨x, hx, -⟩ := hs.resident hl
  obtain ⟨i, hi, -⟩ := instance_of_core hx
  exact ⟨i, hi⟩

theorem map_of_lt {m : MapRef} (hm : m < w.maps.length) : ∃ map, w.maps[m]? = some map :=
  ⟨_, List.getElem?_eq_getElem hm⟩

/-! ## Commands -/

/-- Commands are deeds, which need to be allowed if there are any. -/
theorem course_of_asked {r : RecordRef}
    {cs : List (Record.Command × Except StoreError Record.Reply)} {k k' : Core}
    (h : Core.Asked r cs k k') (ha : cs ≠ [] → ∀ c reply k, P (.command r c reply) k) :
    Core.Course P (cs.map fun a => .command r a.1 a.2) k k' := by
  by_cases hcs : cs = []
  · subst hcs
    cases h
    exact .nil k
  · exact Chain.map (fun hc => ⟨ha hcs _ _ _, hc⟩) h

theorem goes_of_asked {r : RecordRef}
    {cs : List (Record.Command × Except StoreError Record.Reply)}
    (h : Core.Asked r cs w.core w'.core) (hk : Keeps w w')
    (ha : ∀ c reply k, P (.command r c reply) k) : Goes P w w' :=
  ⟨_, course_of_asked h fun _ => ha, hk⟩

theorem run_goes (hs : w.core.Sound) {r : RecordRef} (hl : w.core.Listed r)
    (c : Record.Command) (ha : ∀ c reply k, P (.command r c reply) k) :
    Goes P w (w.run r c).2 := by
  obtain ⟨x, hx⟩ := instance_of_listed hs hl
  obtain ⟨cs, hc, hk, -⟩ := run_asked hx hl c
  exact goes_of_asked hc hk ha

/-! ## Registering -/

theorem register_meets {m : MapRef} (hm : m < w.maps.length) (id : RecordId) (isNew : Bool) :
    Core.Meets m id isNew (w.register m id isNew).1 w.core (w.register m id isNew).2.core ∧
      Keeps w (w.register m id isNew).2 := by
  obtain ⟨map, hmap⟩ := map_of_lt hm
  unfold register
  rw [hmap]
  dsimp only
  cases hid : map.registered.lookup id with
  | some r => exact ⟨⟨map, hmap, .inl ⟨hid, rfl⟩⟩, .refl w⟩
  | none =>
    refine ⟨⟨map, hmap, .inr ⟨hid, ?_, ?_⟩⟩, rfl, rfl, rfl, rfl, rfl, rfl, rfl, ?_⟩
    · simp [core]
    · ext j x <;> simp [core, report, setMap, Core.enrol, Instance.resident]
    · intro r
      simp only [armed, report, setMap, List.getElem?_append]
      split
      · exact Nat.le_refl _
      · next hr =>
        rw [List.getElem?_eq_none (Nat.le_of_not_lt hr)]
        cases h : r - w.records.length <;> simp

theorem goes_of_meets {m : MapRef} {id : RecordId} {isNew : Bool} {r : RecordRef}
    (h : Core.Meets m id isNew r w.core w'.core) (hk : Keeps w w')
    (ha : P (.enrol m id isNew) w.core) : Goes P w w' := by
  obtain ⟨map, hm, ⟨-, he⟩ | ⟨hid, -, he⟩⟩ := h
  · exact Still.goes ⟨he, hk⟩
  · exact .of_deed ha ⟨map, hm, hid, he⟩ hk

theorem register_goes {m : MapRef} (hm : m < w.maps.length) (id : RecordId) (isNew : Bool)
    (ha : P (.enrol m id isNew) w.core) : Goes P w (w.register m id isNew).2 :=
  goes_of_meets (register_meets hm id isNew).1 (register_meets hm id isNew).2 ha

theorem register_listed (hs : w.core.Sound) {m : MapRef} (hm : m < w.maps.length)
    (id : RecordId) (isNew : Bool) :
    (w.register m id isNew).2.core.Lists m id (w.register m id isNew).1 :=
  (hs.meets (register_meets hm id isNew).1).2

/-! ## Reading -/

/-- Reading is allowed, with answers where reactions are left. -/
def LetsRead (P : Deed → Core → Prop) (w : Workspace) : Prop :=
  ∀ m images answered k, (∀ r, answered r → 0 < w.armed r) → P (.read m images answered) k

theorem LetsRead.later (h : LetsRead P w) (ha : ∀ r, w'.armed r ≤ w.armed r) : LetsRead P w' :=
  fun m images answered k hans =>
    h m images answered k fun r hr => Nat.lt_of_lt_of_le (hans r hr) (ha r)

theorem LetsRead.gently (h : LetsRead P w) :
    LetsRead (fun d k => P d k ∧ d.isGentle = true) w :=
  fun m images answered k hans => ⟨h m images answered k hans, rfl⟩

theorem resolve_takenIn (hs : w.core.Sound) {m : MapRef} (hm : m < w.maps.length)
    (image : RowImage) :
    Core.TakenIn m (fun r => 0 < w.armed r) [image] w.core (w.resolve m image).2.core ∧
      Keeps w (w.resolve m image).2 ∧
      (w.resolve m image).2.core.Lists m image.id (w.resolve m image).1 := by
  obtain ⟨hmeets, hk⟩ := register_meets hm image.id false
  obtain ⟨hs₁, hl⟩ := hs.meets hmeets
  obtain ⟨x, hx⟩ := instance_of_listed hs₁ ⟨m, _, hl⟩
  obtain ⟨cs, hc, hk', hans⟩ := carryOut_asked hx ⟨m, _, hl⟩ (x.record.hydrate image)
  have hres : w.resolve m image = ((w.register m image.id false).1,
      (w.register m image.id false).2.carryOut (w.register m image.id false).1
        (x.record.hydrate image)) := by
    unfold resolve
    simp only [hx]
  rw [hres]
  refine ⟨.cons hmeets (core_records_of_some hx) hc (fun hne => ?_) (.nil _), hk.trans hk', ?_⟩
  · exact Nat.lt_of_lt_of_le (hans hne) (hk.armed _)
  exact hc.stays.lists ((Core.stays_impose _ _ _).lists hl)

/-- Of two lists that go together, each member of the one has one of the other. -/
theorem exists_left {α β : Type} {R : α → β → Prop} {as : List α} {bs : List β}
    (h : List.Forall₂ R as bs) {b : β} (hb : b ∈ bs) : ∃ a ∈ as, R a b := by
  induction h with
  | nil => cases hb
  | cons hab _ ih =>
    rcases List.mem_cons.mp hb with rfl | hb
    · exact ⟨_, List.mem_cons_self, hab⟩
    · obtain ⟨a, ha, hab⟩ := ih hb
      exact ⟨a, List.mem_cons_of_mem _ ha, hab⟩

/-- Each row has one record, which is registered under its key. -/
theorem resolveAll_takenIn (hs : w.core.Sound) {m : MapRef} (hm : m < w.maps.length)
    (images : List RowImage) :
    Core.TakenIn m (fun r => 0 < w.armed r) images w.core (w.resolveAll m images).2.core ∧
      Keeps w (w.resolveAll m images).2 ∧
      List.Forall₂ (fun y r => (w.resolveAll m images).2.core.Lists m y.id r) images
        (w.resolveAll m images).1 := by
  induction images generalizing w with
  | nil => exact ⟨.nil _, .refl w, .nil⟩
  | cons image images ih =>
    obtain ⟨ht, hk, hl⟩ := resolve_takenIn hs hm image
    obtain ⟨ht', hk', hl'⟩ := ih (hs.takenIn ht) (maps_lt_of_stays ht.stays hm)
    simp only [resolveAll]
    refine ⟨?_, hk.trans hk', .cons (ht'.stays.lists hl) hl'⟩
    cases ht with
    | cons h₁ h₂ h₃ h₄ h₅ =>
      cases h₅
      exact .cons h₁ h₂ h₃ h₄ (ht'.mono fun r hr => Nat.lt_of_lt_of_le hr (hk.armed r))

theorem onTable_of_some {α : Type} {m : MapRef} {map : IdentityMap} (hm : w.maps[m]? = some map)
    (f : Schema → Link → Except StoreError α × Link) (missing : α) :
    w.onTable m f missing = w.through map.connection (f map.schema) := by
  simp [onTable, hm]

/-- Rows were read and taken in by their records. -/
structure TakesIn (w : Workspace) (m : MapRef) (map : IdentityMap) (images : List RowImage)
    (w' : Workspace) : Prop where
  reads : w.core.Reads map images
  taken : Core.TakenIn m (fun r => 0 < w.armed r) images w.core w'.core
  keeps : Keeps w w'

theorem TakesIn.goes {m : MapRef} {map : IdentityMap} {images : List RowImage}
    (h : w.TakesIn m map images w') (hm : w.maps[m]? = some map) (ha : LetsRead P w) :
    Goes P w w' :=
  .of_deed (ha m images (fun r => 0 < w.armed r) w.core fun _ hr => hr)
    ⟨map, hm, h.reads, h.taken⟩ h.keeps

/-- What is taken in after the statement that read it. -/
theorem takesIn_of_still {m : MapRef} {map : IdentityMap} {images : List RowImage}
    {w₁ : Workspace} (hr : w.core.Reads map images) (hw : Still w w₁)
    (ht : Core.TakenIn m (fun r => 0 < w₁.armed r) images w₁.core w'.core) (hk : Keeps w₁ w') :
    w.TakesIn m map images w' where
  reads := hr
  taken := hw.1 ▸ ht.mono fun r hr => Nat.lt_of_lt_of_le hr (hw.2.armed r)
  keeps := hw.2.trans hk

/-- Where no row is read by a key, nothing happens. -/
theorem load_still {m : MapRef} {map : IdentityMap} (hmap : w.maps[m]? = some map) {id : RecordId}
    (hsel : ∀ image, ((w.link map.connection).selectOne map.schema id).1 ≠ .ok (some image)) :
    Still w (w.load m id).2 ∧ ∀ r, (w.load m id).1 ≠ .ok (some r) := by
  have hstill : Still w (w.through map.connection fun l => l.selectOne map.schema id).2 :=
    still_through (Link.database_selectOne _ _ _)
  unfold load
  rw [onTable_of_some hmap]
  split
  · next hq => rw [hq] at hstill; exact ⟨hstill, nofun⟩
  · next hq => rw [hq] at hstill; exact ⟨hstill, nofun⟩
  · next image _ hq => exact absurd (congrArg Prod.fst hq) (hsel image)

/-- A row that is read by its key is taken in by the record that is answered. -/
theorem load_takesIn (hs : w.core.Sound) {m : MapRef} {map : IdentityMap}
    (hmap : w.maps[m]? = some map) {id : RecordId} {image : RowImage}
    (hsel : ((w.link map.connection).selectOne map.schema id).1 = .ok (some image)) :
    ∃ r, (w.load m id).1 = .ok (some r) ∧ w.TakesIn m map [image] (w.load m id).2 ∧
      (w.load m id).2.core.Lists m image.id r := by
  have hstill : Still w (w.through map.connection fun l => l.selectOne map.schema id).2 :=
    still_through (Link.database_selectOne _ _ _)
  have hq : w.through map.connection (fun l => l.selectOne map.schema id) =
      (.ok (some image), (w.through map.connection fun l => l.selectOne map.schema id).2) :=
    Prod.ext hsel rfl
  obtain ⟨k, images, hread, hhead⟩ := Link.read_of_selectOne hsel
  have hm₁ : m < (w.through map.connection fun l => l.selectOne map.schema id).2.maps.length :=
    maps_lt_of_stays hstill.stays (List.getElem?_eq_some_iff.mp hmap).1
  obtain ⟨ht, hk, hl⟩ := resolve_takenIn (hstill.1 ▸ hs) hm₁ image
  unfold load
  rw [onTable_of_some hmap, hq]
  refine ⟨_, rfl, takesIn_of_still ⟨k, images, ?_, ?_⟩ hstill ht hk, hl⟩
  · rw [core_databaseOf]
    exact hread
  · obtain ⟨rest, rfl⟩ := List.head?_eq_some_iff.mp hhead
    exact .cons_cons image (List.nil_sublist rest)

/-- The row under a key is taken in by the record that is answered, or nothing
happens. -/
theorem load_cases (hs : w.core.Sound) {m : MapRef} {map : IdentityMap}
    (hmap : w.maps[m]? = some map) (id : RecordId) :
    (Still w (w.load m id).2 ∧ ∀ r, (w.load m id).1 ≠ .ok (some r)) ∨
      ∃ image r, (w.load m id).1 = .ok (some r) ∧ w.TakesIn m map [image] (w.load m id).2 ∧
        (w.load m id).2.core.Lists m image.id r ∧ image.id = id := by
  cases hsel : ((w.link map.connection).selectOne map.schema id).1 with
  | ok found =>
    cases found with
    | some image =>
      obtain ⟨r, hr, htakes, hl⟩ := load_takesIn hs hmap hsel
      exact .inr ⟨image, r, hr, htakes, hl, Link.selectOne_id hsel⟩
    | none => exact .inl (load_still hmap fun image => by rw [hsel]; nofun)
  | error e => exact .inl (load_still hmap fun image => by rw [hsel]; nofun)

/-- The rows that a filter selects are taken in by the records that are
answered, one for each row, or the statement fails and nothing happens. -/
theorem find_cases (hs : w.core.Sound) {m : MapRef} {map : IdentityMap}
    (hmap : w.maps[m]? = some map) (f : Filter) :
    (∃ e, (w.find m f).1 = .error e ∧ Still w (w.find m f).2 ∧
      ((w.link map.connection).selectWhere map.schema f).1 = .error e) ∨
      ∃ images rs, (w.find m f).1 = .ok rs ∧ w.TakesIn m map images (w.find m f).2 ∧
        List.Forall₂ (fun y r => (w.find m f).2.core.Lists m y.id r) images rs ∧
        ((w.link map.connection).selectWhere map.schema f).1 = .ok images := by
  have hstill : Still w (w.through map.connection fun l => l.selectWhere map.schema f).2 :=
    still_through (Link.database_selectWhere _ _ _)
  unfold find
  rw [onTable_of_some hmap]
  dsimp only
  split
  · next e _ hq =>
    rw [hq] at hstill
    exact .inl ⟨e, rfl, hstill, congrArg Prod.fst hq⟩
  · next images w₁ hq =>
    have hsel : ((w.link map.connection).selectWhere map.schema f).1 = .ok images :=
      congrArg Prod.fst hq
    obtain ⟨k, hread⟩ := Link.read_of_selectWhere hsel
    rw [hq] at hstill
    have hs₁ : w₁.core.Sound := hstill.1 ▸ hs
    have hm₁ : m < w₁.maps.length :=
      maps_lt_of_stays hstill.stays (List.getElem?_eq_some_iff.mp hmap).1
    obtain ⟨ht, hk, hl⟩ := resolveAll_takenIn hs₁ hm₁ images
    refine .inr ⟨images, _, rfl, takesIn_of_still ⟨k, images, ?_, .refl _⟩ hstill ht hk, hl, hsel⟩
    rw [core_databaseOf]
    exact hread

theorem load_goes (hs : w.core.Sound) {m : MapRef} (hm : m < w.maps.length) (id : RecordId)
    (ha : LetsRead P w) :
    Goes P w (w.load m id).2 ∧
      ∀ r, (w.load m id).1 = .ok (some r) → (w.load m id).2.core.Listed r := by
  obtain ⟨map, hmap⟩ := map_of_lt hm
  obtain ⟨hstill, hnone⟩ | ⟨image, r, hr, htakes, hl, -⟩ := load_cases hs hmap id
  · exact ⟨hstill.goes, fun r hr => absurd hr (hnone r)⟩
  · refine ⟨htakes.goes hmap ha, fun r' hr' => ?_⟩
    rw [hr] at hr'
    cases hr'
    exact ⟨m, _, hl⟩

theorem find_goes (hs : w.core.Sound) {m : MapRef} (hm : m < w.maps.length) (f : Filter)
    (ha : LetsRead P w) :
    Goes P w (w.find m f).2 ∧
      ∀ rs, (w.find m f).1 = .ok rs → ∀ r ∈ rs, (w.find m f).2.core.Listed r := by
  obtain ⟨map, hmap⟩ := map_of_lt hm
  obtain ⟨e, he, hstill, -⟩ | ⟨images, rs, hrs, htakes, hl, -⟩ := find_cases hs hmap f
  · refine ⟨hstill.goes, fun rs hrs => ?_⟩
    rw [he] at hrs
    cases hrs
  · refine ⟨htakes.goes hmap ha, fun rs' hrs' r hr => ?_⟩
    rw [hrs] at hrs'
    cases hrs'
    obtain ⟨y, -, hly⟩ := exists_left hl hr
    exact ⟨m, _, hly⟩

/-- A parent is stored and set, and then listeners answer, or nothing changes. -/
theorem setParent_cases {m : MapRef} {map : IdentityMap} (hmap : w.maps[m]? = some map)
    {child : RecordRef} {x : Instance} (hx : w.records[child]? = some x)
    (hl : w.core.Listed child) (parent : Option RecordId) :
    (∃ e, (w.setParent m child parent).1 = .error e ∧ Still w (w.setParent m child parent).2) ∨
      (w.setParent m child parent).1 = .ok () ∧ ∃ l : Link, ∃ cs,
        l.database = w.core.databaseOf map.connection ∧
        (l.updateParent map.schema x.record.id parent).1 = .ok () ∧
        Core.Asked child cs ((w.core.setDatabase map.connection
          (l.updateParent map.schema x.record.id parent).2.database).impose child
            (x.record.setParent parent)) (w.setParent m child parent).2.core ∧
        Keeps w (w.setParent m child parent).2 ∧ (cs ≠ [] → 0 < w.armed child) := by
  unfold setParent
  rw [hx]
  dsimp only
  rw [onTable_of_some hmap]
  have hcore := core_through w map.connection fun l => l.updateParent map.schema x.record.id parent
  have hkeep := keeps_through w map.connection fun l =>
    l.updateParent map.schema x.record.id parent
  have hrec := records_through w map.connection fun l =>
    l.updateParent map.schema x.record.id parent
  split
  · next e w₁ hq =>
    have hstill := still_through (f := fun l => l.updateParent map.schema x.record.id parent)
      (Link.updateParent_error (congrArg Prod.fst hq))
    rw [hq] at hstill
    exact .inl ⟨e, rfl, hstill⟩
  · next w₁ hq =>
    have hok : ((w.link map.connection).updateParent map.schema x.record.id parent).1 = .ok () :=
      congrArg Prod.fst hq
    rw [hq] at hcore hkeep hrec
    have hx₁ : w₁.records[child]? = some x := by rw [hrec, hx]
    have hl₁ : w₁.core.Listed child :=
      hl.of_maps ((congrArg Core.maps hcore).trans (Core.setDatabase_maps _ _ _))
    obtain ⟨cs, hasked, hk, hans⟩ := carryOut_asked hx₁ hl₁ (x.record.setParent parent)
    have hafter : w₁.core = w.core.setDatabase map.connection
        ((w.link map.connection).updateParent map.schema x.record.id parent).2.database := hcore
    rw [hafter] at hasked
    exact .inr ⟨rfl, w.link map.connection, cs, (core_databaseOf w _).symm, hok, hasked,
      hkeep.trans hk, fun hne => Nat.lt_of_lt_of_le (hans hne) (hkeep.armed child)⟩

/-- A parent is stored and set, or nothing changes. -/
theorem setParent_goes (hs : w.core.Sound) {m : MapRef} (hm : m < w.maps.length)
    {child : RecordRef} (hl : w.core.Listed child) (parent : Option RecordId)
    (ha : P (.adopt m child parent) w.core)
    (hc : 0 < w.armed child → ∀ c reply k, P (.command child c reply) k) :
    Goes P w (w.setParent m child parent).2 := by
  obtain ⟨map, hmap⟩ := map_of_lt hm
  obtain ⟨x, hx⟩ := instance_of_listed hs hl
  obtain ⟨-, -, hstill⟩ | ⟨-, l, cs, hdb, hok, hasked, hk, hans⟩ :=
    setParent_cases hmap hx hl parent
  · exact hstill.goes
  · have hdoes : Core.Does (.adopt m child parent) w.core ((w.core.setDatabase map.connection
        (l.updateParent map.schema x.record.id parent).2.database).impose child
          (x.record.setParent parent)) :=
      ⟨map, x.resident, l, hmap, core_records_of_some hx, hl, hdb, hok, rfl⟩
    exact ⟨.adopt m child parent :: cs.map fun a => .command child a.1 a.2,
      .cons ⟨ha, hdoes⟩ (course_of_asked hasked fun hne => hc (hans hne)), hk⟩

/-! ## Letting go -/

theorem core_unregister (w : Workspace) (m : MapRef) (rs : List RecordRef) :
    (w.unregister m rs).core = w.core.unregister m rs := rfl

/-- The core after a record was freed for good: its entries go, and its row if
its deletion was staged. -/
theorem finish_core {m : MapRef} {map : IdentityMap} {r : RecordRef} {i : Instance}
    (hm : w.maps[m]? = some map) (hr : w.records[r]? = some i) :
    Keeps w (w.finish m r).2 ∧ ∃ l : Link, l.database = w.core.databaseOf map.connection ∧
      ((w.finish m r).2.core =
        if i.record.deletePending then
          (w.core.tell i.hub fun c => (c.forget r).1).setDatabase map.connection
            (l.deleteRow map.schema i.record.id).2.database
        else w.core.tell i.hub fun c => (c.forget r).1) ∧
      (i.record.deletePending = true → ((w.finish m r).1 = .ok () ↔
        ∃ n, (l.deleteRow map.schema i.record.id).1 = .ok n)) := by
  generalize hw₁ : (w.tell i.hub fun c => c.forget r).report
    (.recordReleased i.record.table i.record.id) = w₁
  have hk₁ : Keeps w w₁ := hw₁ ▸ (keeps_tell w i.hub _).trans (still_report _ _).2
  have hc₁ : w₁.core = w.core.tell i.hub fun c => (c.forget r).1 :=
    hw₁ ▸ (still_report _ _).1.trans (core_tell w i.hub _)
  have hm₁ : w₁.maps[m]? = some map := by
    rw [← hm]
    exact congrArg (fun k : Core => k.maps[m]?) hc₁
  have hd : w₁.databaseOf map.connection = w.core.databaseOf map.connection := by
    rw [← core_databaseOf, hc₁]
    rfl
  unfold finish
  rw [hr]
  dsimp only
  rw [hw₁]
  by_cases hp : i.record.deletePending = true
  · rw [if_pos hp, onTable_of_some hm₁]
    have hcore := core_through w₁ map.connection fun l => l.deleteRow map.schema i.record.id
    have hkeep := keeps_through w₁ map.connection fun l => l.deleteRow map.schema i.record.id
    rw [hc₁] at hcore
    split
    · next e _ hq =>
      have hresult : ((w₁.link map.connection).deleteRow map.schema i.record.id).1 = .error e :=
        congrArg Prod.fst hq
      rw [hq] at hcore hkeep
      refine ⟨hk₁.trans hkeep, w₁.link map.connection, hd, by rw [if_pos hp]; exact hcore,
        fun _ => ⟨(fun h => by cases h), fun ⟨n, h⟩ => ?_⟩⟩
      rw [hresult] at h
      cases h
    · next n _ hq =>
      have hresult : ((w₁.link map.connection).deleteRow map.schema i.record.id).1 = .ok n :=
        congrArg Prod.fst hq
      rw [hq] at hcore hkeep
      exact ⟨hk₁.trans (hkeep.trans (still_report _ _).2), w₁.link map.connection, hd,
        by rw [if_pos hp]; exact hcore, fun _ => ⟨fun _ => ⟨n, hresult⟩, fun _ => rfl⟩⟩
  · rw [if_neg hp]
    exact ⟨hk₁, w.link map.connection, (core_databaseOf w _).symm, by rw [if_neg hp]; exact hc₁,
      fun h => absurd h hp⟩

theorem unregister_cons (k : Core) (m : MapRef) (r : RecordRef) (rs : List RecordRef) :
    k.unregister m (r :: rs) = (k.unregister m [r]).unregister m rs := by
  ext j x <;> try rfl
  simp only [Core.unregister, Core.setMap, List.getElem?_modify]
  cases k.maps[j]? with
  | none => rfl
  | some map =>
    by_cases hj : m = j
    · simp [hj, List.filter_filter, Bool.and_comm]
    · simp [hj]

theorem unregister_setDatabase (k : Core) (m : MapRef) (rs : List RecordRef) (c : ConnectionRef)
    (d : Database) : (k.unregister m rs).setDatabase c d = (k.setDatabase c d).unregister m rs := by
  have hc : (k.unregister m rs).connections = k.connections := rfl
  unfold Core.setDatabase
  rw [hc]
  cases k.connections[c]? <;> rfl

theorem unregister_nil (k : Core) (m : MapRef) : k.unregister m [] = k := by
  ext j x <;> try rfl
  simp only [Core.unregister, Core.setMap, List.getElem?_modify]
  cases k.maps[j]? with
  | none => rfl
  | some map =>
    have hall : map.registered.filter (fun e => !([] : List RecordRef).contains e.2) =
        map.registered := List.filter_eq_self.mpr (by simp)
    by_cases hj : m = j
    · simp only [hj, if_true, Option.map_eq_map, Option.map_some, hall]
    · simp [hj]

/-- An identity map that some records leave stays alike. -/
theorem map_unregister {m : MapRef} {map : IdentityMap} {rs : List RecordRef} {k : Core}
    (hw : w.core = k.unregister m rs) (hm : k.maps[m]? = some map) :
    ∃ map', w.maps[m]? = some map' ∧ map'.Alike map := by
  have hc : w.core.maps[m]? = (k.unregister m rs).maps[m]? := by rw [hw]
  rw [Core.unregister, Core.setMap, List.getElem?_modify_eq, hm] at hc
  exact ⟨{ map with registered := map.registered.filter fun e => !rs.contains e.2 }, hc,
    rfl, rfl, rfl⟩

/-- Finishing one of several records that left together is to free it and then
to let the others leave. -/
theorem finish_free {m : MapRef} {r : RecordRef} {rs : List RecordRef} {k : Core} (hs : k.Sound)
    (hw : w.core = k.unregister m (r :: rs)) (hl : ∃ id, k.Lists m id r) :
    Keeps w (w.finish m r).2 ∧ ∃ k₁, Core.Does (.free m r) k k₁ ∧
      (w.finish m r).2.core = k₁.unregister m rs ∧ (∃ h, k₁.maps = (k.dismiss m r h).maps) := by
  obtain ⟨id, map, hmap, hmem⟩ := hl
  obtain ⟨x, hx, -⟩ := hs.kept hmap hmem
  obtain ⟨map', hmw, hlike⟩ := map_unregister hw hmap
  have hxw : w.core.records[r]? = some x := by rw [hw]; exact hx
  rw [core_records, Option.map_eq_some_iff] at hxw
  obtain ⟨i, hi, rfl⟩ := hxw
  obtain ⟨hk, l, hld, hcore, -⟩ := finish_core hmw hi
  rw [hlike.schema, hlike.connection] at hcore
  refine ⟨hk, _, ⟨map, i.resident, l, hmap, hx, ⟨id, map, hmap, hmem⟩, ?_, rfl⟩, ?_, i.hub, ?_⟩
  · rw [hld, hw, hlike.connection]
    rfl
  · rw [hcore, hw, unregister_cons]
    by_cases hp : i.record.deletePending = true
    · rw [if_pos hp, if_pos (by exact hp), ← unregister_setDatabase]
      rfl
    · rw [if_neg hp, if_neg (by exact hp)]
      rfl
  · split
    · exact Core.setDatabase_maps _ _ _
    · rfl

/-- Records that left their identity map together are freed one after another. -/
theorem finishAll_course {m : MapRef} {rs : List RecordRef} {k : Core} (hs : k.Sound)
    (hw : w.core = k.unregister m rs) (hn : rs.Nodup) (hl : ∀ r ∈ rs, ∃ id, k.Lists m id r)
    (ha : ∀ r ∈ rs, ∀ k, P (.free m r) k) :
    ∃ ds, Core.Course P ds k (w.finishAll m rs).2.core ∧ Keeps w (w.finishAll m rs).2 := by
  induction rs generalizing w k with
  | nil =>
    refine ⟨[], ?_, .refl w⟩
    rw [finishAll, hw, unregister_nil]
    exact .nil k
  | cons r rs ih =>
    obtain ⟨hk, k₁, hdoes, hcore, h, hmaps⟩ := finish_free hs hw (hl r (by simp))
    have hl₁ : ∀ r' ∈ rs, ∃ id, k₁.Lists m id r' := by
      intro r' hr'
      obtain ⟨id, hid⟩ := hl r' (by simp [hr'])
      have hne : r' ≠ r := by
        rintro rfl
        exact (List.nodup_cons.mp hn).1 hr'
      exact ⟨id, (Core.lists_dismiss.mpr ⟨hid, fun _ => hne⟩).of_maps hmaps⟩
    obtain ⟨ds, hc, hk'⟩ := ih (hs.does hdoes) hcore (List.nodup_cons.mp hn).2 hl₁
      fun r' hr' => ha r' (by simp [hr'])
    refine ⟨.free m r :: ds, .cons ⟨ha r (by simp) k, hdoes⟩ ?_, ?_⟩
    · rw [finishAll]
      split
      · next hq => rw [hq] at hc; exact hc
      · next hq => rw [hq] at hc; exact hc
    · rw [finishAll]
      split
      · next hq => rw [hq] at hk hk'; exact hk.trans hk'
      · next hq => rw [hq] at hk hk'; exact hk.trans hk'

theorem keeps_unregister (w : Workspace) (m : MapRef) (rs : List RecordRef) :
    Keeps w (w.unregister m rs) :=
  ⟨rfl, rfl, rfl, rfl, rfl, rfl, rfl, fun _ => Nat.le_refl _⟩

/-- A record that is free to go is registered and not held. -/
theorem isFree_iff {m : MapRef} {r : RecordRef} (h : w.isFree m r = true) :
    (∃ id, w.core.Lists m id r) ∧ w.isHeld r = false := by
  unfold isFree at h
  cases hr : w.records[r]? with
  | none => simp [hr] at h
  | some i =>
    rw [hr] at h
    simp only [Bool.and_eq_true, beq_iff_eq, Bool.not_eq_true'] at h
    obtain ⟨hreg, hheld⟩ := h
    refine ⟨⟨i.record.id, ?_⟩, hheld⟩
    rw [registered?, Option.bind_eq_some_iff] at hreg
    obtain ⟨map, hm, hlook⟩ := hreg
    exact ⟨map, hm, mem_of_lookup hlook⟩

theorem release_goes (hs : w.core.Sound) {m : MapRef} {r : RecordRef}
    (ha : w.isHeld r = false → ∀ k, P (.free m r) k) : Goes P w (w.release m r).2 := by
  unfold release
  by_cases hf : w.isFree m r = true
  · obtain ⟨hl, hheld⟩ := isFree_iff hf
    obtain ⟨ds, hc, hk⟩ := finishAll_course (w := w.unregister m [r]) hs
      (core_unregister w m [r]) (by simp) (by simpa using hl) (by simpa using ha hheld)
    have hfin : ((w.unregister m [r]).finishAll m [r]).2 = ((w.unregister m [r]).finish m r).2 := by
      rw [finishAll]
      split
      · next hq => rw [finishAll, hq]
      · next hq => rw [finishAll, hq]
    rw [hfin] at hc hk
    rw [if_pos hf]
    have hgoes : Goes P w ((w.unregister m [r]).finish m r).2 :=
      ⟨ds, hc, (keeps_unregister w m [r]).trans hk⟩
    split
    · next hq => rw [hq] at hgoes; exact hgoes
    · next hq => rw [hq] at hgoes; exact hgoes
  · rw [if_neg hf]
    exact .refl w

/-- No record is registered twice in an identity map. -/
theorem refs_nodup (hs : w.core.Sound) {m : MapRef} {map : IdentityMap}
    (hm : w.maps[m]? = some map) : (map.registered.map (·.2)).Nodup := by
  have hkeys := hs.keys (m := m) hm
  rw [List.Nodup, List.pairwise_map] at hkeys ⊢
  refine hkeys.imp_of_mem fun {a b} ha hb hne heq => hne ?_
  obtain ⟨x, hx, hxa⟩ := hs.kept (m := m) hm ha
  obtain ⟨y, hy, hyb⟩ := hs.kept (m := m) hm hb
  rw [heq] at hx
  cases hx.symm.trans hy
  exact hxa.id.symm.trans hyb.id

theorem sweep_goes (hs : w.core.Sound) {m : MapRef}
    (ha : ∀ r, w.isHeld r = false → ∀ k, P (.free m r) k) :
    Goes P w (w.sweep m).2 := by
  have hin : ∀ r ∈ w.unheld m, (∃ id, w.core.Lists m id r) ∧ w.isHeld r = false := by
    intro r hr
    unfold unheld at hr
    cases hm : w.maps[m]? with
    | none => simp [hm] at hr
    | some map =>
      rw [hm, Option.elim_some, List.mem_filter, List.mem_map] at hr
      obtain ⟨⟨e, he, rfl⟩, hheld⟩ := hr
      exact ⟨⟨e.1, map, hm, he⟩, by simpa using hheld⟩
  have hn : (w.unheld m).Nodup := by
    unfold unheld
    cases hm : w.maps[m]? with
    | none => simp
    | some map => exact (refs_nodup hs hm).sublist List.filter_sublist
  obtain ⟨ds, hc, hk⟩ := finishAll_course (w := w.unregister m (w.unheld m)) hs
    (core_unregister w m _) hn (fun r hr => (hin r hr).1) fun r hr => ha r (hin r hr).2
  have hgoes : Goes P w ((w.unregister m (w.unheld m)).finishAll m (w.unheld m)).2 :=
    ⟨ds, hc, (keeps_unregister w m _).trans hk⟩
  unfold sweep
  dsimp only
  split
  · next hq => rw [hq] at hgoes; exact hgoes
  · next hq => rw [hq] at hgoes; exact hgoes

/-- Freeing what is not held keeps all names good. -/
theorem Holding.frees (h : Holding own w) {m : MapRef} {gone : RecordRef → Prop}
    (hg : Goes (fun d _ => ∃ r, gone r ∧ d = .free m r) w w')
    (hh : ∀ r, gone r → w.isHeld r = false) : Holding own w' := by
  obtain ⟨ds, hc, hk⟩ := hg
  have hframe : w.core.Frame w'.core ∧
      ∀ r, w.isHeld r = true → w.core.Listed r → w'.core.Listed r := by
    refine Chain.preserves (P := fun k => w.core.Frame k ∧
      ∀ r, w.isHeld r = true → w.core.Listed r → k.Listed r) ?_ hc ⟨.refl _, fun _ _ hl => hl⟩
    rintro d s t ⟨⟨r, hgone, rfl⟩, hdoes⟩ ⟨hf, hl⟩
    obtain ⟨map, i, l, -, -, -, -, rfl⟩ := hdoes
    have hfd : s.Frame (s.dismiss m r i.hub) :=
      ⟨Core.shape_setMap s m fun _ => rfl, rfl, rfl,
        by simp [Core.dismiss, Core.tell, Core.unregister, Core.setMap]⟩
    have hmaps : ∀ {t : Core}, t.maps = (s.dismiss m r i.hub).maps →
        ∀ j, w.isHeld j = true → w.core.Listed j → t.Listed j := by
      intro t ht j hheld hlj
      obtain ⟨m', id, hlj⟩ := hl j hheld hlj
      refine ⟨m', id, (Core.lists_dismiss.mpr ⟨hlj, fun _ => ?_⟩).of_maps ht⟩
      rintro rfl
      rw [hh j hgone] at hheld
      cases hheld
    split
    · exact ⟨hf.trans (hfd.trans (Core.stays_setDatabase _ _ _).frame),
        hmaps (Core.setDatabase_maps _ _ _)⟩
    · exact ⟨hf.trans hfd, hmaps rfl⟩
  exact h.of_frame hframe.1 hframe.2 hk.views hk.stores hk.handles hk.mapNames hk.viewNames
    hk.volumes

end LiveRecords.Workspace
