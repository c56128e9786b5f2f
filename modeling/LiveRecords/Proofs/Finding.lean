import LiveRecords.Proofs.Announcing
import LiveRecords.Proofs.Combining
import LiveRecords.Proofs.Confining
import LiveRecords.Proofs.Sorting
import LiveRecords.Proofs.Sustaining

/-!
# What finding does

A filter gives rows of a table, and each of them goes to the record under its key, which is
made if there is none. What a record takes in replaces what it took for stored, but no edit;
besides its parent nothing else of it changes, and nothing of any other record. A statement
that fails leaves everything as it is.
-/

namespace LiveRecords

open Table (Row)

/-! ## Records and stored rows -/

namespace RowImage

variable {s : Schema} {t : Table} {r : Row} {x : RowImage}

theorem parts_of_ofRow (h : ofRow s t r = .ok x) :
    parentOfRow s t r = .ok x.parent ∧ valuesOfRow s t r s.fieldNames = .ok x.values := by
  unfold ofRow at h
  obtain ⟨c, -, h⟩ := bind_eq_ok.mp h
  obtain ⟨id, -, h⟩ := bind_eq_ok.mp h
  obtain ⟨parent, hparent, h⟩ := bind_eq_ok.mp h
  obtain ⟨values, hvalues, h⟩ := bind_eq_ok.mp h
  cases h
  exact ⟨hparent, hvalues⟩

theorem cellNamed_eq_ok {name : String} {c : Table.Cell} (h : cellNamed t r name = .ok c) :
    t.hasColumn name = true ∧ c = t.cell r name := by
  unfold cellNamed at h
  split at h <;> cases h
  exact ⟨‹_›, rfl⟩

/-- Each value is read from the cell of its field. -/
theorem value_of_valuesOfRow {fs : List String} {vs : List Value}
    (h : valuesOfRow s t r fs = .ok vs) {f : String} (hf : f ∈ fs) :
    ∃ v, valueOfCell s.table (t.cell r f) = .ok v ∧ (fs.zip vs).lookup f = some v := by
  induction fs generalizing vs with
  | nil => cases hf
  | cons g fs ih =>
    unfold valuesOfRow at h
    obtain ⟨c, hc, h⟩ := bind_eq_ok.mp h
    obtain ⟨v, hv, h⟩ := bind_eq_ok.mp h
    obtain ⟨us, hus, h⟩ := bind_eq_ok.mp h
    cases h
    rw [(cellNamed_eq_ok hc).2] at hv
    by_cases hfg : f = g
    · subst hfg
      exact ⟨v, hv, by simp⟩
    · have hrest := ih hus ((List.mem_cons.mp hf).resolve_left hfg)
      simpa [List.lookup_cons, beq_false_of_ne hfg] using hrest

theorem hasColumn_of_valuesOfRow {fs : List String} {vs : List Value}
    (h : valuesOfRow s t r fs = .ok vs) {f : String} (hf : f ∈ fs) : t.hasColumn f = true := by
  induction fs generalizing vs with
  | nil => cases hf
  | cons g fs ih =>
    unfold valuesOfRow at h
    obtain ⟨c, hc, h⟩ := bind_eq_ok.mp h
    obtain ⟨v, -, h⟩ := bind_eq_ok.mp h
    obtain ⟨us, hus, h⟩ := bind_eq_ok.mp h
    rcases List.mem_cons.mp hf with rfl | hf
    · exact (cellNamed_eq_ok hc).1
    · exact ih hus hf

/-- Where a row is read, the table has the columns of the type. -/
theorem hasColumn_of_ofRow (h : ofRow s t r = .ok x) {n : String} (hn : s.hasColumn n = true) :
    t.hasColumn n = true := by
  obtain ⟨hparent, hvalues⟩ := parts_of_ofRow h
  simp only [Schema.hasColumn, Bool.or_eq_true, beq_iff_eq] at hn
  rcases hn with (rfl | hn) | hn
  · unfold ofRow at h
    obtain ⟨c, hc, -⟩ := bind_eq_ok.mp h
    exact (cellNamed_eq_ok hc).1
  · unfold parentOfRow at hparent
    rw [hn] at hparent
    dsimp only at hparent
    split at hparent
    · cases hparent
    · next hc => exact (cellNamed_eq_ok hc).1
    · next hc => exact (cellNamed_eq_ok hc).1
  · obtain ⟨f, hf⟩ := Option.isSome_iff_exists.mp hn
    have hname : f.name = n := by simpa using List.find?_some hf
    rw [← hname]
    exact hasColumn_of_valuesOfRow hvalues (List.mem_map_of_mem (List.mem_of_find?_eq_some hf))

end RowImage

namespace Record

variable {x y : Record} {s : Schema} {t : Table} {row : Row} {image : RowImage}

/-- A record took in a stored row: a field without an edit holds what is stored, one with an
edit all that it held, and besides the parent nothing else changed. -/
structure Refreshes (x : Record) (t : Table) (row : Row) (y : Record) : Prop where
  clean : ∀ u ∈ x.slots, u.dirty = false → ∃ v,
    RowImage.valueOfCell x.table (t.cell row u.name) = .ok v ∧
      y.slot? u.name = some (.clean u.field v)
  edited : ∀ u ∈ x.slots, u.dirty = true → y.slot? u.name = some u
  fields : y.slots.map (·.field) = x.slots.map (·.field)
  parent : RowImage.parentOfRow x.schema t row = .ok y.parent
  others : y = { x with slots := y.slots, parent := y.parent }

/-- A clean slot takes over the value that is handed to it, an edited one does not. -/
theorem settle_of_value {named : NamedRow} {u : Slot} {v : Value} (h : named.value? u = some v) :
    named.settle u = if u.dirty then u else .clean u.field v := by
  unfold NamedRow.settle
  rw [h]
  dsimp only
  obtain ⟨f, c, b, d⟩ := u
  cases d with
  | true => simp [isNews]
  | false =>
    by_cases hsame : c = v ∧ b = v
    · obtain ⟨rfl, rfl⟩ := hsame
      simp [isNews, Slot.clean]
    · have hnews : isNews ⟨f, c, b, false⟩ v = true := by
        simp only [isNews, Bool.not_false, Bool.true_and, Bool.or_eq_true, bne_iff_ne]
        exact Classical.not_and_iff_not_or_not.mp hsame
      simp [hnews]

/-- Whoever takes in what a row is read as has taken in the row. -/
theorem refreshes_hydrate (hx : x.Coherent) (h : RowImage.ofRow x.schema t row = .ok image) :
    x.Refreshes t row (x.hydrate image).record := by
  obtain ⟨hparent, hvalues⟩ := RowImage.parts_of_ofRow h
  generalize hnamed : NamedRow.ofImage x.schema image = named
  have hrecord : (x.hydrate image).record =
      { x with slots := x.slots.map named.settle, parent := image.parent } := by
    rw [← takeRow_ofImage hx.proper hx.fields, hnamed]
    unfold takeRow
    rw [record_setParent, ← hnamed]
    rfl
  have hfields : (x.slots.map named.settle).map (·.field) = x.slots.map (·.field) := by
    rw [List.map_map]
    exact List.map_congr_left fun u _ => named.field_settle u
  -- What a slot becomes is found under its name.
  have hslot : ∀ u ∈ x.slots, ∃ v, RowImage.valueOfCell x.table (t.cell row u.name) = .ok v ∧
      (x.hydrate image).record.slot? u.name =
        some (if u.dirty then u else .clean u.field v) := by
    intro u hu
    obtain ⟨v, hv, hlook⟩ := RowImage.value_of_valuesOfRow hvalues (hx.name_mem hu)
    have hvalue : named.value? u = some v := by
      rw [← hnamed]
      exact hlook
    refine ⟨v, hv, ?_⟩
    rw [hrecord, ← settle_of_value hvalue]
    have hname : (named.settle u).name = u.name := congrArg Field.name (named.field_settle u)
    rw [← hname]
    refine slot?_of_mem ?_ (List.mem_map_of_mem hu)
    show ((x.slots.map named.settle).map (·.name)).Nodup
    rw [names_of_fields hfields]
    exact hx.names_nodup
  constructor
  · intro u hu hclean
    obtain ⟨v, hv, hs⟩ := hslot u hu
    rw [hclean] at hs
    exact ⟨v, hv, hs⟩
  · intro u hu hedited
    obtain ⟨v, -, hs⟩ := hslot u hu
    rw [hedited] at hs
    exact hs
  · rw [hrecord]
    exact hfields
  · rw [hrecord]
    exact hparent
  · rw [hrecord]

end Record

/-! ## What coordinators keep -/

theorem filter_erase {α : Type} [BEq α] [LawfulBEq α] {p : α → Bool} {a : α} (hp : p a = false)
    (l : List α) : (l.erase a).filter p = l.filter p := by
  induction l with
  | nil => rfl
  | cons b l ih =>
    rw [List.erase_cons]
    split
    · next hb =>
      rw [eq_of_beq hb, List.filter_cons, hp]
      rfl
    · rw [List.filter_cons, List.filter_cons, ih]

/-- Notices about an item leave the other entries, in order. -/
theorem Notice.filter_told (ns : List Notice) {p : Nat → Bool} {item : Nat}
    (hp : p item = false) (c : Coordinator) (t : Track) :
    ((told ns item c).entries t).filter p = (c.entries t).filter p := by
  induction ns generalizing c with
  | nil => rfl
  | cons n ns ih =>
    rw [told_cons, ih]
    cases n with
    | gained u =>
      rw [apply, Coordinator.entries_add]
      split
      · next htu => rw [List.filter_cons, hp, htu]; rfl
      · rfl
    | lost u =>
      rw [apply, Coordinator.entries_remove]
      split
      · next htu => rw [filter_erase hp, htu]
      · rfl

namespace Core

variable {k k' k₁ : Core} {m : MapRef} {r : RecordRef} {p : RecordRef → Bool}

/-- What a record in memory is. -/
def state? (k : Core) (r : RecordRef) : Option Record := (k.records[r]?).map (·.record)

/-- The entries of the records of a kind are the same, in the same order. -/
def SameEntries (p : RecordRef → Bool) (k k' : Core) : Prop :=
  ∀ h t, ((k'.coordinatorOf h).entries t).filter p = ((k.coordinatorOf h).entries t).filter p

theorem SameEntries.trans (h : SameEntries p k k₁) (h' : SameEntries p k₁ k') :
    SameEntries p k k' :=
  fun j t => (h' j t).trans (h j t)

theorem sameEntries_of_coordinators (h : k'.coordinators = k.coordinators) :
    SameEntries p k k' := by
  intro j t
  unfold coordinatorOf
  rw [h]

theorem sameEntries_tell (k : Core) (h : HubRef) {f : Coordinator → Coordinator}
    (hf : ∀ c t, ((f c).entries t).filter p = (c.entries t).filter p) :
    SameEntries p k (k.tell h f) := by
  by_cases hlt : h < k.coordinators.length
  · intro j t
    rw [coordinatorOf_tell hlt]
    split
    · next hj => rw [hj, hf]
    · rfl
  · exact sameEntries_of_coordinators (List.modify_eq_self (Nat.le_of_not_lt hlt))

theorem sameEntries_impose (k : Core) {e : Effect} (h : p r = false ∨ e.notices = []) :
    SameEntries p k (k.impose r e) := by
  unfold impose
  split
  · exact fun _ _ => rfl
  · refine sameEntries_tell (k.setRecord r e.record) _ fun c t => ?_
    rcases h with hp | hnone
    · exact Notice.filter_told _ hp c t
    · rw [hnone]
      rfl

theorem sameEntries_asked {cs : List (Record.Command × Except StoreError Record.Reply)}
    (hp : p r = false) (h : Asked r cs k k') : SameEntries p k k' := by
  refine Chain.preserves (P := SameEntries p k) (fun hc hs => ?_) h fun _ _ => rfl
  obtain ⟨i, l, -, -, -, -, rfl⟩ := hc
  exact hs.trans ((sameEntries_of_coordinators (setDatabase_coordinators _ _ _)).trans
    (sameEntries_impose _ (.inl hp)))

/-- Commands on a record are turns that it takes. -/
theorem Asked.after {cs : List (Record.Command × Except StoreError Record.Reply)} {x : Record}
    (h : Asked r cs k k') (hx : k.state? r = some x) :
    ∃ ts, List.Forall₂ (fun c t => ∃ l, t = Record.Turn.asked c.1 l) cs ts ∧
      k'.state? r = some (x.after ts) := by
  induction h generalizing x with
  | nil => exact ⟨[], .nil, hx⟩
  | cons hc _ ih =>
    obtain ⟨i, l, hi, -, -, -, rfl⟩ := hc
    obtain rfl : i.record = x := by simpa [state?, hi] using hx
    obtain ⟨ts, hts, hlast⟩ := ih (x := (i.record.run l _).1.2.record) (by
      rw [state?, records_impose_self (i := i) (by rw [setDatabase_records, hi])]
      rfl)
    exact ⟨.asked _ l :: ts, .cons ⟨l, rfl⟩ hts, hlast⟩

/-! ## Taking rows in -/

variable {s : Schema} {answered : RecordRef → Prop} {images : List RowImage} {x : RowImage}
  {rs : List RecordRef}

/-- Rows were taken in, each by the record under its key. Nothing else happened but what
listeners had done to records that answered. -/
structure Gathers (s : Schema) (m : MapRef) (answered : RecordRef → Prop)
    (images : List RowImage) (rs : List RecordRef) (k k' : Core) : Prop where
  listed : List.Forall₂ (fun x r => k'.Lists m x.id r) images rs
  once : rs.Nodup
  lasting : ∀ {m' id r}, k.Lists m' id r → k'.Lists m' id r
  added : ∀ {m' id r}, k'.Lists m' id r → k.Lists m' id r ∨ m' = m ∧ r ∈ rs
  untouched : ∀ {r}, r ∉ rs → k'.state? r = k.state? r
  taken : ∀ {x r}, (x, r) ∈ images.zip rs → ∃ ts : List Record.Turn,
    (∀ t ∈ ts, ∃ c l, t = .asked c l) ∧ (¬answered r → ts = []) ∧
    k'.state? r =
      some ((((k.state? r).getD (.initial x.id s false)).hydrate x).record.after ts)
  entries : ∀ {p : RecordRef → Bool}, (∀ r ∈ rs, answered r → p r = false) → SameEntries p k k'
  databases : (∀ r ∈ rs, ¬answered r) → k'.databases = k.databases

theorem Gathers.nil (s : Schema) (m : MapRef) (answered : RecordRef → Prop) (k : Core) :
    Gathers s m answered [] [] k k where
  listed := .nil
  once := .nil
  lasting h := h
  added h := .inl h
  untouched _ := rfl
  taken h := by cases h
  entries _ _ _ := rfl
  databases _ := rfl

/-- A key has one record, and a record has one key. -/
theorem Sound.id_unique (hs : k.Sound) {id id' : RecordId} (h : k.Lists m id r)
    (h' : k.Lists m id' r) : id = id' := by
  obtain ⟨map, hm, hmem⟩ := h
  obtain ⟨map', hm', hmem'⟩ := h'
  cases hm.symm.trans hm'
  obtain ⟨i, hi, hof⟩ := hs.kept hm hmem
  obtain ⟨i', hi', hof'⟩ := hs.kept hm hmem'
  cases hi.symm.trans hi'
  exact hof.id.symm.trans hof'.id

/-- The first row is taken in before the others, which are under other keys. -/
theorem Gathers.cons (h : Gathers s m answered [x] [r] k k₁)
    (h' : Gathers s m answered images rs k₁ k') (hs : k'.Sound) (hx : ∀ y ∈ images, y.id ≠ x.id) :
    Gathers s m answered (x :: images) (r :: rs) k k' := by
  have hfirst : k₁.Lists m x.id r := (List.forall₂_cons.mp h.listed).1
  have hr : r ∉ rs := by
    intro hmem
    obtain ⟨y, hy, hl⟩ := Workspace.exists_left h'.listed hmem
    exact hx y hy (hs.id_unique hl (h'.lasting hfirst))
  refine ⟨.cons (h'.lasting hfirst) h'.listed, List.nodup_cons.mpr ⟨hr, h'.once⟩,
    fun hl => h'.lasting (h.lasting hl), fun hl => ?_, fun hj => ?_, fun hxy => ?_,
    fun hp => ?_, fun hans => ?_⟩
  · rcases h'.added hl with hl | ⟨rfl, hmem⟩
    · rcases h.added hl with hl | ⟨rfl, hmem⟩
      · exact .inl hl
      · exact .inr ⟨rfl, List.mem_cons.mpr (.inl (List.mem_singleton.mp hmem))⟩
    · exact .inr ⟨rfl, List.mem_cons_of_mem _ hmem⟩
  · rw [List.mem_cons, not_or] at hj
    rw [h'.untouched hj.2, h.untouched (by simpa using hj.1)]
  · rcases List.mem_cons.mp hxy with heq | hmem
    · obtain ⟨rfl, rfl⟩ := Prod.mk.inj heq
      rw [h'.untouched hr]
      exact h.taken (by simp)
    · have hin := (List.of_mem_zip hmem).2
      have hne : ¬_ = r := fun he => hr (he ▸ hin)
      rw [← h.untouched (by simpa using hne)]
      exact h'.taken hmem
  · exact (h.entries fun j hj => hp j (by simp_all)).trans
      (h'.entries fun j hj => hp j (List.mem_cons_of_mem _ hj))
  · rw [h'.databases fun j hj => hans j (List.mem_cons_of_mem _ hj),
      h.databases fun j hj => hans j (by simp_all)]

/-- What is made for a key is a record, and it is registered. -/
theorem Meets.leaves {id : RecordId} {isNew : Bool} (h : Meets m id isNew r k k') :
    k'.databases = k.databases ∧ k'.coordinators = k.coordinators ∧
      (∀ {j}, j ≠ r → k'.state? j = k.state? j) ∧
      ∀ {m' id' j}, k'.Lists m' id' j → k.Lists m' id' j ∨ m' = m ∧ j = r := by
  obtain ⟨map, hm, ⟨-, rfl⟩ | ⟨-, rfl, rfl⟩⟩ := h
  · exact ⟨rfl, rfl, fun _ => rfl, .inl⟩
  · refine ⟨rfl, rfl, fun {j} hj => ?_, fun hl => ?_⟩
    · unfold state? enrol
      rcases Nat.lt_or_gt_of_ne hj with hlt | hgt
      · rw [List.getElem?_append_left hlt]
      · rw [List.getElem?_eq_none (by rw [List.length_append]; exact hgt),
          List.getElem?_eq_none (Nat.le_of_lt hgt)]
    · rcases (lists_enrol hm).mp hl with hl | ⟨rfl, -, rfl⟩
      · exact .inl hl
      · exact .inr ⟨rfl, rfl⟩

/-- The record under a key is the one that was registered, or one with initial values. -/
theorem Meets.state {id : RecordId} {isNew : Bool} (h : Meets m id isNew r k k')
    (hs : k.Sound) (hschema : ∀ map, k.maps[m]? = some map → map.schema = s) :
    k'.state? r = some ((k.state? r).getD (.initial id s isNew)) := by
  obtain ⟨map, hm, ⟨hid, rfl⟩ | ⟨-, rfl, rfl⟩⟩ := h
  · obtain ⟨i, hi, -⟩ := hs.kept hm (mem_of_lookup hid)
    simp [state?, hi]
  · simp [state?, records_enrol_self, hschema map hm]

/-- One row is taken in. -/
theorem gathers_single {id : RecordId} {i : Resident} (hs : k.Sound)
    {cs : List (Record.Command × Except StoreError Record.Reply)}
    (hschema : ∀ map, k.maps[m]? = some map → map.schema = s) (hid : x.id = id)
    (hm : Meets m id false r k k₁) (hi : k₁.records[r]? = some i)
    (hc : Asked r cs (k₁.impose r (i.record.hydrate x)) k') (hans : cs ≠ [] → answered r) :
    Gathers s m answered [x] [r] k k' := by
  subst hid
  obtain ⟨hdatabases, hcoordinators, hothers, hadded⟩ := hm.leaves
  have hmaps : k'.maps = k₁.maps := hc.maps.trans (impose_maps _ _ _)
  have hidle : ¬answered r → k' = k₁.impose r (i.record.hydrate x) := by
    intro hno
    by_cases hcs : cs = []
    · subst hcs
      exact hc.eq_of_nil
    · exact absurd (hans hcs) hno
  have hquiet : (i.record.hydrate x).notices = [] := by
    unfold Record.hydrate Record.setParent
    dsimp only
    split <;> rfl
  refine ⟨.cons ((hs.meets hm).2.of_maps hmaps) .nil, List.nodup_singleton r,
    fun hl => (hm.stays.lists hl).of_maps hmaps, fun hl => ?_, fun hj => ?_, fun hxr => ?_,
    fun hp => ?_, fun hno => ?_⟩
  · simpa using hadded (hl.of_maps hmaps.symm)
  · have hne := mt List.mem_singleton.mpr hj
    rw [← hothers hne]
    unfold state?
    rw [hc.records_of_ne hne, records_impose_of_ne _ hne]
  · obtain ⟨rfl, rfl⟩ : _ = x ∧ _ = r := by simpa using hxr
    have hstate := hm.state hs hschema
    rw [state?, hi, Option.map_some, Option.some.injEq] at hstate
    rw [← hstate]
    obtain ⟨ts, hts, hlast⟩ := hc.after (x := (i.record.hydrate _).record)
      (by rw [state?, records_impose_self hi]; rfl)
    refine ⟨ts, fun t ht => ?_, fun hno => ?_, hlast⟩
    · obtain ⟨c, -, l, rfl⟩ := Workspace.exists_left hts ht
      exact ⟨_, l, rfl⟩
    · have hnone : cs = [] := by
        by_contra hcs
        exact hno (hans hcs)
      rw [hnone] at hts
      cases hts
      rfl
  · refine (sameEntries_of_coordinators hcoordinators).trans ?_
    by_cases hr : answered r
    · have hpr := hp r (by simp) hr
      exact (sameEntries_impose _ (.inl hpr)).trans (sameEntries_asked hpr hc)
    · rw [hidle hr]
      exact sameEntries_impose _ (.inr hquiet)
  · rw [hidle (hno r (by simp)), impose_databases, hdatabases]

/-- Rows under distinct keys are taken in one after another. -/
theorem gathers_of_takenIn (h : TakenIn m answered images k k') (hs : k.Sound)
    (hschema : ∀ map, k.maps[m]? = some map → map.schema = s)
    (hn : (images.map (·.id)).Nodup) : ∃ rs, Gathers s m answered images rs k k' := by
  induction h with
  | nil k => exact ⟨[], .nil s m answered k⟩
  | @cons x images r i cs k₀ k₁ k₂ k₃ hm hi hc hans hrest ih =>
    rw [List.map_cons, List.nodup_cons] at hn
    have hfirst := gathers_single hs hschema rfl hm hi hc hans
    obtain ⟨hs₁, hl⟩ := hs.meets hm
    have hs₂ : k₂.Sound := (hs₁.impose hi ⟨m, _, hl⟩ (Record.hydrate_balanced _ _)
      (Record.hydrate_remains _ _)).asked hc
    have hstays : Stays k₀ k₂ := hm.stays.trans ((stays_impose _ _ _).trans hc.stays)
    have hschema₂ : ∀ map, k₂.maps[m]? = some map → map.schema = s := by
      intro map hmap
      obtain ⟨map', hmap', hlike⟩ := map_of_shape hstays.frame.shape.symm hmap
      rw [← hlike.schema]
      exact hschema map' hmap'
    obtain ⟨rs, hgathers⟩ := ih hs₂ hschema₂ hn.2
    refine ⟨r :: rs, hfirst.cons hgathers (hs₂.takenIn hrest) fun y hy hid => hn.1 ?_⟩
    exact hid ▸ List.mem_map_of_mem hy

end Core

/-! ## Rows that a filter gives -/

/-- The rows of a table to which a filter leads. They come in the order of their numbers,
where `rowid` means those, and they are the rows that are asked for, as long as no predicate
is about those numbers. -/
structure Filter.Chooses (f : Filter) (t : Table) (rows : List Row) : Prop where
  mem : ∀ row ∈ rows, row ∈ t.rows
  once : rows.Nodup
  inOrder : t.meansNumber "rowid" = true → rows.Pairwise fun a b => a.number < b.number
  selected : (∀ p ∈ f.predicates, t.meansNumber p.column = false) →
    t.rows.length < Database.maxPage →
    ∀ row ∈ t.rows, f.Sharp t row → (row ∈ rows ↔ f.Selects t row)

namespace Link

variable {l : Link} {s : Schema} {f : Filter} {t : Table} {rows : List Row}
  {images : List RowImage}

theorem chooses_of_selectWhere (ht : l.database.table? s.table = some t) (hd : t.Declared)
    (h : (l.selectWhere s f).1 = .ok images) :
    ∃ rows, f.Chooses t rows ∧ rows.map (RowImage.ofRow s t) = images.map .ok := by
  obtain ⟨-, k, t', rows, hk, hasks, hpage, hrows⟩ := selectWhere_eq_ok.mp h
  obtain rfl : t' = t := hasks.eq_table ht
  have hpicks := Table.picks_page hd.picks k (List.range t'.columns.length) Database.maxPage 0
  rw [hpage] at hpicks
  refine ⟨rows, ⟨hpicks.mem, .of_map _ hpicks.distinct, fun hnumber => ?_,
    fun hcolumns hfew row hrow hsharp => ?_⟩, hrows⟩
  · cases rows with
    | nil => exact .nil
    | cons row rows =>
      -- A row that was read has the columns of the type.
      obtain ⟨x, hx⟩ := RowImage.exists_of_read hrows row List.mem_cons_self
      have hasked : t'.Asked k := Table.asked_of hd.plain hk fun p hp =>
        Table.place?_ne_number (RowImage.hasColumn_of_ofRow hx ((clauseFor_eq_ok hk).1 p hp))
      exact hd.sorted_page hasked hnumber hpage
  · have hasked : t'.Asked k := Table.asked_of hd.plain hk fun p hp =>
      Table.place?_ne_number_of_meansNumber (hcolumns p hp)
    exact Table.mem_page_iff_selects hk hasked hd.picks hd.exact hpage hfew (hd.kept row hrow) hrow
      hsharp

/-- Rows of a table are read as images under distinct keys. -/
theorem ids_nodup_of (hd : t.Declared) (hn : rows.Nodup) (hmem : ∀ row ∈ rows, row ∈ t.rows)
    (hread : rows.map (RowImage.ofRow s t) = images.map .ok) : (images.map (·.id)).Nodup := by
  induction rows generalizing images with
  | nil =>
    obtain rfl : images = [] := by simpa using hread.symm
    exact .nil
  | cons row rows ih =>
    obtain ⟨x, images, rfl⟩ : ∃ x xs, images = x :: xs := by
      cases images with
      | nil => simp at hread
      | cons x xs => exact ⟨x, xs, rfl⟩
    simp only [List.map_cons, List.cons.injEq] at hread
    rw [List.nodup_cons] at hn
    rw [List.map_cons, List.nodup_cons]
    refine ⟨fun hid => hn.1 ?_, ih hn.2 (fun q hq => hmem q (by simp [hq])) hread.2⟩
    obtain ⟨y, hy, hyx⟩ := List.mem_map.mp hid
    have hy' : (.ok y : Except StoreError RowImage) ∈ rows.map (RowImage.ofRow s t) := by
      rw [hread.2]
      exact List.mem_map_of_mem hy
    obtain ⟨q, hq, hqy⟩ := List.mem_map.mp hy'
    have hcells : t.cell row keyColumn = t.cell q keyColumn := by
      rw [RowImage.cell_of_ofRow hread.1, RowImage.cell_of_ofRow hqy, hyx]
    have hsame : row = q := hd.distinct row (hmem row (by simp)) q (hmem q (by simp [hq]))
      (hcells ▸ .same _)
    rw [hsame]
    exact hq

end Link

namespace Workspace

open LiveRecords.Core

variable {w w' : Workspace} {m : MapRef} {map : IdentityMap} {s : Schema} {t : Table}
  {f : Filter} {rows : List Row} {images : List RowImage} {rs : List RecordRef} {r : RecordRef}

/-! ## Finding -/

/-- Stored rows went to the records under their keys. -/
structure Resolves (w : Workspace) (m : MapRef) (s : Schema) (t : Table) (rows : List Row)
    (rs : List RecordRef) (w' : Workspace) : Prop where
  length : rs.length = rows.length
  /-- Each row has the record that is registered under its key, which took it in. Then only
  commands were carried out on the record with which its listeners answered. -/
  each : ∀ {i : Nat} {row r}, rows[i]? = some row → rs[i]? = some r →
    ∃ (id : RecordId) (y : Record) (ts : List Record.Turn),
      RowImage.idOfRow s t row = .ok id ∧ w'.registered? m id = some r ∧
      ((w.states[r]?).getD (.initial id s false)).Refreshes t row y ∧
      w'.states[r]? = some (y.after ts) ∧ (∀ turn ∈ ts, ∃ c l, turn = .asked c l) ∧
      (w.armed r = 0 → ts = [])
  once : rs.Nodup
  lasting : ∀ {m' id r}, w.registered? m' id = some r → w'.registered? m' id = some r
  added : ∀ {m' id r}, w'.registered? m' id = some r →
    w.registered? m' id = some r ∨ m' = m ∧ r ∈ rs
  untouched : ∀ {r : RecordRef}, r ∉ rs → w'.states[r]? = w.states[r]?
  entries : ∀ h track, ((w'.coordinatorOf h).entries track).filter
      (fun r => decide (r ∈ rs → w.armed r = 0)) =
    ((w.coordinatorOf h).entries track).filter fun r => decide (r ∈ rs → w.armed r = 0)
  quiet : (∀ r ∈ rs, w.armed r = 0) →
    (∀ h, w'.coordinatorOf h = w.coordinatorOf h) ∧ w'.databases = w.databases

/-- Whatever was tried, nothing came of it. -/
structure Unmoved (w w' : Workspace) : Prop where
  records : w'.records = w.records
  maps : w'.maps = w.maps
  hubs : w'.hubs = w.hubs
  databases : w'.databases = w.databases

/-- What finding rows comes to, whatever the program does next. -/
structure FindsRows (w : Workspace) : Prop where
  found : ∀ {m map f rs}, w.maps[m]? = some map → (w.find m f).1 = .ok rs →
    ∃ t rows, (w.databaseOf map.connection).table? map.schema.table = some t ∧
      f.Chooses t rows ∧ Resolves w m map.schema t rows rs (w.find m f).2
  failed : ∀ {m f e}, (w.find m f).1 = .error e → Unmoved w (w.find m f).2
  /-- It fails as the statement does that reads the rows. -/
  error_iff : ∀ {m map f e}, w.maps[m]? = some map → ((w.find m f).1 = .error e ↔
    ((w.link map.connection).selectWhere map.schema f).1 = .error e)
  children : ∀ {m map column parent}, w.maps[m]? = some map →
    map.schema.parentColumn = some column →
    w.children m parent = w.find m (childFilter column parent) ∧
      ∀ t row, (childFilter column parent).Sharp t row
  childless : ∀ {m map parent}, w.maps[m]? = some map → map.schema.parentColumn = none →
    w.children m parent = (.error (.noParentColumn map.schema.table), w)

theorem getElem?_states (w : Workspace) (r : RecordRef) : w.states[r]? = w.core.state? r := by
  rw [states_eq, List.getElem?_map]
  rfl

theorem unmoved_setLink {c : ConnectionRef} {l : Link} (h : l.database = w.databaseOf c) :
    Unmoved w (w.setLink c l) := by
  have hstill := still_through (w := w) (c := c) (f := fun _ => ((), l)) h
  have hdatabases := congrArg Core.databases hstill.1
  refine ⟨?_, ?_, ?_, hdatabases⟩ <;> (unfold setLink; split <;> rfl)

theorem find_failed {e : StoreError} (h : (w.find m f).1 = .error e) :
    Unmoved w (w.find m f).2 := by
  cases hm : w.maps[m]? with
  | none => simp [find, onTable, hm, resolveAll] at h
  | some map =>
    have hunmoved : Unmoved w (w.through map.connection fun l => l.selectWhere map.schema f).2 :=
      unmoved_setLink (Link.database_selectWhere _ _ _)
    unfold find at h ⊢
    rw [onTable_of_some hm] at h ⊢
    split at h
    · next hq =>
      rw [hq] at hunmoved
      exact hunmoved
    · cases h

/-- What a record was before it took in a row. -/
theorem lived_before (hs : w.core.Sound) (hv : w.core.Lived) (hm : w.maps[m]? = some map)
    (id : RecordId) (r : RecordRef) :
    ((w.core.state? r).getD (.initial id map.schema false)).Lived := by
  cases h : w.core.state? r with
  | none =>
    obtain ⟨d, hd⟩ := (hs.placed hm).schema
    exact ⟨d, map.schema, id, false, [], hd, rfl⟩
  | some x =>
    obtain ⟨i, hi, rfl⟩ := Option.map_eq_some_iff.mp h
    exact hv r i hi

/-- A record under a key of an identity map is of its type. -/
theorem schema_of_lists (hs : w.core.Sound) {id : RecordId} (hl : w.core.Lists m id r)
    (hm : ∀ map, w.core.maps[m]? = some map → map.schema = s) {x : Record}
    (hx : w.core.state? r = some x) : x.schema = s := by
  obtain ⟨map, hmap, hmem⟩ := hl
  obtain ⟨i, hi, hof⟩ := hs.kept hmap hmem
  rw [state?, hi, Option.map_some, Option.some.injEq] at hx
  rw [← hx, hof.schema, hm map hmap]

/-- What the images of rows go to is told by the rows. -/
theorem resolves_of_gathers (hs : w.core.Sound) (hs' : w'.core.Sound) (hv : w.core.Lived)
    (hstays : w.core.Stays w'.core) (hm : w.maps[m]? = some map)
    (hread : rows.map (RowImage.ofRow map.schema t) = images.map .ok)
    (h : Gathers map.schema m (fun r => 0 < w.armed r) images rs w.core w'.core) :
    Resolves w m map.schema t rows rs w' := by
  have hlength : rows.length = images.length := by simpa using congrArg List.length hread
  refine ⟨h.listed.length_eq.symm.trans hlength.symm, fun {i row r} hrow hr => ?_, h.once,
    fun hreg => registered_of_lists hs' (h.lasting (lists_of_registered hreg)), fun hreg => ?_,
    fun hr => ?_, fun j track => ?_, fun hidle => ⟨fun j => ?_, ?_⟩⟩
  · obtain ⟨x, hx, hofRow⟩ : ∃ x, images[i]? = some x ∧
        RowImage.ofRow map.schema t row = .ok x := by
      have hi := congrArg (·[i]?) hread
      simp only [List.getElem?_map, hrow, Option.map_some] at hi
      obtain ⟨x, hx, hofRow⟩ := Option.map_eq_some_iff.mp hi.symm
      exact ⟨x, hx, hofRow.symm⟩
    have hmem : (x, r) ∈ images.zip rs :=
      List.mem_of_getElem? (List.getElem?_zip_eq_some.mpr ⟨hx, hr⟩)
    have hlists := List.forall₂_zip h.listed hmem
    obtain ⟨ts, hts, hidle, htaken⟩ := h.taken hmem
    rw [getElem?_states, getElem?_states]
    have hschema : ∀ map', w'.core.maps[m]? = some map' → map'.schema = map.schema := by
      intro map' hm'
      obtain ⟨map₀, hm₀, hlike⟩ := map_of_shape hstays.frame.shape.symm hm'
      cases hm.symm.trans hm₀
      exact hlike.schema.symm
    have hsame := schema_of_lists hs' hlists hschema htaken
    rw [(Record.after_remains _ ts).2, (Record.hydrate_remains _ x).2] at hsame
    have htook := Record.refreshes_hydrate (lived_before hs hv hm x.id r).coherent
      (hsame.symm ▸ hofRow)
    exact ⟨x.id, _, ts, RowImage.idOfRow_of_ofRow hofRow, registered_of_lists hs' hlists, htook,
      htaken, hts, fun hnone => hidle (by omega)⟩
  · rcases h.added (lists_of_registered hreg) with hl | hnew
    · exact .inl (registered_of_lists hs hl)
    · exact .inr hnew
  · rw [getElem?_states, getElem?_states]
    exact h.untouched hr
  · have hentries := h.entries (p := fun r => decide (r ∈ rs → w.armed r = 0))
      (fun r hr harmed => by simp [hr]; omega) j track
    rwa [core_coordinatorOf, core_coordinatorOf] at hentries
  · refine Coordinator.ext_entries fun track => ?_
    have hentries := h.entries (p := fun _ => true)
      (fun r hr harmed => by have := hidle r hr; omega) j track
    simpa [core_coordinatorOf] using hentries
  · exact h.databases fun r hr => by rw [hidle r hr]; exact Nat.lt_irrefl 0

theorem find_resolves (hs : w.core.Sound) (hv : w.core.Lived) (hd : w.core.Declared)
    (hm : w.maps[m]? = some map) (h : (w.find m f).1 = .ok rs) :
    ∃ t rows, (w.databaseOf map.connection).table? map.schema.table = some t ∧
      f.Chooses t rows ∧ Resolves w m map.schema t rows rs (w.find m f).2 := by
  obtain ⟨e, he, -⟩ | ⟨images, rs', hrs', htakes, hlists, hselect⟩ := find_cases hs hm f
  · rw [h] at he
    cases he
  rw [h] at hrs'
  cases hrs'
  obtain ⟨t, ht⟩ := Link.table_of_selectWhere hselect
  have hdeclared : t.Declared := by
    have hdatabase := hd.databaseOf map.connection
    rw [core_databaseOf] at hdatabase
    exact hdatabase.table ht
  obtain ⟨rows, hchooses, hread⟩ := Link.chooses_of_selectWhere ht hdeclared hselect
  have hs' := hs.takenIn htakes.taken
  have hids := Link.ids_nodup_of hdeclared hchooses.once hchooses.mem hread
  have hschema : ∀ map', w.core.maps[m]? = some map' → map'.schema = map.schema := by
    intro map' hm'
    cases hm.symm.trans hm'
    rfl
  obtain ⟨rs', hgathers⟩ := gathers_of_takenIn htakes.taken hs hschema hids
  -- Both lists name the records that are registered under the keys of the rows.
  have hsame : rs' = rs := by
    refine List.right_unique_forall₂' ?_ hgathers.listed hlists
    intro x a b ha hb
    have hab := (registered_of_lists hs' ha).symm.trans (registered_of_lists hs' hb)
    exact Option.some.inj hab
  rw [hsame] at hgathers
  exact ⟨t, rows, ht, hchooses,
    resolves_of_gathers hs hs' hv htakes.taken.stays hm hread hgathers⟩

theorem sharp_childFilter (column : String) (parent : RecordId) (t : Table) (row : Row) :
    (childFilter column parent).Sharp t row := by
  intro _ c v d u _ hd
  simp [childFilter, Filter.all, Predicate.equals] at hd

theorem findsRows (hs : w.core.Sound) (hv : w.core.Lived) (hd : w.core.Declared) :
    FindsRows w where
  found := find_resolves hs hv hd
  failed := find_failed
  error_iff := by
    intro m map f e hm
    obtain ⟨e', he, -, hselect⟩ | ⟨images, rs, hrs, -, -, hselect⟩ := find_cases hs hm f
    · rw [he, hselect]
      simp
    · rw [hrs, hselect]
      simp
  children := by
    intro m map column parent hm hcolumn
    have hfilter : w.parentColumn m = .ok column := by simp [parentColumn, hm, hcolumn]
    exact ⟨by rw [children, hfilter], sharp_childFilter column parent⟩
  childless := by
    intro m map parent hm hnone
    simp [children, parentColumn, hm, hnone]

/-- In every run in which nobody else declares tables, finding gives one record for each
row, takes rows in without losing an edit, and leaves everything else. -/
theorem findsRows_of_run (hb : Boots w) (hd : ∀ d ∈ w.databases, d.Declared)
    {actions : List Action}
    (h : (∀ a ∈ actions, a.sharesHub = false) ∨ ∀ a ∈ actions, a.steps = false)
    (hdeclares : ∀ a ∈ actions, a.declares = false) : FindsRows (w.performAll actions) :=
  findsRows (hb.good h).1 (lived_of_run hb h) (declared_of_run hb hd h hdeclares)

/-- Two tasks are stored, and one of them is edited and then changed behind its record. -/
def editsBehind : List Action :=
  [.openStore "store" .inMemory,
    .registerType "store"
      { table := "TASKS", fields := [⟨"TITLE", .text, true⟩, ⟨"RANK", .integer, false⟩] } "tasks",
    .query "tasks" (.insertRow (.ofOrdinal 1) [.text "milk", .integer 1] none),
    .query "tasks" (.insertRow (.ofOrdinal 2) [.text "bread", .null] none),
    .load "tasks" (.ofOrdinal 1) (some "task"),
    .command "task" (.set "TITLE" (.text "rice")),
    .query "tasks" (.updateField (.ofOrdinal 1) "RANK" (.integer 5))]

/-- Finding the tasks keeps the edit and takes in what was changed. -/
theorem findsRows_editsBehind :
    Boots {} ∧ (∀ d ∈ ({} : Workspace).databases, d.Declared) ∧
      ((∀ a ∈ editsBehind, a.sharesHub = false) ∨ ∀ a ∈ editsBehind, a.steps = false) ∧
      (∀ a ∈ editsBehind, a.declares = false) ∧ FindsRows (performAll {} editsBehind) ∧
      ((performAll {} editsBehind).find 0 (.all [])).1 = .ok [0, 1] ∧
      ((performAll {} editsBehind).find 0 (.all [])).2.states.map (·.slots) =
        [[⟨⟨"TITLE", .text, true⟩, .text "rice", .text "milk", true⟩,
            .clean ⟨"RANK", .integer, false⟩ (.integer 5)],
          [.clean ⟨"TITLE", .text, true⟩ (.text "bread"),
            .clean ⟨"RANK", .integer, false⟩ .null]] := by
  have hnone : ∀ d ∈ ({} : Workspace).databases, d.Declared :=
    fun _ hd => absurd hd List.not_mem_nil
  have hshares : ∀ a ∈ editsBehind, a.sharesHub = false := by decide
  have hdeclares : ∀ a ∈ editsBehind, a.declares = false := by decide
  exact ⟨boots_empty, hnone, .inl hshares, hdeclares,
    findsRows_of_run boots_empty hnone (.inl hshares) hdeclares, by rfl, by rfl⟩

/-! ## What finding does not do -/

/-- A listener answers with an edit when its record takes in what was changed. -/
def answersFinding : List Action :=
  [.openStore "store" .inMemory,
    .registerType "store" { table := "NOTES", fields := [⟨"TITLE", .text, true⟩] } "notes",
    .query "notes" (.insertRow (.ofOrdinal 1) [.text "milk"] none),
    .load "notes" (.ofOrdinal 1) (some "note"),
    .command "note" (.set "TITLE" (.text "bread")), .command "note" .commit,
    .command "note" (.replay .undo),
    .query "notes" (.updateField (.ofOrdinal 1) "TITLE" (.text "eggs")),
    .subscribe (.record "note")
      { name := "echo", once := some (.field "TITLE", .set "TITLE" (.text "rice")) }]

/-- A field has the name that means the numbers of rows elsewhere. -/
def numbersNotes : List Action :=
  [.openStore "store" .inMemory,
    .registerType "store" { table := "NOTES", fields := [⟨"rowid", .integer, false⟩] } "notes",
    .query "notes" (.insertRow (.ofOrdinal 1) [.null] none),
    .query "notes" (.insertRow (.ofOrdinal 2) [.null] none),
    .query "notes" (.updateField (.ofOrdinal 1) "rowid" (.integer 7))]

/-- A task has the lowest rank that there is. -/
def ranksLowest : List Action :=
  [.openStore "store" .inMemory,
    .registerType "store" { table := "TASKS", fields := [⟨"RANK", .integer, true⟩] } "tasks",
    .query "tasks" (.insertRow (.ofOrdinal 1) [.integer Int64.minValue] none)]

/-- Finding makes an edit and forgets what was undone, where a listener answers to it; it
gives rows in the order of a column, where that is named `rowid`; and it misses a row that
each predicate gives by itself, where a pattern is tried on a number written in another
way. -/
theorem findDiffers :
    (Boots {} ∧
      (∀ run ∈ [answersFinding, numbersNotes, ranksLowest], ∀ a ∈ run,
        a.sharesHub = false ∧ a.declares = false)) ∧
    (((performAll {} answersFinding).find 0 (.all [])).1 = .ok [0] ∧
      (performAll {} answersFinding).states.map (fun x => (x.dirtyFields, x.redo.length)) =
        [([], 1)] ∧
      ((performAll {} answersFinding).coordinatorOf 0).redo = [0] ∧
      ((performAll {} answersFinding).find 0 (.all [])).2.states.map
        (fun x => (x.dirtyFields, x.redo.length)) = [(["TITLE"], 0)] ∧
      (((performAll {} answersFinding).find 0 (.all [])).2.coordinatorOf 0).redo = []) ∧
    ((((performAll {} numbersNotes).databaseOf 0).table? "NOTES").map (fun t =>
        t.rows.map fun row => (row.number, t.cell row keyColumn)) =
          some [(1, .blob (RecordId.ofOrdinal 1).bytes), (2, .blob (RecordId.ofOrdinal 2).bytes)] ∧
      ((performAll {} numbersNotes).find 0 (.all [])).1 = .ok [0, 1] ∧
      ((performAll {} numbersNotes).find 0 (.all [])).2.states.map (·.id) =
        [.ofOrdinal 2, .ofOrdinal 1]) ∧
    (((performAll {} ranksLowest).find 0 (.all [Link.atLowest])).1 = .ok [0] ∧
      ((performAll {} ranksLowest).find 0 (.all [Link.looksLowest])).1 = .ok [0] ∧
      ((performAll {} ranksLowest).find 0 (.all [Link.atLowest, Link.looksLowest])).1 =
        .ok []) := by
  refine ⟨⟨boots_empty, by decide⟩, ⟨by rfl, by rfl, by rfl, by decide +kernel, by decide +kernel⟩,
    ⟨by rfl, by rfl, by rfl⟩, by decide +kernel, by decide +kernel, by decide +kernel⟩

end Workspace

end LiveRecords
