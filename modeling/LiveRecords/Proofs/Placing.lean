import LiveRecords.Proofs.Orderly

/-!
# Rows in their places

Rows are ordered by their numbers, and a row keeps its number as long as it is
there. What is written takes the place of the row under its key or comes after
all others, so everything but the letting go of records leaves rows standing
where they stood.
-/

namespace LiveRecords

/-! ## Places before and after -/

/-- Rows that were there and still are stand as they stood, in the same order,
and those that are new come after them. -/
def Settled (before after : List (Int × RecordId)) : Prop :=
  ∃ added, after = before.filter (· ∈ after) ++ added ∧ ∀ p ∈ added, p.2 ∉ before.map (·.2)

theorem settled_of_prefix {before after : List (Int × RecordId)} (h : before <+: after)
    (hn : (after.map (·.2)).Nodup) : Settled before after := by
  obtain ⟨added, rfl⟩ := h
  refine ⟨added, ?_, fun p hp hmem => ?_⟩
  · exact congrArg (· ++ added) (List.filter_eq_self.mpr fun p hp => by simp [hp]).symm
  · rw [List.map_append, List.nodup_append] at hn
    exact hn.2.2 _ hmem _ (List.mem_map_of_mem hp) rfl

theorem filter_eq_of_sublist {α : Type} [BEq α] [LawfulBEq α] {xs ys : List α} (h : xs.Sublist ys)
    (hn : ys.Nodup) : ys.filter (· ∈ xs) = xs := by
  induction h with
  | slnil => rfl
  | @cons xs ys y h ih =>
    obtain ⟨hy, hys⟩ := List.nodup_cons.mp hn
    have hnot : y ∉ xs := fun hmem => hy (h.subset hmem)
    rw [List.filter_cons_of_neg (by simpa using hnot), ih hys]
  | @cons_cons xs ys y h ih =>
    obtain ⟨hy, hys⟩ := List.nodup_cons.mp hn
    have hsame : ys.filter (· ∈ y :: xs) = ys.filter (· ∈ xs) :=
      List.filter_congr fun z hz => by
        have hne : z ≠ y := fun he => hy (he ▸ hz)
        simp [hne]
    rw [List.filter_cons_of_pos (by simp), hsame, ih hys]

theorem settled_of_sublist {before after : List (Int × RecordId)} (h : after.Sublist before)
    (hn : before.Nodup) : Settled before after :=
  ⟨[], by rw [List.append_nil, filter_eq_of_sublist h hn], fun _ hp => absurd hp List.not_mem_nil⟩

section Shelves

variable {es es' : List Shelved} {id : RecordId}

theorem map_place_snd (es : List Shelved) :
    (es.map Shelved.place).map (·.2) = es.map (·.image.id) := by
  rw [List.map_map]
  rfl

theorem map_place_fst (es : List Shelved) :
    (es.map Shelved.place).map (·.1) = es.map (·.number) := by
  rw [List.map_map]
  rfl

theorem shelved?_none_of_places (h : es'.map Shelved.place = es.map Shelved.place) :
    shelved? es' id = none ↔ shelved? es id = none := by
  have hids : es'.map (·.image.id) = es.map (·.image.id) := by
    rw [← map_place_snd, h, map_place_snd]
  have hmem : ∀ l : List Shelved, shelved? l id = none ↔ id ∉ l.map (·.image.id) := fun l => by
    rw [shelved?_eq_none]
    simp
  rw [hmem, hmem, hids]

end Shelves

/-- Neither a command nor the letting go of a record. -/
def Deed.rests : Deed → Bool
  | .command .. | .free .. => false
  | _ => true

namespace Outlook

open LiveRecords.Core

variable {o : Outlook} {apart : RecordRef → Prop} {k k' : Core} {m : MapRef} {s : Schema}
  {id : RecordId} {r : RecordRef} {x : Resident} {map : IdentityMap}
  {touched touched' : MapRef → RecordId → Prop}

/-! ## Rows that stay where they are -/

/-- All rows stay in their places, and some keys at most have other rows. -/
structure Steady (o : Outlook) (touched : MapRef → RecordId → Prop) (k k' : Core) : Prop where
  rows : ∀ {m s es}, o.Types k m s → (k.database o.database).Holds s es →
    ∃ es', (k'.database o.database).Holds s es' ∧
      es'.map Shelved.place = es.map Shelved.place ∧
      ∀ id, ¬touched m id → shelved? es' id = shelved? es id
  tables : o.Leaves k k'

theorem steady_of_database (h : k'.database o.database = k.database o.database) :
    o.Steady touched k k' :=
  ⟨fun _ hes => ⟨_, h.symm ▸ hes, rfl, fun _ _ => rfl⟩, fun _ _ => by rw [h]⟩

theorem Steady.trans {k₁ : Core} (h : o.Steady touched k k₁) (hk : k.Precedes k₁)
    (h' : o.Steady touched k₁ k') (hk' : k₁.Precedes k') : o.Steady touched k k' := by
  refine ⟨fun ht hes => ?_, h.tables.trans h'.tables hk'⟩
  obtain ⟨es₁, hes₁, hplaces, hrows⟩ := h.rows ht hes
  obtain ⟨es₂, hes₂, hplaces', hrows'⟩ := h'.rows (ht.ahead hk) hes₁
  exact ⟨es₂, hes₂, hplaces'.trans hplaces, fun id hid => (hrows' id hid).trans (hrows id hid)⟩

theorem Steady.mono (h : o.Steady touched k k') (ht : ∀ m id, touched m id → touched' m id) :
    o.Steady touched' k k' := by
  refine ⟨fun hm hes => ?_, h.tables⟩
  obtain ⟨es', hes', hplaces, hrows⟩ := h.rows hm hes
  exact ⟨es', hes', hplaces, fun id hid => hrows id fun hid' => hid (ht _ _ hid')⟩

/-- One row of the connection is rewritten in its place. -/
theorem steady_of_edits (ho : o.Sole) (hk : k.Precedes o.last) (hs : k.Sound) (hm : o.Types k m s)
    {es es' : List Shelved} (hes : (k.database o.database).Holds s es)
    (hd : (k.database o.database).Edits s id es (k'.database o.database) es')
    (hplaces : es'.map Shelved.place = es.map Shelved.place)
    (hrows : ∀ j, j ≠ id → shelved? es' j = shelved? es j) (hkk : k.Precedes k') :
    o.Steady (fun m' id' => m' = m ∧ id' = id) k k' := by
  refine ⟨fun {m' s' es₁} hm' hes₁ => ?_, fun name hname => ?_⟩
  · by_cases hmm : m' = m
    · subst hmm
      cases hm'.unique hm
      cases hes₁.unique (hm.proper hs) hes
      exact ⟨es', hd.holds hes, hplaces, fun j hj => hrows j fun he => hj ⟨rfl, he⟩⟩
    · refine ⟨es₁, ?_, rfl, fun _ _ => rfl⟩
      rw [hd.database]
      exact hes₁.of_ne hes es' (ho.distinct (hm.ahead hk) (hm'.ahead hk) (Ne.symm hmm))
  · rw [hd.database]
    exact Database.table?_shelve_of_ne hes es' (hname m s (hm.ahead hkk))

/-! ## Deeds -/

/-- The keys of records that answered. -/
def Answers (answered : RecordRef → Prop) (K : Core) (m : MapRef) (id : RecordId) : Prop :=
  ∃ r, answered r ∧ K.Lists m id r

/-- Commands on a record whose row is there leave the row in its place. -/
theorem Saves.steady (h : o.Saves r k k') (hs : k.Sound) (hl : k.Lists m id r)
    (hrow : ∀ {s es}, o.Types k m s → (k.database o.database).Holds s es →
      shelved? es id ≠ none) : o.Steady (fun m' id' => m' = m ∧ id' = id) k k' := by
  refine ⟨fun {m' s' es} hm' hes => ?_, h.tables⟩
  obtain ⟨es', hes', rfl | ⟨id', hl', hsaved⟩⟩ := h.rows hm' hes
  · exact ⟨es', hes', rfl, fun _ _ => rfl⟩
  · obtain ⟨rfl, rfl⟩ := hs.key_unique hl' hl
    exact ⟨es', hes', hsaved.places (hrow hm' hes), fun j hj =>
      hsaved.of_ne hes.shelf.ids fun he => hj ⟨rfl, he⟩⟩

/-- Rows that are read and taken in stay in their places, and are the same where
nobody answers. -/
theorem Faithful.takenIn_steady (h : o.Faithful apart k) (ho : o.Sole) (hk : k.Precedes o.last)
    (hs : k.Sound) {answered : RecordRef → Prop} {images : List RowImage}
    (hd : TakenIn m answered images k k')
    (himg : ∀ {s}, o.Types k m s → (images.map (·.id)).Nodup ∧
      ∀ y ∈ images, (k.database o.database).image? s y.id = some y) :
    o.Steady (Answers answered k') k k' := by
  induction hd with
  | nil _ => exact steady_of_database rfl
  | @cons image images r x cs k k₁ k₂ k₃ hmeets hx hasked hans htaken ih =>
    obtain ⟨-, hl⟩ := hs.meets hmeets
    have h₁ := h.hydrate hs hmeets hx fun ht => (himg ht).2 _ List.mem_cons_self
    obtain ⟨hs₁, hstays⟩ := sound_hydrated hs hmeets hx
    obtain ⟨h₂, hsaves⟩ := h₁.asked ho (hstays.precedes_of hk) hs₁ hasked
    obtain ⟨hs₂, hk₂, hrest⟩ := h.images_rest ho hk hs hmeets hx hasked himg
    have hdb : (k₁.impose r (x.record.hydrate image)).database o.database =
        k.database o.database := (database_impose _ _ _).trans (database_meets hmeets)
    have hl₁ := (stays_impose k₁ r (x.record.hydrate image)).lists hl
    have hbefore := htaken.stays.precedes
    -- what comes in stays as it is, and the commands find the row there
    have hcommands : o.Steady (Answers answered k₃) (k₁.impose r (x.record.hydrate image)) k₂ := by
      by_cases hcs : cs = []
      · subst hcs
        cases hasked
        exact steady_of_database rfl
      · refine (hsaves.steady hs₁ hl₁ fun {s es} ht hes hnone => ?_).mono ?_
        · have himage := (himg (types_of_shape hstays.frame.shape ht)).2 _ List.mem_cons_self
          rw [← hdb, hes.image? (ht.proper hs₁), stored?, hnone] at himage
          cases himage
        · rintro _ _ ⟨rfl, rfl⟩
          exact ⟨r, hans hcs, htaken.stays.lists (hasked.stays.lists hl₁)⟩
    have hfirst : o.Steady (Answers answered k₃) k k₂ :=
      (steady_of_database hdb).trans hstays.precedes hcommands hasked.stays.precedes
    exact hfirst.trans (hstays.precedes.trans hasked.stays.precedes) (ih h₂ hk₂ hs₂ hrest) hbefore

theorem Faithful.read_steady (h : o.Faithful apart k) (ho : o.Sole) (hk : k.Precedes o.last)
    (hs : k.Sound) {answered : RecordRef → Prop} {images : List RowImage}
    (hm : k.maps[m]? = some map) (hr : k.Reads map images) (hd : TakenIn m answered images k k') :
    o.Steady (Answers answered k') k k' :=
  h.takenIn_steady ho hk hs hd fun ht => h.images ho hk hs hm hr ht

/-- A parent that is stored goes into the row under the key. -/
theorem Faithful.adopt_edits (h : o.Faithful apart k) (ho : o.Sole) (hk : k.Precedes o.last)
    (hs : k.Sound) {l : Link} {parent : Option RecordId} (ht : o.Types k m s)
    (hdb : l.database = k.databaseOf o.connection) (hok : (l.updateParent s id parent).1 = .ok ())
    {es : List Shelved} (hes : (k.database o.database).Holds s es) :
    (k.database o.database).Edits s id es ((k.setDatabase o.connection
      (l.updateParent s id parent).2.database).database o.database)
        (revise es id fun y => { y with parent }) := by
  obtain ⟨hconn, hlt⟩ := ht.connection ho hs hk
  rw [databaseOf_eq hconn] at hdb
  have hd := Link.updateParent_edits (hdb ▸ h.plain) (hdb ▸ hes) (ht.proper hs) hok
  rwa [hdb, ← database_setDatabase hconn hlt (l.updateParent s id parent).2.database] at hd

theorem Faithful.adopt_steady (h : o.Faithful apart k) (ho : o.Sole) (hk : k.Precedes o.last)
    (hs : k.Sound) {l : Link} {parent : Option RecordId} (hm : k.maps[m]? = some map)
    (hdb : l.database = k.databaseOf map.connection)
    (hok : (l.updateParent map.schema id parent).1 = .ok ()) :
    o.Steady (fun m' id' => m' = m ∧ id' = id) k
      (k.setDatabase map.connection (l.updateParent map.schema id parent).2.database) := by
  by_cases hc : map.connection = o.connection
  · have ht : o.Types k m map.schema := ⟨map, hm, hc, rfl⟩
    obtain ⟨es, hes⟩ := h.holds ht
    have hid : ∀ y : RowImage, ({ y with parent } : RowImage).id = y.id := fun _ => rfl
    rw [hc] at hdb ⊢
    exact steady_of_edits ho hk hs ht hes (h.adopt_edits ho hk hs ht hdb hok hes)
      (places_revise hid) (fun j hj => (shelved?_revise hid j).trans (if_neg hj))
      (stays_setDatabase _ _ _).precedes
  · exact steady_of_database (database_setDatabase_of_ne (ho.elsewhere hk hm hc) _)

/-- A table that is made, or is there already, leaves the rows of all others. -/
theorem addMap_steady (ho : o.Sole) (hk : k.Precedes o.last) {l : Link} {c : ConnectionRef}
    {i : HubRef}
    (hk' : ((k.setDatabase c (l.ensureTable s).2.database).addMap
      { schema := s, connection := c, hub := i }).Precedes o.last) (hs : k.Sound)
    (hdb : l.database = k.databaseOf c) (hok : (l.ensureTable s).1 = .ok ()) :
    o.Steady touched k ((k.setDatabase c (l.ensureTable s).2.database).addMap
      { schema := s, connection := c, hub := i }) := by
  obtain ⟨e, he, -⟩ | ⟨n, d, -, hex, hd⟩ := l.ensureTable_cases s
  · rw [hok] at he
    cases he
  rw [hd] at hk' ⊢
  rw [hdb] at hex
  by_cases hc : k.connections[c]? = some o.database
  · have hself : ((k.setDatabase c d).addMap
        { schema := s, connection := c, hub := i }).maps[k.maps.length]? =
          some { schema := s, connection := c, hub := i } := by
      unfold Core.addMap
      rw [setDatabase_maps]
      exact List.getElem?_concat_length
    have hconn : c = o.connection := by
      obtain ⟨map', hm', hlike⟩ := hk'.map hself
      have hsame : c = map'.connection := hlike.connection
      exact hsame.trans (ho.only hm' (hsame ▸ hk.connections hc))
    have hnew : o.Types ((k.setDatabase c d).addMap { schema := s, connection := c, hub := i })
        k.maps.length s := ⟨_, hself, hconn, rfl⟩
    have hafter : ((k.setDatabase c d).addMap
        { schema := s, connection := c, hub := i }).database o.database = d :=
      database_setDatabase hc (hs.grounded hc) d
    rw [databaseOf_eq hc] at hex
    obtain ⟨rfl, -⟩ | ⟨hnone, rfl⟩ := Database.execute_createTable hex
    · exact steady_of_database hafter
    · have hother : ∀ {m s'}, o.Types k m s' → sameName s.table s'.table = false := by
        intro m s' ht
        refine ho.distinct (hnew.ahead hk') (ht.ahead hk) ?_
        obtain ⟨map, hm, -⟩ := ht
        exact Ne.symm (Nat.ne_of_lt (List.getElem?_eq_some_iff.mp hm).1)
      refine ⟨fun ht hes => ?_, fun name hname => ?_⟩
      · rw [hafter]
        exact ⟨_, hes.append hnone (hother ht), rfl, fun _ _ => rfl⟩
      · rw [hafter, Database.table?_append hnone]
        refine if_neg ?_
        rw [Bool.not_eq_true]
        exact hname _ _ hnew
  · exact steady_of_database (database_setDatabase_of_ne hc d)

/-- A deed that neither commands a record nor lets one go leaves all rows in
their places. -/
theorem Faithful.does_steady (h : o.Faithful apart k) (ho : o.Sole) (hs : k.Sound) {d : Deed}
    (ha : o.Orderly apart d k) (hd : Does d k k') (hk' : k'.Precedes o.last)
    (hrests : d.rests = true) : o.Steady (fun _ _ => True) k k' := by
  have hk : k.Precedes o.last := hd.precedes.trans hk'
  cases d with
  | command r c reply => cases hrests
  | free m r => cases hrests
  | read m images answered =>
    obtain ⟨map, hm, hr, ht⟩ := hd
    exact (h.read_steady ho hk hs hm hr ht).mono fun _ _ _ => trivial
  | enrol m id isNew =>
    obtain ⟨map, hm, hid, rfl⟩ := hd
    exact steady_of_database rfl
  | place r parent =>
    obtain ⟨x, hx, hl, rfl⟩ := hd
    exact steady_of_database (database_impose _ _ _)
  | adopt m r parent =>
    obtain ⟨map, x, l, hm, hx, hl, hdb, hok, rfl⟩ := hd
    exact ((h.adopt_steady ho hk hs hm hdb hok).mono fun _ _ _ => trivial).trans
      (stays_setDatabase _ _ _).precedes (steady_of_database (database_impose _ _ _))
      (stays_impose _ _ _).precedes
  | ground => exact steady_of_database (Grounds.database hd)
  | addMap s c i =>
    obtain ⟨l, -, -, -, hdb, hok, rfl⟩ := hd
    exact addMap_steady ho hk hk' hs hdb hok
  | foreign d =>
    obtain ⟨y, rfl⟩ := hd
    refine steady_of_database ?_
    unfold Core.database
    dsimp only
    rw [List.getElem?_set_ne ha]

/-! ## Courses -/

theorem lists_of_rests {d : Deed} (hd : Does d k k') (hrests : d.rests = true)
    (hl : k.Lists m id r) : k'.Lists m id r := by
  cases d with
  | free m r => cases hrests
  | ground => exact (Grounds.grows hd).lists hl
  | addMap s c i =>
    obtain ⟨l, -, -, -, -, -, rfl⟩ := hd
    exact lists_addMap.mpr (hl.of_maps (setDatabase_maps _ _ _))
  | _ => exact (hd.stays rfl).lists hl

/-- Rows stand where they stood, and after them at most one that is new, under
the key of a record. -/
structure Grown (o : Outlook) (r : RecordRef) (k k' : Core) : Prop where
  rows : ∀ {m s es}, o.Types k m s → (k.database o.database).Holds s es →
    (∀ x ∈ es, x.number < Table.maxNumber) → ∃ es', (k'.database o.database).Holds s es' ∧
      (es'.map Shelved.place = es.map Shelved.place ∨
        es.map Shelved.place <+: es'.map Shelved.place ∧
          ∃ id, k'.Lists m id r ∧ shelved? es' id ≠ none)
  tables : o.Leaves k k'

theorem Grown.refl (r : RecordRef) (k : Core) : o.Grown r k k :=
  ⟨fun _ hes _ => ⟨_, hes, .inl rfl⟩, .refl k⟩

variable {k₁ : Core}

theorem Grown.steady (h : o.Grown r k k₁) (hk : k.Precedes k₁)
    (h' : o.Steady touched k₁ k') (hk' : k₁.Precedes k')
    (hl : ∀ {m id}, k₁.Lists m id r → k'.Lists m id r) : o.Grown r k k' := by
  refine ⟨fun ht hes hroom => ?_, h.tables.trans h'.tables hk'⟩
  obtain ⟨es₁, hes₁, hgrown⟩ := h.rows ht hes hroom
  obtain ⟨es₂, hes₂, hplaces, -⟩ := h'.rows (ht.ahead hk) hes₁
  refine ⟨es₂, hes₂, ?_⟩
  rw [hplaces]
  refine hgrown.imp_right fun ⟨hpre, id, hid, hrow⟩ => ⟨hpre, id, hl hid, fun hnone => ?_⟩
  exact hrow ((shelved?_none_of_places hplaces).mp hnone)

/-- Only the first command that writes a record without a row makes one. -/
theorem Grown.saves (h : o.Grown r k k₁) (hk : k.Precedes k₁) (hs : k₁.Sound)
    (h' : o.Saves r k₁ k') (hm : k'.maps = k₁.maps) (hk' : k₁.Precedes k') : o.Grown r k k' := by
  refine ⟨fun {m s es} ht hes hroom => ?_, h.tables.trans h'.tables hk'⟩
  obtain ⟨es₁, hes₁, hgrown⟩ := h.rows ht hes hroom
  obtain ⟨es₂, hes₂, rfl | ⟨id, hl, hsaved⟩⟩ := h'.rows (ht.ahead hk) hes₁
  · exact ⟨_, hes₂, hgrown.imp_right fun ⟨hpre, id, hid, hrow⟩ =>
      ⟨hpre, id, hid.of_maps hm, hrow⟩⟩
  refine ⟨es₂, hes₂, ?_⟩
  obtain hplaces | ⟨hpre, id', hid, hrow⟩ := hgrown
  · cases hsaved with
    | revised hf => exact .inl ((places_revise hf).trans hplaces)
    | @placed e he hnone hlast =>
      have hnumbers : es₁.map (·.number) = es.map (·.number) := by
        rw [← map_place_fst, hplaces, map_place_fst]
      have hroom₁ : ∀ x ∈ es₁, x.number < Table.maxNumber := fun x hx => by
        obtain ⟨y, hy, hxy⟩ := List.mem_map.mp (hnumbers ▸ List.mem_map_of_mem hx)
        exact hxy ▸ hroom y hy
      refine .inr ⟨hplaces ▸ (Saved.placed he hnone hlast).appends hroom₁, id, hl.of_maps hm,
        fun hnone => ?_⟩
      exact shelved?_eq_none.mp hnone e (mem_insertShelved.mpr (.inl rfl)) he
  · obtain ⟨-, rfl⟩ := hs.key_unique hid hl
    have hplaces := hsaved.places hrow
    refine .inr ⟨hplaces.symm ▸ hpre, id', hl.of_maps hm, fun hnone => hrow ?_⟩
    exact (shelved?_none_of_places hplaces).mp hnone

/-- A course of deeds that lets no record go, and whose commands are all on one
record. -/
theorem Faithful.course_grown (h : o.Faithful apart k) (ho : o.Sole) (hs : k.Sound)
    {ds : List Deed} (hd : Course (fun d j => o.Orderly apart d j ∧
      (d.rests = true ∨ ∃ c reply, d = .command r c reply)) ds k k')
    (hk' : k'.Precedes o.last) : o.Grown r k k' := by
  refine (Course.preserves_within (P := fun j => (j.Sound ∧ o.Faithful apart j) ∧
    k.Precedes j ∧ o.Grown r k j) (fun {d j j'} ha hdoes hj hP => ?_) hd hk'
    ⟨⟨hs, h⟩, .refl k, .refl r k⟩).2.2
  obtain ⟨⟨hsj, hf⟩, hkj, hgrown⟩ := hP
  refine ⟨⟨hsj.does hdoes, hf.does ho hsj ha.1 hdoes hj⟩, hkj.trans hdoes.precedes, ?_⟩
  obtain hrests | ⟨c, reply, rfl⟩ := ha.2
  · exact hgrown.steady hkj (hf.does_steady ho hsj ha.1 hdoes hj hrests) hdoes.precedes
      (lists_of_rests hdoes hrests)
  · exact hgrown.saves hkj hsj (hf.commands ho (hdoes.precedes.trans hj) hsj hdoes).2
      (Commands.maps hdoes) hdoes.precedes

end Outlook

end LiveRecords
