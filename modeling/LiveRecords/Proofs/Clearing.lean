import LiveRecords.Proofs.Confining

/-!
# Letting go of rows

Letting go of records changes none of them, and takes exactly the rows of those
whose deletion was staged and went through, one after another.
-/

namespace LiveRecords.Workspace

open LiveRecords.Core

variable {w w₁ : Workspace} {o : Outlook} {apart : RecordRef → Prop} {m : MapRef}
  {map : IdentityMap} {s : Schema} {id : RecordId} {r : RecordRef} {a : Action}
  {es es' : List Shelved} {k k' : Core} {ids ids' : List RecordId} {rs : List RecordRef}

/-! ## Rows that go -/

/-- The key under which a row goes as a record is finished: that of a record
whose deletion is staged, if it goes through. -/
def erasedBy (m : MapRef) (r : RecordRef) (w : Workspace) : List RecordId :=
  (w.records[r]?).elim [] fun i =>
    if i.record.deletePending && (w.finish m r).1.isOk then [i.record.id] else []

/-- The keys under which rows go as records are finished, one after another. -/
def erased (m : MapRef) : List RecordRef → Workspace → List RecordId
  | [], _ => []
  | r :: rs, w => w.erasedBy m r ++ erased m rs (w.finish m r).2

/-- The rows that are left without those under some keys. -/
def cleared (ids : List RecordId) (es : List Shelved) : List Shelved :=
  es.filter fun e => !ids.contains e.image.id

theorem cleared_nil (es : List Shelved) : cleared [] es = es :=
  List.filter_eq_self.mpr fun _ _ => rfl

theorem cleared_singleton (id : RecordId) (es : List Shelved) : cleared [id] es = unshelve es id :=
  List.filter_congr fun e _ => by simp

theorem cleared_append (ids ids' : List RecordId) (es : List Shelved) :
    cleared ids' (cleared ids es) = cleared (ids ++ ids') es := by
  unfold cleared
  rw [List.filter_filter]
  exact List.filter_congr fun e _ => by simp [Bool.and_comm]

/-- The rows of one type under some keys go, and no others. -/
structure Clears (o : Outlook) (m : MapRef) (ids : List RecordId) (k k' : Core) : Prop where
  rows : ∀ {m' s es}, o.Types k m' s → (k.database o.database).Holds s es →
    (k'.database o.database).Holds s (if m' = m then cleared ids es else es)
  tables : o.Leaves k k'

theorem Clears.trans {k₁ : Core} (h : Clears o m ids k k₁) (hk : k.Precedes k₁)
    (h' : Clears o m ids' k₁ k') (hk' : k₁.Precedes k') : Clears o m (ids ++ ids') k k' := by
  refine ⟨fun {m' s es} ht hes => ?_, h.tables.trans h'.tables hk'⟩
  have hrows := h'.rows (ht.ahead hk) (h.rows ht hes)
  by_cases hm : m' = m
  · rw [if_pos hm, if_pos hm, cleared_append] at hrows
    rwa [if_pos hm]
  · rw [if_neg hm, if_neg hm] at hrows
    rwa [if_neg hm]

theorem clears_of_database (h : k'.database o.database = k.database o.database) :
    Clears o m [] k k' := by
  refine ⟨fun {m' s es} _ hes => ?_, fun _ _ => by rw [h]⟩
  rw [cleared_nil, ite_self, h]
  exact hes

/-- Rows of another connection are not looked at. -/
theorem clears_elsewhere (hm : k.maps[m]? = some map) (hc : map.connection ≠ o.connection)
    (h : k'.database o.database = k.database o.database) : Clears o m ids k k' := by
  refine ⟨fun {m' s es} ht hes => ?_, fun _ _ => by rw [h]⟩
  have hne : m' ≠ m := by
    rintro rfl
    obtain ⟨map', hm', hc', -⟩ := ht
    rw [hm] at hm'
    cases hm'
    exact hc hc'
  rw [if_neg hne, h]
  exact hes

/-- A row that goes is the only one that does. -/
theorem clears_of_shelve (ho : o.Sole) (hs : k.Sound) (hk : k.Precedes o.last)
    (ht : o.Types k m s) (hes : (k.database o.database).Holds s es)
    (hdb : k'.database o.database = (k.database o.database).shelve s (unshelve es id))
    (hkk : k.Precedes k') : Clears o m [id] k k' := by
  refine ⟨fun {m' s' es'} ht' hes' => ?_, fun name hname => ?_⟩
  · by_cases hm : m' = m
    · subst hm
      cases ht'.unique ht
      cases hes'.unique (ht.proper hs) hes
      rw [if_pos rfl, cleared_singleton, hdb]
      exact hes.shelve (hes.shelf.unshelve id)
    · rw [if_neg hm, hdb]
      exact hes'.of_ne hes _ (ho.distinct (ht.ahead hk) (ht'.ahead hk) (Ne.symm hm))
  · rw [hdb]
    exact Database.table?_shelve_of_ne hes _ (hname m s (ht.ahead hkk))

/-- Deleting a row takes it if the deletion goes through. -/
theorem clears_deleteRow (ho : o.Sole) (hs : k.Sound) (hf : o.Faithful apart k)
    (hk : k.Precedes o.last) (ht : o.Types k m s) {l : Link}
    (hl : l.database = k.database o.database) (id : RecordId) (hkk : k.Precedes k')
    (hdb : k'.database o.database = (l.deleteRow s id).2.database) :
    Clears o m (if (l.deleteRow s id).1.isOk then [id] else []) k k' := by
  obtain ⟨es, hes⟩ := hf.holds ht
  unfold Link.deleteRow at hdb ⊢
  obtain ⟨e, he, hstay⟩ | ⟨n, d, hn, hex, hd⟩ := l.execute_cases ⟨s, .deleteRow id⟩
  · rw [he]
    exact clears_of_database ((hdb.trans hstay).trans hl)
  · rw [hn]
    rw [hl] at hex
    have hgone := Database.execute_deleteRow hf.plain hes hex
    exact clears_of_shelve ho hs hk ht hes ((hdb.trans hd).trans hgone) hkk

/-- Finishing a record takes its row if its deletion is staged and goes through. -/
theorem clears_finish (ho : o.Sole) (hs : k.Sound) (hf : o.Faithful apart k)
    (hk : k.Precedes o.last) {rs : List RecordRef} (hw : w.core = k.unregister m rs)
    (hm : k.maps[m]? = some map) {i : Instance} (hi : w.records[r]? = some i)
    (hkk : k.Precedes k')
    (hdb : k'.database o.database = (w.finish m r).2.core.database o.database) :
    Clears o m (w.erasedBy m r) k k' := by
  obtain ⟨map', hmw, hlike⟩ := map_unregister hw hm
  obtain ⟨-, l, hld, hcore, hresult⟩ := finish_core hmw hi
  rw [hlike.schema, hlike.connection] at hcore
  rw [hlike.connection, hw] at hld
  rw [hlike.schema] at hresult
  have hsame : (w.core.tell i.hub fun c => (c.forget r).1).database o.database =
      k.database o.database := by
    rw [hw]
    rfl
  unfold erasedBy
  rw [hi, Option.elim_some]
  by_cases hp : i.record.deletePending = true
  · have hok : (w.finish m r).1.isOk = (l.deleteRow map.schema i.record.id).1.isOk := by
      rw [Bool.eq_iff_iff, isOk_iff, isOk_iff, ← hresult hp]
      exact ⟨fun ⟨_, h⟩ => h, fun h => ⟨(), h⟩⟩
    rw [if_pos hp] at hcore
    rw [hp, Bool.true_and, hok]
    by_cases hc : map.connection = o.connection
    · have ht : o.Types k m map.schema := ⟨map, hm, hc, rfl⟩
      obtain ⟨hconn, hlt⟩ := ht.connection ho hs hk
      refine clears_deleteRow ho hs hf hk ht ?_ i.record.id hkk ?_
      · rw [hld, hc]
        exact databaseOf_eq hconn
      · rw [hdb, hcore, hc, hw]
        exact database_setDatabase
          (k := (k.unregister m rs).tell i.hub fun c => (c.forget r).1) hconn hlt _
    · refine clears_elsewhere hm hc ?_
      rw [hdb, hcore, database_setDatabase_of_ne ?_, hsame]
      rw [hw]
      exact ho.elsewhere hk hm hc
  · rw [if_neg hp] at hcore
    rw [Bool.not_eq_true] at hp
    rw [hp, Bool.false_and]
    exact clears_of_database (by rw [hdb, hcore, hsame])

theorem precedes_finishAll {rs : List RecordRef} (hs : k.Sound)
    (hw : w.core = k.unregister m rs) (hn : rs.Nodup) (hl : ∀ r ∈ rs, ∃ id, k.Lists m id r) :
    k.Precedes (w.finishAll m rs).2.core := by
  obtain ⟨ds, hc, -⟩ := finishAll_course (P := fun _ _ => True) hs hw hn hl fun _ _ _ => trivial
  exact Course.precedes hc

/-- Letting go of records changes none, and takes the rows of those whose deletion
is staged and goes through. -/
theorem clears_finishAll (ho : o.Sole) {rs : List RecordRef} (hs : k.Sound)
    (hf : o.Faithful apart k) (hw : w.core = k.unregister m rs) (hn : rs.Nodup)
    (hl : ∀ r ∈ rs, ∃ id, k.Lists m id r)
    (hlast : (w.finishAll m rs).2.core.Precedes o.last) :
    Clears o m (w.erased m rs) k (w.finishAll m rs).2.core ∧
      (w.finishAll m rs).2.core.records = k.records := by
  induction rs generalizing w k with
  | nil =>
    have hcore : (w.finishAll m []).2.core = k := by rw [finishAll, hw, unregister_nil]
    rw [hcore]
    exact ⟨clears_of_database rfl, rfl⟩
  | cons r rs ih =>
    obtain ⟨-, k₁, hdoes, hcore, h, hmaps⟩ := finish_free hs hw (hl r List.mem_cons_self)
    have hl₁ : ∀ r' ∈ rs, ∃ id, k₁.Lists m id r' := by
      intro r' hr'
      obtain ⟨id, hid⟩ := hl r' (List.mem_cons_of_mem _ hr')
      have hne : r' ≠ r := by
        rintro rfl
        exact (List.nodup_cons.mp hn).1 hr'
      exact ⟨id, (lists_dismiss.mpr ⟨hid, fun _ => hne⟩).of_maps hmaps⟩
    have hafter : (w.finishAll m (r :: rs)).2 = ((w.finish m r).2.finishAll m rs).2 := by
      rw [finishAll]
      split <;> next hq => rw [hq]
    rw [hafter] at hlast ⊢
    have hs₁ := hs.does hdoes
    have hn₁ := (List.nodup_cons.mp hn).2
    have hahead := precedes_finishAll hs₁ hcore hn₁ hl₁
    have horderly : o.Orderly apart (.free m r) k := trivial
    have hf₁ := hf.does ho hs horderly hdoes (hahead.trans hlast)
    obtain ⟨hclears, hrecords⟩ := ih hs₁ hf₁ hcore hn₁ hl₁ hlast
    have hkk := hdoes.precedes
    obtain ⟨map, x, l, hm, hx, -, -, hk₁⟩ := hdoes
    have hxw : w.core.records[r]? = some x := hw.symm ▸ hx
    obtain ⟨i, hi, -⟩ := instance_of_core hxw
    have hfirst : Clears o m (w.erasedBy m r) k k₁ :=
      clears_finish ho hs hf (hkk.trans (hahead.trans hlast)) hw hm hi hkk (by rw [hcore]; rfl)
    refine ⟨hfirst.trans hkk hclears hahead, hrecords.trans ?_⟩
    rw [hk₁]
    split
    · exact setDatabase_records _ _ _
    · rfl

/-! ## Actions that let go -/

/-- An action lets records of an identity map go, once the name that held one is
given up. -/
inductive Action.Frees (w : Workspace) : Action → MapRef → List RecordRef → Workspace → Prop
  | release {map record : String} {m : MapRef} {r : RecordRef} :
      w.mapNames.lookup map = some m → w.handle? record = some r →
      Frees w (.release map record) m (if (w.letGo record).isFree m r then [r] else [])
        (w.letGo record)
  | sweep {map : String} {m : MapRef} : w.mapNames.lookup map = some m →
      Frees w (.sweep map) m (w.unheld m) w

theorem unheld_listed (hs : w.core.Sound) :
    (w.unheld m).Nodup ∧ ∀ r ∈ w.unheld m, ∃ id, w.core.Lists m id r := by
  unfold unheld
  cases hm : w.maps[m]? with
  | none => exact ⟨List.nodup_nil, fun _ hr => absurd hr List.not_mem_nil⟩
  | some map =>
    refine ⟨(refs_nodup hs hm).sublist List.filter_sublist, fun r hr => ?_⟩
    obtain ⟨e, he, rfl⟩ := List.mem_map.mp (List.mem_filter.mp hr).1
    exact ⟨e.1, map, hm, he⟩

theorem frees_eq (hs : w.core.Sound) (ha : a.Frees w m rs w₁) : w₁.core = w.core ∧ rs.Nodup ∧
    (∀ r ∈ rs, ∃ id, w.core.Lists m id r) ∧
    (w.perform a).2.core = ((w₁.unregister m rs).finishAll m rs).2.core := by
  cases ha with
  | @release map record m r hm hr =>
    refine ⟨rfl, ?_, fun j hj => ?_, ?_⟩
    · split
      · exact List.pairwise_singleton _ _
      · exact List.nodup_nil
    · split at hj
      · next hfree =>
        cases List.mem_singleton.mp hj
        exact (isFree_iff hfree).1
      · exact absurd hj List.not_mem_nil
    · simp only [perform, withMap, hm, withRecord, hr, snd_answer, Workspace.release]
      split
      · next hfree =>
        simp only [finishAll]
        split <;> next hq => rw [hq]
      · exact (unregister_nil (w.letGo record).core m).symm
  | @sweep map m hm =>
    obtain ⟨hn, hl⟩ := unheld_listed (m := m) hs
    refine ⟨rfl, hn, hl, ?_⟩
    simp only [perform, withMap, hm, snd_answer, Workspace.sweep]
    split <;> next hq => rw [hq]

theorem states_finish (hm : m < w.maps.length) (r : RecordRef) :
    (w.finish m r).2.states = w.states ∧ m < (w.finish m r).2.maps.length := by
  cases hi : w.records[r]? with
  | none =>
    rw [finish, hi]
    exact ⟨rfl, hm⟩
  | some i =>
    obtain ⟨map, hmap⟩ := map_of_lt hm
    obtain ⟨-, l, -, hcore, -⟩ := finish_core hmap hi
    have hrecords : (w.finish m r).2.core.records = w.core.records := by
      rw [hcore]
      split
      · exact setDatabase_records _ _ _
      · rfl
    have hmaps : (w.finish m r).2.core.maps = w.core.maps := by
      rw [hcore]
      split
      · exact setDatabase_maps _ _ _
      · rfl
    exact ⟨by rw [states_eq, hrecords, states_eq], by
      rwa [show (w.finish m r).2.maps = w.maps from hmaps]⟩

/-- Rows go of no record but those that were let go with their deletion staged. -/
theorem mem_erased (hm : m < w.maps.length) (hi : id ∈ w.erased m rs) :
    ∃ r ∈ rs, ∃ x, w.states[r]? = some x ∧ x.id = id ∧ x.deletePending = true := by
  induction rs generalizing w with
  | nil => exact absurd hi List.not_mem_nil
  | cons r rs ih =>
    obtain ⟨hstates, hm₁⟩ := states_finish hm r
    rcases List.mem_append.mp hi with hi | hi
    · unfold erasedBy at hi
      cases hr : w.records[r]? with
      | none =>
        rw [hr] at hi
        exact absurd hi List.not_mem_nil
      | some i =>
        rw [hr, Option.elim_some] at hi
        split at hi
        · next hp =>
          refine ⟨r, List.mem_cons_self, i.record, ?_, (List.mem_singleton.mp hi).symm,
            (Bool.and_eq_true_iff.mp hp).1⟩
          rw [states, List.getElem?_map, hr]
          rfl
        · exact absurd hi List.not_mem_nil
    · obtain ⟨j, hj, x, hx, hrest⟩ := ih hm₁ hi
      exact ⟨j, List.mem_cons_of_mem _ hj, x, hstates ▸ hx, hrest⟩

/-- An action that lets records go takes the rows of no others. -/
theorem mem_erased_of_frees (hs : w.core.Sound) (hf : a.Frees w m rs w₁)
    (hi : id ∈ erased m rs (w₁.unregister m rs)) :
    ∃ r ∈ rs, ∃ x, w.states[r]? = some x ∧ x.id = id ∧ x.deletePending = true := by
  obtain ⟨hcore, -, hl, -⟩ := frees_eq hs hf
  have hsame : (w₁.unregister m rs).states = w.states := by
    show w₁.states = _
    exact states_of_core hcore
  rw [← hsame]
  cases rs with
  | nil => exact absurd hi List.not_mem_nil
  | cons r rs =>
    obtain ⟨_, map, hmap, -⟩ := hl r List.mem_cons_self
    have hmaps : w₁.maps = w.maps := congrArg Core.maps hcore
    refine mem_erased ?_ hi
    show m < (w₁.maps.modify m _).length
    rw [List.length_modify, hmaps]
    exact (List.getElem?_eq_some_iff.mp hmap).1

end LiveRecords.Workspace
