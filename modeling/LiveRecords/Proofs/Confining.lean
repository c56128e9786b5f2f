import LiveRecords.Proofs.Placing
import LiveRecords.Proofs.Tending

/-!
# One record and its row

The rows of the type of an identity map and the states of the records in memory,
as a workspace has them, and what a command on one record leaves of them: all but
that record and its row. A parent that is given goes into one row and one record.
-/

namespace LiveRecords.Workspace

open LiveRecords.Core

/-- The rows of the type of an identity map, in the order of their numbers. -/
def rows (w : Workspace) (m : MapRef) : List Shelved :=
  (w.maps[m]?).elim [] fun map => (w.databaseOf map.connection).listing map.schema

/-- The states of all records in memory, by position. -/
def states (w : Workspace) : List Record := w.records.map (·.record)

variable {w w' : Workspace} {o : Outlook} {apart apart' : RecordRef → Prop} {m : MapRef}
  {map : IdentityMap} {s : Schema} {id : RecordId} {r : RecordRef} {c : ConnectionRef}
  {d : DatabaseRef} {a : Action} {es es' : List Shelved} {parent : Option RecordId}

theorem rows_of_core (h : w'.core = w.core) : w'.rows m = w.rows m := by
  have hmaps : w'.maps = w.maps := congrArg Core.maps h
  have hdb : ∀ c, w'.databaseOf c = w.databaseOf c := fun c => by
    rw [← core_databaseOf, h, core_databaseOf]
  unfold rows
  rw [hmaps]
  cases w.maps[m]? with
  | none => rfl
  | some map => rw [Option.elim_some, Option.elim_some, hdb]

theorem states_eq (w : Workspace) : w.states = w.core.records.map (·.record) := by
  show _ = (w.records.map Instance.resident).map _
  rw [List.map_map]
  rfl

theorem states_of_core (h : w'.core = w.core) : w'.states = w.states := by
  rw [states_eq, h, states_eq]

/-! ## What a tended workspace holds -/

namespace Tended

theorem types (_ : Tended o apart w) (hm : w.maps[m]? = some map)
    (hc : map.connection = o.connection) : o.Types w.core m map.schema :=
  ⟨map, hm, hc, rfl⟩

theorem rows_of_holds (h : Tended o apart w) (ht : o.Types w.core m s)
    (hes : (w.core.database o.database).Holds s es) : w.rows m = es := by
  have hdb := h.databaseOf ht
  have hproper := ht.proper h.sound
  obtain ⟨map, hm, hc, rfl⟩ := ht
  unfold rows
  rw [show w.maps[m]? = some map from hm, Option.elim_some, hc, hdb]
  exact hes.listing hproper

theorem holds_rows (h : Tended o apart w) (ht : o.Types w.core m s) :
    (w.core.database o.database).Holds s (w.rows m) := by
  obtain ⟨es, hes⟩ := h.faithful.holds ht
  rw [h.rows_of_holds ht hes]
  exact hes

end Tended

/-! ## One record and its row -/

/-- No record but one changes, and no row but its own. -/
structure Confined (c : ConnectionRef) (r : RecordRef) (w w' : Workspace) : Prop where
  records : ∀ j, j ≠ r → w'.states[j]? = w.states[j]?
  rows : ∀ {m map id}, w.maps[m]? = some map → map.connection = c → w.registered? m id ≠ some r →
    shelved? (w'.rows m) id = shelved? (w.rows m) id

theorem confined_of_core (h : w'.core = w.core) : Confined c r w w' :=
  ⟨fun _ _ => by rw [states_of_core h], fun _ _ _ => by rw [rows_of_core h]⟩

theorem states_of_records {j : RecordRef} (h : w'.core.records[j]? = w.core.records[j]?) :
    w'.states[j]? = w.states[j]? := by
  rw [states_eq, states_eq, List.getElem?_map, List.getElem?_map, h]

/-- Commands on a record change it and its row. -/
theorem Tended.confined (h : Tended o apart w) (h' : Tended o apart' w')
    {cs : List (Record.Command × Except StoreError Record.Reply)}
    (hasked : Asked r cs w.core w'.core) : Confined o.connection r w w' := by
  refine ⟨fun j hj => states_of_records (hasked.records_of_ne hj), fun {m map id} hm hc hid => ?_⟩
  have ht := h.types hm hc
  obtain ⟨-, hsaves⟩ := h.faithful.asked h.sole h.ahead h.sound hasked
  obtain ⟨es', hes', hrows⟩ := hsaves.others ht (h.holds_rows ht)
  have ht' : o.Types w'.core m map.schema := ht.ahead hasked.stays.precedes
  rw [h'.rows_of_holds ht' hes']
  exact hrows id fun hl => hid (registered_of_lists h.sound hl)

theorem Tended.confined_run (h : Tended o apart w) (hl : w.core.Listed r) (e : Record.Command)
    (h' : Tended o apart' (w.run r e).2) : Confined o.connection r w (w.run r e).2 := by
  obtain ⟨i, hi⟩ := instance_of_listed h.sound hl
  obtain ⟨cs, hasked, -, -⟩ := run_asked hi hl e
  exact h.confined h' hasked

/-! ## Parents -/

/-- An action gives a record of an identity map a parent, or none. -/
inductive Action.Reparents (w : Workspace) : Action → MapRef → RecordRef → Option RecordId → Prop
  | add {map parent child : String} {m : MapRef} {p r : RecordRef} :
      w.mapNames.lookup map = some m → w.handle? parent = some p → w.handle? child = some r →
      Reparents w (.addChild map parent child) m r (w.keyOf p)
  | remove {map child : String} {m : MapRef} {r : RecordRef} :
      w.mapNames.lookup map = some m → w.handle? child = some r →
      Reparents w (.removeChild map child) m r none

/-- The parent of a record, in memory and in its row, is all that changes. -/
structure Reparented (m : MapRef) (r : RecordRef) (id : RecordId) (parent : Option RecordId)
    (w w' : Workspace) : Prop where
  row : w'.rows m = revise (w.rows m) id fun x => { x with parent }
  state : w'.states[r]? = (w.states[r]?).map fun x => { x with parent }

/-- An action that gives a parent sets it or fails at once. -/
theorem reparents_cases (ha : a.Reparents w m r parent) :
    (∃ e, (w.perform a).1 = .error e ∧ (w.perform a).2 = w) ∨
      w.perform a = answer (fun _ => Reply.done) (w.setParent m r parent) := by
  cases ha with
  | add hm hp hr =>
    simp only [perform, withMap, hm, withRecord, hp, hr]
    split
    · exact .inl ⟨_, rfl, rfl⟩
    · exact .inr rfl
  | remove hm hr =>
    simp only [perform, withMap, hm, withRecord, hr]
    split
    · exact .inl ⟨_, rfl, rfl⟩
    · exact .inr rfl

theorem fst_answer {α : Type} {reply : α → Reply} {x : Except StoreError α × Workspace} :
    (∀ y, (answer reply x).1 = .ok y → ∃ v, x.1 = .ok v) ∧
      ∀ e, (answer reply x).1 = .error e → ∃ e', x.1 = .error e' := by
  obtain ⟨_ | v, w⟩ := x
  · exact ⟨(fun _ h => by cases h), fun _ _ => ⟨_, rfl⟩⟩
  · exact ⟨fun _ _ => ⟨v, rfl⟩, (fun _ h => by cases h)⟩

theorem Tended.id_of_lists (h : Tended o apart w) {i : Instance} (hi : w.records[r]? = some i)
    (hl : w.core.Lists m id r) : i.record.id = id := by
  obtain ⟨map, hm, hmem⟩ := hl
  obtain ⟨x, hx, hof⟩ := h.sound.kept hm hmem
  rw [core_records_of_some hi] at hx
  cases hx
  exact hof.id

/-- A parent that goes into a record and its row, before anyone answers. -/
theorem Tended.adopted (h : Tended o apart w) (hm : w.maps[m]? = some map)
    {i : Instance} (hi : w.records[r]? = some i) (hl : w.core.Lists m id r) {l : Link}
    (hdb : l.database = w.core.databaseOf map.connection)
    (hok : (l.updateParent map.schema i.record.id parent).1 = .ok ()) {k : Core}
    (hk : k = (w.core.setDatabase map.connection
      (l.updateParent map.schema i.record.id parent).2.database).impose r
        (i.record.setParent parent)) (hlast : k.Precedes o.last) :
    k.Sound ∧ o.Faithful apart k ∧ o.Steady (fun m' id' => m' = m ∧ id' = id) w.core k ∧
      k.maps = w.core.maps := by
  have hid := h.id_of_lists hi hl
  have hdoes : Does (.adopt m r parent) w.core k :=
    ⟨map, i.resident, l, hm, core_records_of_some hi, ⟨m, id, hl⟩, hdb, hok, hk⟩
  have horderly : o.Orderly apart (.adopt m r parent) w.core := fun _ _ _ _ _ _ => ⟨id, hl⟩
  refine ⟨h.sound.does hdoes, h.faithful.does h.sole h.sound horderly hdoes hlast, ?_, ?_⟩
  · subst hk hid
    exact (h.faithful.adopt_steady h.sole h.ahead h.sound hm hdb hok).trans
      (stays_setDatabase _ _ _).precedes (Outlook.steady_of_database (database_impose _ _ _))
      (stays_impose _ _ _).precedes
  · rw [hk, impose_maps, setDatabase_maps]

/-- Where nobody answers, the parent is all that changes. -/
theorem Tended.reparented (h : Tended o apart w) (h' : Tended o apart' w')
    (hm : w.maps[m]? = some map) (hc : map.connection = o.connection) {i : Instance}
    (hi : w.records[r]? = some i) (hl : w.core.Lists m id r) {l : Link}
    (hdb : l.database = w.core.databaseOf map.connection)
    (hok : (l.updateParent map.schema i.record.id parent).1 = .ok ())
    (hcore : w'.core = (w.core.setDatabase map.connection
      (l.updateParent map.schema i.record.id parent).2.database).impose r
        (i.record.setParent parent)) : Reparented m r id parent w w' := by
  have ht := h.types hm hc
  have ht' : o.Types w'.core m map.schema := by
    refine Outlook.types_of_maps ?_ ht
    rw [hcore, impose_maps, setDatabase_maps]
  have hid := h.id_of_lists hi hl
  subst hid
  constructor
  · rw [hc] at hdb hcore
    have hd := h.faithful.adopt_edits h.sole h.ahead h.sound ht hdb hok (h.holds_rows ht)
    refine h'.rows_of_holds ht' ?_
    rw [hcore, database_impose]
    exact hd.holds (h.holds_rows ht)
  · have hx : (w.core.setDatabase map.connection
        (l.updateParent map.schema i.record.id parent).2.database).records[r]? =
          some i.resident := by
      rw [setDatabase_records, core_records_of_some hi]
    rw [states_eq, states_eq, List.getElem?_map, List.getElem?_map, hcore, records_impose_self hx,
      core_records_of_some hi, Record.record_setParent]
    rfl

theorem Tended.reparents (h : Tended o apart w) (h' : Tended o apart' (w.perform a).2)
    (ha : a.Reparents w m r parent) (hm : w.maps[m]? = some map)
    (hc : map.connection = o.connection) (hid : w.registered? m id = some r) :
    Confined o.connection r w (w.perform a).2 ∧
      (∀ e, (w.perform a).1 = .error e → (w.perform a).2.core = w.core) ∧
      (∀ reply, (w.perform a).1 = .ok reply → w.armed r = 0 →
        Reparented m r id parent w (w.perform a).2) := by
  have hl := lists_of_registered hid
  obtain ⟨i, hi⟩ := instance_of_listed h.sound ⟨m, id, hl⟩
  obtain ⟨e, he, hsame⟩ | hset := reparents_cases ha
  · refine ⟨confined_of_core (by rw [hsame]), fun _ _ => by rw [hsame], fun reply hok => ?_⟩
    rw [he] at hok
    cases hok
  have hafter : (w.perform a).2 = (w.setParent m r parent).2 := by rw [hset, snd_answer]
  obtain ⟨e, he, hstill⟩ | ⟨hok, l, cs, hdb, hupdate, hasked, -, hans⟩ :=
    setParent_cases hm hi ⟨m, id, hl⟩ parent
  · rw [hafter]
    refine ⟨confined_of_core hstill.1, fun _ _ => hstill.1, fun reply hreply => ?_⟩
    obtain ⟨v, hv⟩ := fst_answer.1 _ (hset ▸ hreply)
    rw [he] at hv
    cases hv
  rw [← hafter] at hasked
  have hlast := hasked.stays.precedes.trans h'.ahead
  obtain ⟨hs₁, hf₁, hsteady, hmaps⟩ := h.adopted hm hi hl hdb hupdate rfl hlast
  refine ⟨⟨fun j hj => states_of_records ?_, fun {m' map' id'} hm' hc' hid' => ?_⟩,
    fun e he => ?_, fun reply _ harmed => ?_⟩
  · rw [hasked.records_of_ne hj, records_impose_of_ne _ hj, setDatabase_records]
  · have ht := h.types hm' hc'
    obtain ⟨es₁, hes₁, -, hrows⟩ := hsteady.rows ht (h.holds_rows ht)
    have ht₁ := Outlook.types_of_maps hmaps.symm ht
    obtain ⟨-, hsaves⟩ := hf₁.asked h.sole hlast hs₁ hasked
    obtain ⟨es₂, hes₂, hrows'⟩ := hsaves.others ht₁ hes₁
    rw [h'.rows_of_holds (ht₁.ahead hasked.stays.precedes) hes₂, hrows' id' fun hl' => hid' ?_]
    · refine hrows id' fun ⟨hmm, hii⟩ => hid' ?_
      rw [hmm, hii, hid]
    · exact registered_of_lists h.sound (hl'.of_maps hmaps.symm)
  · obtain ⟨e', he'⟩ := fst_answer.2 _ (hset ▸ he)
    rw [hok] at he'
    cases he'
  · have hcs : cs = [] := by
      by_cases hcs : cs = []
      · exact hcs
      · exact absurd (hans hcs) (by rw [harmed]; exact Nat.lt_irrefl 0)
    subst hcs
    exact h.reparented h' hm hc hi hl hdb hupdate hasked.eq_of_nil

end LiveRecords.Workspace
