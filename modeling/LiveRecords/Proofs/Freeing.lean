import LiveRecords.Proofs.Clearing
import LiveRecords.Proofs.Custody

/-!
# What is freed

Whether a record is freed depends only on who else holds it. Freeing drops the entries of
the records that are freed and of no others, and tries each deletion that was staged once,
whatever became of the ones before; no other statement runs. So the outcome of a sweep is
that of its deletions run one after another, in whatever order records are gone through.
-/

namespace LiveRecords

/-! ## Deletions -/

/-- The statements that were tried, in order. -/
def asked (log : List Diagnostic) : List Statement :=
  log.filterMap fun
    | .statement s => some s
    | _ => none

theorem asked_append (log log' : List Diagnostic) : asked (log ++ log') = asked log ++ asked log' :=
  List.filterMap_append

namespace Link

/-- Links that differ in what was reported at most. -/
structure Alike (l l' : Link) : Prop where
  database : l.database = l'.database
  stats : l.stats = l'.stats
  outage : l.outage = l'.outage

theorem Alike.refl (l : Link) : Alike l l := ⟨rfl, rfl, rfl⟩

theorem Alike.trans {l₁ l₂ l₃ : Link} (h : Alike l₁ l₂) (h' : Alike l₂ l₃) : Alike l₁ l₃ :=
  ⟨h.database.trans h'.database, h.stats.trans h'.stats, h.outage.trans h'.outage⟩

variable {l l' : Link} {s : Schema} {id : RecordId}

theorem asked_deleteRow (l : Link) (s : Schema) (id : RecordId) :
    asked (l.deleteRow s id).2.log = asked l.log ++ [⟨s, .deleteRow id⟩] := by
  unfold deleteRow execute
  dsimp only
  split
  · simp [refuse, report, asked]
  · split <;> simp [refuse, report, asked]

theorem outage_deleteRow (l : Link) (s : Schema) (id : RecordId) :
    (l.deleteRow s id).2.outage = l.outage := by
  unfold deleteRow execute
  dsimp only
  split
  · rfl
  · split <;> rfl

/-- What a deletion comes to does not depend on what was reported. -/
theorem Alike.deleteRow (h : Alike l l') (s : Schema) (id : RecordId) :
    (l.deleteRow s id).1 = (l'.deleteRow s id).1 ∧
      Alike (l.deleteRow s id).2 (l'.deleteRow s id).2 := by
  obtain ⟨hd, hs, ho⟩ := h
  unfold Link.deleteRow execute
  rw [ho, hs, hd]
  dsimp only
  split
  · exact ⟨rfl, by simp [refuse, report, hd, hs, ho], by simp [refuse, report, hs],
      by simp [refuse, report, ho]⟩
  · split
    · exact ⟨rfl, by simp [refuse, report, hd], by simp [refuse, report, hs],
        by simp [refuse, report, ho]⟩
    · exact ⟨rfl, rfl, rfl, ho⟩

/-- Rows are deleted one after another, whatever becomes of those before; the errors. -/
def deleteRows (s : Schema) : List RecordId → Link → List StoreError × Link
  | [], l => ([], l)
  | id :: ids, l =>
    match l.deleteRow s id with
    | (.ok _, l) => deleteRows s ids l
    | (.error e, l) => (e :: (deleteRows s ids l).1, (deleteRows s ids l).2)

theorem deleteRows_append (s : Schema) (ids ids' : List RecordId) (l : Link) :
    (deleteRows s (ids ++ ids') l).1 =
        (deleteRows s ids l).1 ++ (deleteRows s ids' (deleteRows s ids l).2).1 ∧
      (deleteRows s (ids ++ ids') l).2 = (deleteRows s ids' (deleteRows s ids l).2).2 := by
  induction ids generalizing l with
  | nil => exact ⟨rfl, rfl⟩
  | cons id ids ih =>
    rw [List.cons_append, deleteRows, deleteRows]
    split
    · exact ih _
    · exact ⟨by rw [(ih _).1, List.cons_append], (ih _).2⟩

theorem Alike.deleteRows (h : Alike l l') (s : Schema) (ids : List RecordId) :
    (Link.deleteRows s ids l).1 = (Link.deleteRows s ids l').1 ∧
      Alike (Link.deleteRows s ids l).2 (Link.deleteRows s ids l').2 := by
  induction ids generalizing l l' with
  | nil => exact ⟨rfl, h⟩
  | cons id ids ih =>
    obtain ⟨hresult, halike⟩ := h.deleteRow s id
    obtain ⟨hrest, hafter⟩ := ih halike
    rw [Link.deleteRows, Link.deleteRows]
    cases hq : l.deleteRow s id with
    | mk result l₁ =>
      cases hq' : l'.deleteRow s id with
      | mk result' l₁' =>
        rw [hq, hq'] at hresult halike hrest hafter
        cases hresult
        cases result with
        | ok n => exact ⟨hrest, hafter⟩
        | error e => exact ⟨congrArg (e :: ·) hrest, hafter⟩

end Link

namespace Workspace

open LiveRecords.Core

variable {w w' w₁ : Workspace} {m : MapRef} {map : IdentityMap} {r : RecordRef} {i : Instance}
  {rs : List RecordRef} {errors : List StoreError}

/-! ## Finishing one record -/

/-- Something was heard, and nothing else happened. -/
def OnlyHeard (w w' : Workspace) : Prop := ∃ told, w' = { w with heard := told }

theorem OnlyHeard.refl (w : Workspace) : OnlyHeard w w := ⟨w.heard, rfl⟩

theorem OnlyHeard.trans (h : OnlyHeard w w₁) (h' : OnlyHeard w₁ w') : OnlyHeard w w' := by
  obtain ⟨told, rfl⟩ := h
  obtain ⟨told', rfl⟩ := h'
  exact ⟨told', rfl⟩

theorem onlyHeard_announce (h : HubRef) (e : CoordinatorEvent) (w : Workspace) :
    OnlyHeard w (announce h e w) := by
  unfold announce
  split
  · exact .refl w
  · exact foldl_related .refl .trans _ (fun w l => ⟨_, rfl⟩) _ w

theorem onlyHeard_tell (w : Workspace) (h : HubRef)
    (act : Coordinator → Coordinator × List CoordinatorEvent) :
    OnlyHeard (w.setCoordinator h (act (w.coordinatorOf h)).1) (w.tell h act) :=
  foldl_related .refl .trans _ (fun w e => onlyHeard_announce h e w) _ _

/-- Entries of some records go from the coordinator of an identity map, rows under some
keys are deleted one after another, and nothing else happens. -/
structure Finishes (w w' : Workspace) (map : IdentityMap) (gone : List RecordRef)
    (ids : List RecordId) (errors : List StoreError) : Prop where
  maps : w'.maps = w.maps
  records : w'.records = w.records
  connections : w'.core.connections = w.core.connections
  databases : w'.databases.length = w.databases.length
  untouched : ∀ d, w.core.connections[map.connection]? ≠ some d → w'.databases[d]? = w.databases[d]?
  coordinators : ∀ h, h ≠ map.hub → w'.coordinatorOf h = w.coordinatorOf h
  entries : ∀ t, (w'.coordinatorOf map.hub).entries t =
    ((w.coordinatorOf map.hub).entries t).filter fun r => !gone.contains r
  asked : asked w'.log = asked w.log ++ ids.map fun id => ⟨map.schema, .deleteRow id⟩
  errors : errors = (Link.deleteRows map.schema ids (w.link map.connection)).1
  link : Link.Alike (w'.link map.connection)
    (Link.deleteRows map.schema ids (w.link map.connection)).2

theorem Finishes.refl (w : Workspace) (map : IdentityMap) : Finishes w w map [] [] [] where
  maps := rfl
  records := rfl
  connections := rfl
  databases := rfl
  untouched _ _ := rfl
  coordinators _ _ := rfl
  entries _ := (List.filter_eq_self.mpr fun _ _ => rfl).symm
  asked := (List.append_nil _).symm
  errors := rfl
  link := .refl _

variable {gone gone' : List RecordRef} {ids ids' : List RecordId} {errors' : List StoreError}

theorem Finishes.trans (h : Finishes w w₁ map gone ids errors)
    (h' : Finishes w₁ w' map gone' ids' errors') :
    Finishes w w' map (gone ++ gone') (ids ++ ids') (errors ++ errors') := by
  obtain ⟨hfirst, hlast⟩ := Link.deleteRows_append map.schema ids ids' (w.link map.connection)
  obtain ⟨herrors, hlink⟩ := h.link.deleteRows map.schema ids'
  refine ⟨h'.maps.trans h.maps, h'.records.trans h.records, h'.connections.trans h.connections,
    h'.databases.trans h.databases, fun d hd => ?_, fun j hj => ?_, fun t => ?_, ?_, ?_, ?_⟩
  · rw [h'.untouched d (h.connections ▸ hd), h.untouched d hd]
  · rw [h'.coordinators j hj, h.coordinators j hj]
  · rw [h'.entries, h.entries, List.filter_filter]
    exact List.filter_congr fun r _ => by simp [Bool.and_comm]
  · rw [h'.asked, h.asked, List.map_append, List.append_assoc]
  · rw [hfirst, h'.errors, herrors, h.errors]
  · rw [hlast]
    exact h'.link.trans hlink

/-- It makes no difference what is registered in the identity map. -/
theorem Finishes.alike {map' : IdentityMap} (h : Finishes w w' map' gone ids errors)
    (ha : map'.Alike map) : Finishes w w' map gone ids errors := by
  obtain ⟨hschema, hconnection, hhub⟩ := ha
  refine ⟨h.maps, h.records, h.connections, h.databases, ?_, ?_, ?_, ?_, ?_, ?_⟩
  · exact hconnection ▸ h.untouched
  · exact hhub ▸ h.coordinators
  · exact hhub ▸ h.entries
  · exact hschema ▸ h.asked
  · exact hconnection ▸ hschema ▸ h.errors
  · exact hconnection ▸ hschema ▸ h.link

theorem coordinatorOf_setCoordinator_of_ne (w : Workspace) {h j : HubRef} (hj : j ≠ h)
    (c : Coordinator) : (w.setCoordinator h c).coordinatorOf j = w.coordinatorOf j := by
  simp [coordinatorOf, setCoordinator, setHub, Ne.symm hj]

theorem entries_setCoordinator_forget (w : Workspace) (h : HubRef) (r : RecordRef) (t : Track) :
    ((w.setCoordinator h ((w.coordinatorOf h).forget r).1).coordinatorOf h).entries t =
      ((w.coordinatorOf h).entries t).filter (· != r) := by
  rw [← Coordinator.entries_forget]
  unfold coordinatorOf setCoordinator setHub
  rw [List.getElem?_modify_eq]
  cases w.hubs[h]? with
  | none => cases t <;> rfl
  | some hub => rfl

/-- A coordinator forgets a record. -/
theorem finishes_forget (w : Workspace) (map : IdentityMap) (r : RecordRef) :
    Finishes w (w.tell map.hub fun c => c.forget r) map [r] [] [] := by
  obtain ⟨told, htold⟩ := onlyHeard_tell w map.hub fun c => c.forget r
  rw [htold]
  refine ⟨rfl, rfl, rfl, rfl, fun _ _ => rfl, fun h hh => ?_, fun t => ?_,
    (List.append_nil _).symm, rfl, ⟨rfl, rfl, rfl⟩⟩
  · exact coordinatorOf_setCoordinator_of_ne w hh _
  · refine (entries_setCoordinator_forget w map.hub r t).trans
      (List.filter_congr fun j _ => ?_)
    rw [List.contains_cons, List.contains_nil, Bool.or_false]
    rfl

theorem finishes_report (w : Workspace) (map : IdentityMap) {d : Diagnostic} (hd : asked [d] = []) :
    Finishes w (w.report d) map [] [] [] :=
  ⟨rfl, rfl, rfl, rfl, fun _ _ => rfl, fun _ _ => rfl,
    fun _ => (List.filter_eq_self.mpr fun _ _ => rfl).symm,
    (asked_append _ _).trans (by rw [hd]; rfl), rfl, ⟨rfl, rfl, rfl⟩⟩

/-- A connection leads to a database. -/
def Connected (w : Workspace) (c : ConnectionRef) : Prop :=
  ∃ d, w.core.connections[c]? = some d ∧ d < w.databases.length

theorem Finishes.connected (h : Finishes w w' map gone ids errors) {c : ConnectionRef}
    (hc : w.Connected c) : w'.Connected c := by
  obtain ⟨d, hd, hlt⟩ := hc
  exact ⟨d, h.connections ▸ hd, h.databases ▸ hlt⟩

/-- A deletion is tried. -/
theorem finishes_delete (hc : w.Connected map.connection) (id : RecordId) :
    Finishes w (w.setLink map.connection
        ((w.link map.connection).deleteRow map.schema id).2) map [] [id]
      (Link.deleteRows map.schema [id] (w.link map.connection)).1 := by
  have hasked := Link.asked_deleteRow (w.link map.connection) map.schema id
  have houtage := Link.outage_deleteRow (w.link map.connection) map.schema id
  have hlast : (Link.deleteRows map.schema [id] (w.link map.connection)).2 =
      ((w.link map.connection).deleteRow map.schema id).2 := by
    rw [Link.deleteRows]
    split <;> next hq => rw [hq, Link.deleteRows]
  generalize ((w.link map.connection).deleteRow map.schema id).2 = l at *
  have hconnections := congrArg Core.connections (core_setLink w map.connection l).1
  obtain ⟨d, hd, hlt⟩ := hc
  rw [core_connections, Option.map_eq_some_iff] at hd
  obtain ⟨k, hk, rfl⟩ := hd
  have hin : map.connection < w.connections.length := (List.getElem?_eq_some_iff.mp hk).1
  have hset : w.setLink map.connection l = { w with
      databases := w.databases.set k.database l.database
      connections := w.connections.set map.connection { k with stats := l.stats }
      log := l.log } := by
    rw [setLink, hk]
  rw [hset] at hconnections ⊢
  refine ⟨rfl, rfl, hconnections.trans (setDatabase_connections _ _ _), List.length_set,
    fun d hd => ?_, fun _ _ => rfl, fun _ => (List.filter_eq_self.mpr fun _ _ => rfl).symm,
    hasked, rfl, ?_⟩
  · have hne : k.database ≠ d := by
      rintro rfl
      exact hd (by rw [core_connections, hk]; rfl)
    exact List.getElem?_set_ne hne
  · rw [hlast]
    refine ⟨?_, ?_, houtage.symm⟩
    · simp [link, databaseOf, hin, hlt]
    · simp [link, statsOf, hin]

/-! ## Finishing several records -/

/-- The keys of those records whose deletion is staged. -/
def staged (w : Workspace) (rs : List RecordRef) : List RecordId :=
  rs.filterMap fun r => (w.records[r]?).bind fun i =>
    if i.record.deletePending then some i.record.id else none

theorem staged_append (w : Workspace) (rs rs' : List RecordRef) :
    w.staged (rs ++ rs') = w.staged rs ++ w.staged rs' :=
  List.filterMap_append

theorem staged_congr (h : w'.records = w.records) (rs : List RecordRef) :
    w'.staged rs = w.staged rs := by
  unfold staged
  rw [h]

/-- A record that left its identity map is finished. -/
theorem finishes_finish (hc : w.Connected map.connection) (hm : w.maps[m]? = some map)
    (hr : w.records[r]? = some i) (hhub : i.hub = map.hub) :
    ∃ errors, Finishes w (w.finish m r).2 map [r] (w.staged [r]) errors ∧
      (w.finish m r).1 = match errors with
        | [] => .ok ()
        | e :: _ => .error e := by
  have hforget := (finishes_forget w map r).trans (finishes_report _ map
    (d := .recordReleased i.record.table i.record.id) rfl)
  unfold finish
  rw [hr]
  dsimp only
  rw [hhub]
  generalize hw₁ : (w.tell map.hub fun c => c.forget r).report
    (.recordReleased i.record.table i.record.id) = w₁ at hforget ⊢
  by_cases hp : i.record.deletePending = true
  · have hstaged : w.staged [r] = [i.record.id] := by simp [staged, hr, hp]
    have hdelete := hforget.trans (finishes_delete (hforget.connected hc) i.record.id)
    rw [if_pos hp, onTable_of_some (hforget.maps ▸ hm), hstaged]
    unfold through
    dsimp only
    rw [Link.deleteRows] at hdelete
    cases hq : (w₁.link map.connection).deleteRow map.schema i.record.id with
    | mk result l =>
      rw [hq] at hdelete
      cases result with
      | error e => exact ⟨[e], hdelete, rfl⟩
      | ok n =>
        exact ⟨[], hdelete.trans (finishes_report _ map
          (d := .recordDeleted i.record.table i.record.id) rfl), rfl⟩
  · have hstaged : w.staged [r] = [] := by simp [staged, hr, hp]
    rw [if_neg hp, hstaged]
    exact ⟨[], hforget, rfl⟩

/-- Records that left their identity map are finished one after another, whatever becomes
of their deletions; the first error counts. -/
theorem finishes_finishAll (hc : w.Connected map.connection) (hm : w.maps[m]? = some map)
    (hr : ∀ r ∈ rs, ∃ i, w.records[r]? = some i ∧ i.hub = map.hub) :
    ∃ errors, Finishes w (w.finishAll m rs).2 map rs (w.staged rs) errors ∧
      (w.finishAll m rs).1 = errors.head? := by
  induction rs generalizing w with
  | nil => exact ⟨[], .refl w map, rfl⟩
  | cons r rs ih =>
    obtain ⟨i, hi, hhub⟩ := hr r (by simp)
    obtain ⟨errors, hfirst, hresult⟩ := finishes_finish hc hm hi hhub
    obtain ⟨errors', hrest, hhead⟩ := ih (hfirst.connected hc) (hfirst.maps ▸ hm) fun j hj =>
      hfirst.records ▸ hr j (List.mem_cons_of_mem _ hj)
    have hall := hfirst.trans hrest
    rw [staged_congr hfirst.records, ← staged_append] at hall
    refine ⟨errors ++ errors', ?_, ?_⟩
    · rw [finishAll]
      split <;> next hq => rw [hq] at hall; exact hall
    · rw [finishAll]
      split
      · next hq =>
        rw [hq] at hresult hhead
        cases errors with
        | nil => exact hhead
        | cons e es => cases hresult
      · next hq =>
        rw [hq] at hresult
        cases errors with
        | nil => cases hresult
        | cons e' es =>
          cases hresult
          rfl

/-! ## Freeing -/

/-- Some records of an identity map leave it: no other leaves, their entries go and the
others stay in order, and for each whose deletion is staged one deletion is tried, whatever
became of those before. -/
structure Frees (w w' : Workspace) (m : MapRef) (rs : List RecordRef) (errors : List StoreError) :
    Prop where
  registered : ∀ {m' : MapRef} {id r},
    w'.registered? m' id = some r ↔ w.registered? m' id = some r ∧ (m' = m → r ∉ rs)
  records : w'.records = w.records
  entries : ∀ h t, (w'.coordinatorOf h).entries t =
    ((w.coordinatorOf h).entries t).filter fun r => !rs.contains r
  asked : ∀ {map}, w.maps[m]? = some map →
    asked w'.log = asked w.log ++ (w.staged rs).map fun id => ⟨map.schema, .deleteRow id⟩
  errors : ∀ {map}, w.maps[m]? = some map →
    errors = (Link.deleteRows map.schema (w.staged rs) (w.link map.connection)).1
  link : ∀ {map}, w.maps[m]? = some map → Link.Alike (w'.link map.connection)
    (Link.deleteRows map.schema (w.staged rs) (w.link map.connection)).2
  untouched : ∀ {map}, w.maps[m]? = some map → ∀ d,
    w.core.connections[map.connection]? ≠ some d → w'.databases[d]? = w.databases[d]?

theorem registered?_unregister (hs : w.core.Sound) {m' : MapRef} {id : RecordId} :
    (w.unregister m rs).registered? m' id = some r ↔
      w.registered? m' id = some r ∧ (m' = m → r ∉ rs) := by
  constructor
  · intro h
    have hl : (w.core.unregister m rs).Lists m' id r := lists_of_registered h
    obtain ⟨hl, hn⟩ := lists_unregister.mp hl
    exact ⟨registered_of_lists hs hl, hn⟩
  · rintro ⟨h, hn⟩
    obtain ⟨map, hm, hmem⟩ := lists_unregister.mpr ⟨lists_of_registered h, hn⟩
    refine Option.bind_eq_some_iff.mpr ⟨map, hm, lookup_of_mem ?_ hmem⟩
    obtain ⟨old, hold, rfl⟩ := maps_setMap hm
    split
    · exact (hs.keys hold).sublist (List.filter_sublist.map _)
    · exact hs.keys hold

theorem Finishes.frees (h : Finishes (w.unregister m rs) w' map rs (w.staged rs) errors)
    (hs : w.core.Sound) (hm : w.maps[m]? = some map) (hl : ∀ r ∈ rs, ∃ id, w.core.Lists m id r) :
    Frees w w' m rs errors := by
  have hregistered : ∀ m' id, w'.registered? m' id = (w.unregister m rs).registered? m' id :=
    fun m' id => by rw [registered?, registered?, h.maps]
  refine ⟨?_, h.records, fun j t => ?_, ?_, ?_, ?_, ?_⟩
  · intro m' id r
    rw [hregistered, registered?_unregister hs]
  · by_cases hj : j = map.hub
    · rw [hj, h.entries]
      rfl
    · -- The records that leave have no entries with other coordinators.
      rw [h.coordinators j hj]
      refine (List.filter_eq_self.mpr fun r hr => ?_).symm
      rw [Bool.not_eq_true', ← Bool.not_eq_true, List.contains_iff_mem]
      intro hmem
      obtain ⟨id, map', hm', hin⟩ := hl r hmem
      cases hm.symm.trans hm'
      obtain ⟨x, hx, hof⟩ := hs.kept hm' hin
      have hentry : r ∈ (w.core.coordinatorOf j).entries t := by
        rw [core_coordinatorOf]
        exact hr
      obtain ⟨-, y, hy, hhub⟩ := hs.named hentry
      cases hx.symm.trans hy
      exact hj (hhub.symm.trans hof.hub)
  · intro map' hm'
    cases hm.symm.trans hm'
    exact h.asked
  · intro map' hm'
    cases hm.symm.trans hm'
    exact h.errors
  · intro map' hm'
    cases hm.symm.trans hm'
    exact h.link
  · intro map' hm'
    cases hm.symm.trans hm'
    exact h.untouched

/-- Records that leave their identity map together are freed, in whatever order. -/
theorem frees_finishAll (hs : w.core.Sound) (hm : w.maps[m]? = some map)
    (hl : ∀ r ∈ rs, ∃ id, w.core.Lists m id r) :
    ∃ errors, Frees w ((w.unregister m rs).finishAll m rs).2 m rs errors ∧
      ((w.unregister m rs).finishAll m rs).1 = errors.head? := by
  obtain ⟨map', hm', hlike⟩ := map_unregister (core_unregister w m rs) hm
  have hconnected : (w.unregister m rs).Connected map'.connection := by
    have hlt := (hs.placed hm).connection
    rw [← hlike.connection] at hlt
    exact ⟨_, List.getElem?_eq_getElem hlt, hs.grounded (List.getElem?_eq_getElem hlt)⟩
  have hr : ∀ r ∈ rs, ∃ i, (w.unregister m rs).records[r]? = some i ∧ i.hub = map'.hub := by
    intro r hr
    obtain ⟨id, map₀, hm₀, hin⟩ := hl r hr
    cases hm.symm.trans hm₀
    obtain ⟨x, hx, hof⟩ := hs.kept hm hin
    obtain ⟨i, hi, rfl⟩ := instance_of_core hx
    exact ⟨i, hi, hof.hub.trans hlike.hub.symm⟩
  obtain ⟨errors, hfinishes, hhead⟩ := finishes_finishAll hconnected hm' hr
  exact ⟨errors, (hfinishes.alike hlike).frees hs hm hl, hhead⟩

/-- What is freed and what becomes of it, whatever the program does next. -/
structure FreesExactly (w : Workspace) : Prop where
  /-- A record that is held elsewhere, or is not registered, is only given up. -/
  kept : ∀ {map record m r}, w.mapNames.lookup map = some m → w.handle? record = some r →
    ((w.letGo record).isHeld r = true ∨ ∀ id, w.registered? m id ≠ some r) →
    w.perform (.release map record) = (.ok (.flag false), w.letGo record)
  /-- One that nobody else holds is freed. -/
  released : ∀ {map record m r id}, w.mapNames.lookup map = some m →
    w.handle? record = some r → w.registered? m id = some r →
    (w.letGo record).isHeld r = false →
    ∃ errors, Frees w (w.perform (.release map record)).2 m [r] errors ∧
      (w.perform (.release map record)).1 = match errors with
        | [] => .ok (.flag true)
        | e :: _ => .error (.store e)
  /-- A sweep frees what is registered and not held. -/
  unheld : ∀ {m r}, r ∈ w.unheld m ↔ (∃ id, w.registered? m id = some r) ∧ w.isHeld r = false
  once : ∀ m, (w.unheld m).Nodup
  swept : ∀ {map m}, w.mapNames.lookup map = some m →
    ∃ errors, Frees w (w.perform (.sweep map)).2 m (w.unheld m) errors ∧
      (w.perform (.sweep map)).1 = match errors with
        | [] => .ok (.count (w.unheld m).length)
        | e :: _ => .error (.store e)
  /-- Nothing depends on the order in which a sweep goes through records. -/
  anyOrder : ∀ {map m rs}, w.mapNames.lookup map = some m → rs.Perm (w.unheld m) →
    ∃ errors, Frees w ((w.unregister m rs).finishAll m rs).2 m rs errors ∧
      ((w.unregister m rs).finishAll m rs).1 = errors.head?

theorem isFree_eq_false (hs : w.core.Sound) (h : w.isHeld r = true ∨
    ∀ id, w.registered? m id ≠ some r) : w.isFree m r = false := by
  cases hfree : w.isFree m r with
  | false => rfl
  | true =>
    obtain ⟨⟨id, hl⟩, hheld⟩ := isFree_iff hfree
    rcases h with h | h
    · rw [hheld] at h
      cases h
    · exact absurd (registered_of_lists hs hl) (h id)

theorem isFree_eq_true (hs : w.core.Sound) {id : RecordId} (h : w.registered? m id = some r)
    (hheld : w.isHeld r = false) : w.isFree m r = true := by
  obtain ⟨map, hm, hmem⟩ := lists_of_registered h
  obtain ⟨x, hx, hof⟩ := hs.kept hm hmem
  obtain ⟨i, hi, rfl⟩ := instance_of_core hx
  have hid : i.record.id = id := hof.id
  simp [isFree, hi, hid, h, hheld]

theorem mem_unheld (hs : w.core.Sound) :
    r ∈ w.unheld m ↔ (∃ id, w.registered? m id = some r) ∧ w.isHeld r = false := by
  constructor
  · intro hr
    obtain ⟨id, hl⟩ := (unheld_listed hs).2 r hr
    unfold unheld at hr
    cases hm : w.maps[m]? with
    | none => simp [hm] at hr
    | some map =>
      rw [hm, Option.elim_some, List.mem_filter, Bool.not_eq_true'] at hr
      exact ⟨⟨id, registered_of_lists hs hl⟩, hr.2⟩
  · rintro ⟨⟨id, hreg⟩, hheld⟩
    obtain ⟨map, hm, hmem⟩ := lists_of_registered hreg
    have hm : w.maps[m]? = some map := hm
    rw [unheld, hm, Option.elim_some, List.mem_filter, Bool.not_eq_true']
    exact ⟨List.mem_map_of_mem hmem, hheld⟩

/-- The first error, or else an answer. -/
def settled {α : Type} (a : α) (x : Option StoreError × Workspace) :
    Except StoreError α × Workspace :=
  (x.1.elim (.ok a) .error, x.2)

theorem answer_settled {α : Type} (reply : α → Reply) (a : α)
    (x : Option StoreError × Workspace) :
    answer reply (settled a x) = (x.1.elim (.ok (reply a)) fun e => .error (.store e), x.2) := by
  obtain ⟨_ | e, w⟩ := x <;> rfl

theorem sweep_eq (w : Workspace) (m : MapRef) :
    w.sweep m =
      settled (w.unheld m).length ((w.unregister m (w.unheld m)).finishAll m (w.unheld m)) := by
  unfold sweep
  dsimp only
  split <;> next hq => rw [hq]; rfl

/-- To let go of one record is to finish it alone. -/
theorem release_eq (hfree : w.isFree m r = true) :
    w.release m r = settled true ((w.unregister m [r]).finishAll m [r]) := by
  unfold release finishAll
  rw [if_pos hfree]
  split <;> next hq => rw [hq]; rfl

theorem freesExactly {own : Prop} (hs : w.core.Sound) (hw : Holding own w) : FreesExactly w where
  kept := by
    intro map record m r hm hr h
    have hfree : (w.letGo record).isFree m r = false := isFree_eq_false hs h
    simp [perform, withMap, hm, withRecord, hr, release, hfree, answer]
  released := by
    intro map record m r id hm hr hreg hheld
    obtain ⟨_, hmap⟩ := map_of_lt (hw.mapNames _ (mem_of_lookup hm))
    have hfree : (w.letGo record).isFree m r = true := isFree_eq_true hs hreg hheld
    have hl : ∀ j ∈ [r], ∃ id, (w.letGo record).core.Lists m id j := by
      simpa using ⟨id, lists_of_registered hreg⟩
    have hletGo : (w.letGo record).core.Sound := hs
    obtain ⟨errors, h, hhead⟩ := frees_finishAll hletGo hmap hl
    have hperform : w.perform (.release map record) =
        answer .flag ((w.letGo record).release m r) := by
      simp only [perform, withMap, hm, withRecord, hr]
    rw [hperform, release_eq hfree, answer_settled, hhead]
    refine ⟨errors,
      ⟨h.registered, h.records, h.entries, h.asked, h.errors, h.link, h.untouched⟩, ?_⟩
    cases errors <;> rfl
  unheld := mem_unheld hs
  once m := (unheld_listed hs).1
  swept := by
    intro map m hm
    obtain ⟨_, hmap⟩ := map_of_lt (hw.mapNames _ (mem_of_lookup hm))
    obtain ⟨errors, h, hhead⟩ := frees_finishAll hs hmap (unheld_listed hs).2
    have hperform : w.perform (.sweep map) = answer .count (w.sweep m) := by
      simp only [perform, withMap, hm]
    rw [hperform, sweep_eq, answer_settled, hhead]
    refine ⟨errors, h, ?_⟩
    cases errors <;> rfl
  anyOrder := by
    intro map m rs hm hperm
    obtain ⟨_, hmap⟩ := map_of_lt (hw.mapNames _ (mem_of_lookup hm))
    exact frees_finishAll hs hmap fun r hr => (unheld_listed hs).2 r (hperm.mem_iff.mp hr)

/-- In every run, letting go of a record and sweeping free exactly what nobody holds and
delete exactly what was staged. -/
theorem freesExactly_of_run (hb : Boots w) {actions : List Action}
    (h : (∀ a ∈ actions, a.sharesHub = false) ∨ ∀ a ∈ actions, a.steps = false) :
    FreesExactly (w.performAll actions) :=
  freesExactly (hb.good h).1 (hb.good h).2

/-- A workspace in which the second statement is refused. -/
def hesitant : Workspace := { outage := fun _ n => if n = 1 then some .reference else none }

theorem boots_hesitant : Boots hesitant :=
  ⟨rfl, rfl, rfl, rfl, rfl, rfl, rfl, rfl, rfl, by simp [hesitant]⟩

/-- Of four records three are given up, two of them with their deletion staged. -/
def abandoned : List Action :=
  [.openStore "store" .inMemory,
    .registerType "store" { table := "NOTES", fields := [⟨"TITLE", .text, true⟩] } "notes",
    .withId "notes" (.ofOrdinal 1) (some "one"), .command "one" .stageDelete, .drop "one",
    .withId "notes" (.ofOrdinal 2) (some "two"), .command "two" .stageDelete, .drop "two",
    .withId "notes" (.ofOrdinal 3) none, .withId "notes" (.ofOrdinal 4) (some "four"),
    .clone "four" (some "copy")]

/-- The first deletion is refused, the second one is tried all the same. -/
theorem freesExactly_abandoned : Boots hesitant ∧ (∀ a ∈ abandoned, a.sharesHub = false) ∧
    (hesitant.performAll abandoned).unheld 0 = [0, 1, 2] ∧
    (hesitant.performAll abandoned).staged [0, 1, 2] = [.ofOrdinal 1, .ofOrdinal 2] ∧
    ((hesitant.performAll abandoned).perform (.sweep "notes")).1 =
      .error (.store (.sql .reference)) ∧
    ((hesitant.performAll abandoned).perform (.sweep "notes")).2.maps.map (·.registered) =
      [[(.ofOrdinal 4, 3)]] ∧
    FreesExactly (hesitant.performAll abandoned) :=
  ⟨boots_hesitant, by decide, by rfl, by rfl, by rfl, by rfl,
    freesExactly_of_run boots_hesitant (.inl (by decide))⟩

end Workspace

end LiveRecords
