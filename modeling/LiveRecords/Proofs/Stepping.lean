import LiveRecords.Proofs.Operations

/-!
# Stepping through the history of a store

All entries of the coordinator of an open store are of living records that have
a change set to replay. So a step is the replay of the record that the newest
entry names, and there is nothing to step to only if there is no entry.
-/

namespace LiveRecords.Workspace

variable {w : Workspace}

/-- What a command answers does not depend on who listens. -/
theorem fst_run {r : RecordRef} {i : Instance} (hr : w.records[r]? = some i)
    (c : Record.Command) : (w.run r c).1 = (i.record.run (w.link i.connection) c).1.1 := by
  unfold run
  cases w.armed r <;> simp [runNested, runWith, hr, through]

theorem setCoordinator_self (w : Workspace) (h : HubRef) :
    w.setCoordinator h (w.coordinatorOf h) = w := by
  have hs : w.hubs.modify h (fun hub => { hub with coordinator := w.coordinatorOf h }) =
      w.hubs := by
    ext j x
    simp only [List.getElem?_modify, coordinatorOf]
    by_cases hj : h = j
    · subst hj; cases w.hubs[h]? <;> simp
    · simp [hj]
  unfold setCoordinator setHub
  rw [hs]

theorem mem_registeredRecords {m : MapRef} (hm : m ∈ w.reachableMaps) {id : RecordId}
    {r : RecordRef} (hr : w.core.Lists m id r) : r ∈ w.registeredRecords := by
  obtain ⟨map, hmap, hmem⟩ := hr
  replace hmap : w.maps[m]? = some map := hmap
  refine List.mem_flatMap.mpr ⟨m, hm, ?_⟩
  rw [hmap]
  exact List.mem_map_of_mem hmem

/-- The identity maps of an open store are within reach. -/
theorem mem_reachableMaps {name : String} {s : Store} (h : (name, s) ∈ w.stores) {m : MapRef}
    (hm : m ∈ s.maps.map (·.2)) : m ∈ w.reachableMaps := by
  unfold reachableMaps
  refine List.mem_append_left _ (List.mem_append_right _ ?_)
  exact List.mem_flatMap.mpr ⟨(name, s), h, hm⟩

variable {name : String} {s : Store}

/-- An entry of an open store is of a record registered in one of its identity
maps. -/
theorem registered_of_entry (hs : w.core.Sound) (hw : Holding True w) (h : (name, s) ∈ w.stores)
    {t : Track} {r : RecordRef} (hr : r ∈ (w.coordinatorOf s.hub).entries t) :
    ∃ m ∈ s.maps.map (·.2), ∃ id, w.core.Lists m id r := by
  rw [← core_coordinatorOf] at hr
  obtain ⟨⟨m, id, map, hm, hmem⟩, i, hi, hih⟩ := hs.named hr
  obtain ⟨j, hj, hof⟩ := hs.kept hm hmem
  cases hi.symm.trans hj
  refine ⟨m, (hw.stores _ h).all trivial (Core.shape_of_map hm) ?_, id, map, hm, hmem⟩
  exact hof.hub.symm.trans hih

theorem isAlive_of_entry (hs : w.core.Sound) (hw : Holding True w) (h : (name, s) ∈ w.stores)
    {t : Track} {r : RecordRef} (hr : r ∈ (w.coordinatorOf s.hub).entries t) :
    w.isAlive r = true := by
  obtain ⟨m, hm, id, hl⟩ := registered_of_entry hs hw h hr
  have hmem := mem_registeredRecords (mem_reachableMaps h hm) hl
  simp [isAlive, hmem]

/-- A record with an entry has a change set, so replaying it does something. -/
theorem run_replay_ne_nothing (hs : w.core.Sound) {h : HubRef} {t : Track} {r : RecordRef}
    (hr : r ∈ (w.coordinatorOf h).entries t) :
    w.core.Listed r ∧ (w.run r (.replay t)).1 ≠ .ok (.flag false) := by
  rw [← core_coordinatorOf] at hr
  obtain ⟨hl, x, hx, hxh⟩ := hs.named hr
  refine ⟨hl, ?_⟩
  have hc := hs.counted hx hl t
  rw [hxh] at hc
  have hpos : 0 < x.record.depth t := hc ▸ List.count_pos_iff.mpr hr
  rw [core_records, Option.map_eq_some_iff] at hx
  obtain ⟨i, hi, rfl⟩ := hx
  rw [fst_run hi]
  unfold Record.run
  dsimp only
  cases hst : i.record.stack t with
  | nil => simp [Instance.resident, Record.depth, hst] at hpos
  | cons c older =>
    simp only [Record.replay, hst]
    split <;> (intro he; cases he)

theorem step_of_nil {h : HubRef} {t : Track} (he : (w.coordinatorOf h).entries t = []) :
    w.step h t = (.ok false, w) := by
  have hc : (w.coordinatorOf h).setEntries t [] = w.coordinatorOf h := by
    rw [← he, Coordinator.setEntries_entries]
  unfold step
  rw [Coordinator.step, he, Coordinator.stepEntries, hc]
  dsimp only
  rw [setCoordinator_self]

/-- A step is the replay of the record that the newest entry names. -/
theorem step_of_cons (hs : w.core.Sound) (hw : Holding True w) (h : (name, s) ∈ w.stores)
    {t : Track} {r : RecordRef} {rest : List RecordRef}
    (he : (w.coordinatorOf s.hub).entries t = r :: rest) :
    w.step s.hub t =
      ((fun _ => true) <$> (w.run r (.replay t)).1, (w.run r (.replay t)).2) := by
  have hr : r ∈ (w.coordinatorOf s.hub).entries t := he ▸ List.mem_cons_self
  have halive := isAlive_of_entry hs hw h hr
  obtain ⟨-, hne⟩ := run_replay_ne_nothing hs hr
  have hc : (w.coordinatorOf s.hub).setEntries t (r :: rest) = w.coordinatorOf s.hub := by
    rw [← he, Coordinator.setEntries_entries]
  unfold step
  rw [Coordinator.step, he, Coordinator.stepEntries]
  simp only [host, halive, if_true, hc, setCoordinator_self]
  cases hrun : w.run r (.replay t) with
  | mk result u =>
    rw [hrun] at hne
    cases result with
    | error e => simp only [setCoordinator_self]; rfl
    | ok reply =>
      cases reply with
      | flag b =>
        cases b with
        | false => exact absurd rfl hne
        | true => simp only [setCoordinator_self]; rfl
      | done => simp only [setCoordinator_self]; rfl
      | committed o => simp only [setCoordinator_self]; rfl

/-- A step is a command on the record that the newest entry names, if anything. -/
theorem step_goes {P : Deed → Core → Prop} (hs : w.core.Sound) (hw : Holding True w)
    (h : (name, s) ∈ w.stores) (t : Track)
    (ha : ∀ r rest, (w.coordinatorOf s.hub).entries t = r :: rest →
      ∀ c reply k, P (.command r c reply) k) : Goes P w (w.step s.hub t).2 := by
  cases he : (w.coordinatorOf s.hub).entries t with
  | nil =>
    rw [step_of_nil he]
    exact .refl w
  | cons r rest =>
    rw [step_of_cons hs hw h he]
    have hr : r ∈ (w.coordinatorOf s.hub).entries t := he ▸ List.mem_cons_self
    exact run_goes hs (run_replay_ne_nothing hs hr).1 _ (ha r rest he)

end LiveRecords.Workspace
