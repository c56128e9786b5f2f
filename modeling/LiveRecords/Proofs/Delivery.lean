import LiveRecords.Proofs.Deeds

/-!
# Delivery on the core

The core that a workspace has, and what is beside it. Listeners only write down
what they hear, except that a listener of a record may answer with a command;
so whatever running a command entails is a chain of commands on one record, of
which the first is the one that was asked for.
-/

namespace LiveRecords

/-! ## The core that a workspace has -/

namespace Workspace

def core (w : Workspace) : Core where
  databases := w.databases
  connections := w.connections.map (·.database)
  coordinators := w.hubs.map (·.coordinator)
  records := w.records.map Instance.resident
  maps := w.maps

/-- What lies outside the core and the reports is the same. -/
structure Keeps (w w' : Workspace) : Prop where
  outage : w'.outage = w.outage
  volumes : w'.volumes = w.volumes
  views : w'.views = w.views
  stores : w'.stores = w.stores
  handles : w'.handles = w.handles
  mapNames : w'.mapNames = w.mapNames
  viewNames : w'.viewNames = w.viewNames
  /-- Reactions are used up and never come back. -/
  armed : ∀ r, w'.armed r ≤ w.armed r

theorem Keeps.refl (w : Workspace) : Keeps w w :=
  ⟨rfl, rfl, rfl, rfl, rfl, rfl, rfl, fun _ => Nat.le_refl _⟩

theorem Keeps.trans {w₁ w₂ w₃ : Workspace} (h₁ : Keeps w₁ w₂) (h₂ : Keeps w₂ w₃) :
    Keeps w₁ w₃ where
  outage := h₂.outage.trans h₁.outage
  volumes := h₂.volumes.trans h₁.volumes
  views := h₂.views.trans h₁.views
  stores := h₂.stores.trans h₁.stores
  handles := h₂.handles.trans h₁.handles
  mapNames := h₂.mapNames.trans h₁.mapNames
  viewNames := h₂.viewNames.trans h₁.viewNames
  armed r := Nat.le_trans (h₂.armed r) (h₁.armed r)

/-- A change of a record that arms no listener. -/
theorem armed_setRecord_le (w : Workspace) (r : RecordRef) {f : Instance → Instance}
    (h : ∀ i, (f i).listeners.listeners.countP (·.2.once.isSome) ≤
      i.listeners.listeners.countP (·.2.once.isSome)) (j : RecordRef) :
    (w.setRecord r f).armed j ≤ w.armed j := by
  simp only [armed, setRecord, List.getElem?_modify]
  cases w.records[j]? with
  | none => exact Nat.le_refl _
  | some i => by_cases hj : r = j <;> simp [hj, h]

theorem core_connections (w : Workspace) (c : ConnectionRef) :
    w.core.connections[c]? = (w.connections[c]?).map (·.database) := by
  simp [core]

theorem core_records (w : Workspace) (r : RecordRef) :
    w.core.records[r]? = (w.records[r]?).map Instance.resident := by
  simp [core]

theorem core_records_of_some {w : Workspace} {r : RecordRef} {i : Instance}
    (h : w.records[r]? = some i) : w.core.records[r]? = some i.resident := by
  rw [core_records, h]; rfl

theorem instance_of_core {w : Workspace} {r : RecordRef} {x : Resident}
    (h : w.core.records[r]? = some x) : ∃ i, w.records[r]? = some i ∧ i.resident = x := by
  rw [core_records] at h
  exact Option.map_eq_some_iff.mp h

theorem core_databaseOf (w : Workspace) (c : ConnectionRef) :
    w.core.databaseOf c = w.databaseOf c := by
  unfold Core.databaseOf databaseOf
  cases h : w.connections[c]? <;> simp [core, h]

theorem core_coordinatorOf (w : Workspace) (h : HubRef) :
    w.core.coordinatorOf h = w.coordinatorOf h := by
  unfold Core.coordinatorOf coordinatorOf
  cases hh : w.hubs[h]? <;> simp [core, hh]

/-! ## Reports and listeners -/

/-- Nothing changed but reports, statistics and listeners. -/
def Still (w w' : Workspace) : Prop := w'.core = w.core ∧ Keeps w w'

theorem Still.refl (w : Workspace) : Still w w := ⟨rfl, .refl w⟩

theorem Still.trans {w₁ w₂ w₃ : Workspace} (h₁ : Still w₁ w₂) (h₂ : Still w₂ w₃) : Still w₁ w₃ :=
  ⟨h₂.1.trans h₁.1, h₁.2.trans h₂.2⟩

theorem still_write (w : Workspace) (h : Heard) : Still w (w.write h) :=
  ⟨rfl, rfl, rfl, rfl, rfl, rfl, rfl, rfl, fun _ => Nat.le_refl _⟩

theorem still_report (w : Workspace) (d : Diagnostic) : Still w (w.report d) :=
  ⟨rfl, rfl, rfl, rfl, rfl, rfl, rfl, rfl, fun _ => Nat.le_refl _⟩

/-- What one step of a fold relates, the fold relates. -/
theorem foldl_related {α σ : Type} {R : σ → σ → Prop} (refl : ∀ s, R s s)
    (trans : ∀ {s t u}, R s t → R t u → R s u) (f : σ → α → σ) (h : ∀ s a, R s (f s a))
    (as : List α) (s : σ) : R s (as.foldl f s) := by
  induction as generalizing s with
  | nil => exact refl s
  | cons a as ih => exact trans (h s a) (ih (f s a))

theorem still_announce (h : HubRef) (e : CoordinatorEvent) (w : Workspace) :
    Still w (announce h e w) := by
  unfold announce
  split
  · exact .refl w
  · exact foldl_related .refl .trans _ (fun s l => still_write s _) _ w

theorem still_announceView (v : ViewRef) (w : Workspace) (e : ViewEvent) :
    Still w (announceView v w e) := by
  unfold announceView
  split
  · exact .refl w
  · exact foldl_related .refl .trans _ (fun s l => still_write s _) _ w

/-- A change of a record that leaves all but its listeners. -/
theorem core_setRecord_listeners (w : Workspace) (r : RecordRef) {f : Instance → Instance}
    (h : ∀ i, (f i).resident = i.resident) : (w.setRecord r f).core = w.core := by
  ext j x <;> try rfl
  simp only [core_records, setRecord, List.getElem?_modify]
  cases w.records[j]? with
  | none => rfl
  | some i => by_cases hj : r = j <;> simp [hj, h]

theorem countP_disarm_le (o : Observers RecordListener) (listener : Nat) :
    (o.update listener fun l => { l with once := none }).listeners.countP (·.2.once.isSome) ≤
      o.listeners.countP (·.2.once.isSome) := by
  rw [Observers.update, List.countP_map]
  refine List.countP_mono_left fun l _ => ?_
  by_cases hl : l.1 = listener <;> simp [hl]

theorem countP_lt_countP {α : Type} {p q : α → Bool} {l : List α}
    (h : ∀ b ∈ l, q b = true → p b = true) {a : α} (ha : a ∈ l) (hp : p a = true)
    (hq : q a = false) : l.countP q < l.countP p := by
  obtain ⟨before, after, rfl⟩ := List.append_of_mem ha
  have hb := List.countP_mono_left (l := before) fun b hb => h b (by simp [hb])
  have hs := List.countP_mono_left (l := after) fun b hb => h b (by simp [hb])
  simp only [List.countP_append, List.countP_cons, hp, hq, if_true, Bool.false_eq_true, if_false]
  omega

/-- A listener that has a reaction left loses it. -/
theorem countP_disarm_lt {o : Observers RecordListener} {l : Nat × RecordListener}
    (hl : l ∈ o.listeners) (h : l.2.once.isSome = true) :
    (o.update l.1 fun l => { l with once := none }).listeners.countP (·.2.once.isSome) <
      o.listeners.countP (·.2.once.isSome) := by
  rw [Observers.update, List.countP_map]
  refine countP_lt_countP (fun k _ => ?_) hl h (by simp)
  by_cases hk : k.1 = l.1 <;> simp [hk]

theorem still_disarm (w : Workspace) (r : RecordRef) (listener : Nat) :
    Still w (w.disarm r listener) :=
  ⟨core_setRecord_listeners w r fun _ => rfl, rfl, rfl, rfl, rfl, rfl, rfl, rfl,
    armed_setRecord_le w r fun i => countP_disarm_le i.listeners listener⟩

/-- A reaction is used up when it is set off. -/
theorem armed_disarm_lt {w : Workspace} {r : RecordRef} {listener : Nat} {e : RecordEvent}
    {c : Record.Command} (h : w.reaction? r listener e = some c) :
    (w.disarm r listener).armed r < w.armed r := by
  obtain ⟨i, hi, h⟩ := Option.bind_eq_some_iff.mp h
  obtain ⟨l, hl, h⟩ := Option.bind_eq_some_iff.mp h
  obtain ⟨once, honce, -⟩ := Option.bind_eq_some_iff.mp h
  have hsome : l.once.isSome = true := by rw [honce]; rfl
  have hlt := countP_disarm_lt (mem_of_lookup hl) hsome
  simpa only [armed, disarm, setRecord, List.getElem?_modify_eq, hi, Option.map_eq_map,
    Option.map_some, Option.elim_some] using hlt

/-- A change of a coordinator's listeners alone. -/
theorem still_setHub (w : Workspace) (h : HubRef) {f : Hub → Hub}
    (hf : ∀ hub, (f hub).coordinator = hub.coordinator) : Still w (w.setHub h f) := by
  refine ⟨?_, rfl, rfl, rfl, rfl, rfl, rfl, rfl, fun _ => Nat.le_refl _⟩
  ext j x <;> try rfl
  simp only [core, setHub, List.getElem?_map, List.getElem?_modify]
  cases w.hubs[j]? with
  | none => rfl
  | some hub => by_cases hj : h = j <;> simp [hj, hf]

/-! ## Changes of the core -/

theorem core_setCoordinator (w : Workspace) (h : HubRef) (c : Coordinator) :
    (w.setCoordinator h c).core = w.core.tell h fun _ => c := by
  ext j x <;> try rfl
  simp only [core, setCoordinator, setHub, Core.tell, List.getElem?_map, List.getElem?_modify]
  cases w.hubs[j]? with
  | none => rfl
  | some hub => by_cases hj : h = j <;> simp [hj]

theorem keeps_setCoordinator (w : Workspace) (h : HubRef) (c : Coordinator) :
    Keeps w (w.setCoordinator h c) :=
  ⟨rfl, rfl, rfl, rfl, rfl, rfl, rfl, fun _ => Nat.le_refl _⟩

theorem core_tell (w : Workspace) (h : HubRef)
    (act : Coordinator → Coordinator × List CoordinatorEvent) :
    (w.tell h act).core = w.core.tell h fun c => (act c).1 := by
  have hs : Still (w.setCoordinator h (act (w.coordinatorOf h)).1) (w.tell h act) :=
    foldl_related .refl .trans _ (fun s e => still_announce h e s) _ _
  rw [hs.1, core_setCoordinator]
  ext j x <;> try rfl
  simp only [Core.tell, core, List.getElem?_map, List.getElem?_modify]
  cases hj : w.hubs[j]? with
  | none => rfl
  | some hub =>
    by_cases he : h = j
    · subst he; simp [coordinatorOf, hj]
    · simp [he]

theorem keeps_tell (w : Workspace) (h : HubRef)
    (act : Coordinator → Coordinator × List CoordinatorEvent) : Keeps w (w.tell h act) := by
  have hs : Still (w.setCoordinator h (act (w.coordinatorOf h)).1) (w.tell h act) :=
    foldl_related .refl .trans _ (fun s e => still_announce h e s) _ _
  exact (keeps_setCoordinator w h _).trans hs.2

/-- Notices about a record change one coordinator and nothing else of the core. -/
theorem core_foldl_tell (ns : List Notice) (h : HubRef) (r : RecordRef) (w : Workspace) :
    (ns.foldl (fun w n => w.tell h (n.apply r)) w).core = w.core.tell h (Notice.told ns r) := by
  induction ns generalizing w with
  | nil => ext j x <;> simp [Core.tell, List.getElem?_modify]
  | cons n ns ih =>
    rw [List.foldl_cons, ih, core_tell]
    ext j x <;> simp [Core.tell, List.getElem?_modify]
    cases w.core.coordinators[j]? with
    | none => simp
    | some c => by_cases hj : h = j <;> simp [hj]

theorem keeps_foldl_tell (ns : List Notice) (h : HubRef) (r : RecordRef) (w : Workspace) :
    Keeps w (ns.foldl (fun w n => w.tell h (n.apply r)) w) :=
  foldl_related .refl .trans _ (fun s _ => keeps_tell s h _) ns w

/-- The record changes and the coordinator is told. -/
theorem core_impose {w : Workspace} {r : RecordRef} {i : Instance} (hr : w.records[r]? = some i)
    (e : Effect) :
    (e.notices.foldl (fun w n => w.tell i.hub (n.apply r))
      (w.setRecord r fun i => { i with record := e.record })).core = w.core.impose r e := by
  rw [core_foldl_tell, Core.impose_of_some (core_records_of_some hr)]
  congr 1
  ext j x <;> try rfl
  simp only [core_records, setRecord, Core.setRecord, List.getElem?_modify]
  cases w.records[j]? with
  | none => rfl
  | some i => by_cases hj : r = j <;> simp [hj, Instance.resident]

theorem core_setLink (w : Workspace) (c : ConnectionRef) (l : Link) :
    (w.setLink c l).core = w.core.setDatabase c l.database ∧ Keeps w (w.setLink c l) := by
  unfold setLink
  cases hc : w.connections[c]? with
  | none => exact ⟨by simp [Core.setDatabase, core, hc], .refl w⟩
  | some k =>
    refine ⟨?_, rfl, rfl, rfl, rfl, rfl, rfl, rfl, fun _ => Nat.le_refl _⟩
    simp only [Core.setDatabase, core, List.getElem?_map, hc, Option.map_some]
    ext j x <;> try rfl
    obtain ⟨hlt, rfl⟩ := List.getElem?_eq_some_iff.mp hc
    simp only [List.map_set, List.getElem?_set, List.length_map, List.getElem?_map]
    by_cases hj : c = j
    · subst hj; simp [hlt]
    · simp [hj]

theorem records_through {α : Type} (w : Workspace) (c : ConnectionRef) (f : Link → α × Link) :
    (w.through c f).2.records = w.records := by
  unfold through setLink
  dsimp only
  split <;> rfl

theorem core_through {α : Type} (w : Workspace) (c : ConnectionRef) (f : Link → α × Link) :
    (w.through c f).2.core = w.core.setDatabase c (f (w.link c)).2.database :=
  (core_setLink w c (f (w.link c)).2).1

theorem keeps_through {α : Type} (w : Workspace) (c : ConnectionRef) (f : Link → α × Link) :
    Keeps w (w.through c f).2 :=
  (core_setLink w c (f (w.link c)).2).2

/-- Statements that leave the database leave the core. -/
theorem still_through {α : Type} {w : Workspace} {c : ConnectionRef} {f : Link → α × Link}
    (h : (f (w.link c)).2.database = w.databaseOf c) : Still w (w.through c f).2 := by
  refine ⟨?_, keeps_through w c f⟩
  rw [core_through, h, ← core_databaseOf, Core.setDatabase_databaseOf]

/-! ## Commands and reactions -/

/-- Whatever happened were commands on one record, which used up reactions of its
listeners. -/
def Talks (r : RecordRef) (w w' : Workspace) : Prop :=
  w.core.Listed r → ∃ cs, Core.Asked r cs w.core w'.core ∧ Keeps w w' ∧
    (cs ≠ [] → w'.armed r < w.armed r)

theorem Talks.refl (r : RecordRef) (w : Workspace) : Talks r w w :=
  fun _ => ⟨[], .nil _, .refl w, fun hne => absurd rfl hne⟩

theorem Talks.trans {r : RecordRef} {w₁ w₂ w₃ : Workspace} (h₁ : Talks r w₁ w₂)
    (h₂ : Talks r w₂ w₃) : Talks r w₁ w₃ := by
  intro hl
  obtain ⟨cs₁, ha₁, hk₁, hlt₁⟩ := h₁ hl
  obtain ⟨cs₂, ha₂, hk₂, hlt₂⟩ := h₂ (hl.of_maps ha₁.maps)
  refine ⟨cs₁ ++ cs₂, ha₁.append ha₂, hk₁.trans hk₂, fun hne => ?_⟩
  by_cases hcs : cs₁ = []
  · subst hcs
    exact Nat.lt_of_lt_of_le (hlt₂ hne) (hk₁.armed r)
  · exact Nat.lt_of_le_of_lt (hk₂.armed r) (hlt₁ hcs)

theorem Still.talks {w w' : Workspace} (h : Still w w') (r : RecordRef) : Talks r w w' := by
  intro _
  rw [h.1]
  exact ⟨[], .nil _, h.2, fun hne => absurd rfl hne⟩

/-- What can be done with commands on a record. -/
def Commanding (act : Act) (r : RecordRef) : Prop :=
  ∀ c w, w.core.Listed r → ∃ cs, Core.Asked r cs w.core (act r c w).2.core ∧
    Keeps w (act r c w).2

theorem hear_talks {act : Act} {r : RecordRef} (ha : Commanding act r) (e : RecordEvent)
    (l : Nat × RecordListener) (w : Workspace) : Talks r w (hear act r e l w) := by
  unfold hear
  dsimp only
  generalize hnote : Heard.record l.2.name e _ = note
  split
  · exact (still_write w _).talks r
  · next c hc =>
    intro hl
    have hlt := armed_disarm_lt hc
    have hdisarm := (still_write w note).trans (still_disarm _ r l.1)
    obtain ⟨cs, hasked, hk⟩ := ha c _ (hdisarm.1.symm ▸ hl)
    rw [hdisarm.1] at hasked
    exact ⟨cs, hasked, hdisarm.2.trans (hk.trans (still_write _ _).2), fun _ =>
      Nat.lt_of_le_of_lt (hk.armed r) hlt⟩

theorem deliver_talks {act : Act} {r : RecordRef} (ha : Commanding act r) (w : Workspace)
    (e : RecordEvent) : Talks r w (deliver act r w e) := by
  unfold deliver
  split
  · exact .refl r w
  · exact foldl_related (.refl r) .trans _ (fun w l => hear_talks ha e l w) _ w

/-- What was done to a record is carried out, and commands follow where listeners
answer. -/
theorem carryOutWith_asked {act : Act} {r : RecordRef} (ha : Commanding act r) {w : Workspace}
    {i : Instance} (hr : w.records[r]? = some i) (hl : w.core.Listed r) (e : Effect) :
    ∃ cs, Core.Asked r cs (w.core.impose r e) (carryOutWith act r e w).core ∧
      Keeps w (carryOutWith act r e w) ∧
      (cs ≠ [] → (carryOutWith act r e w).armed r < w.armed r) := by
  have ht : Talks r (e.notices.foldl (fun w n => w.tell i.hub (n.apply r))
      (w.setRecord r fun i => { i with record := e.record })) (carryOutWith act r e w) := by
    rw [carryOutWith, hr]
    exact foldl_related (.refl r) .trans _ (deliver_talks ha) _ _
  have hset : Keeps w (w.setRecord r fun i => { i with record := e.record }) :=
    ⟨rfl, rfl, rfl, rfl, rfl, rfl, rfl, armed_setRecord_le w r fun _ => Nat.le_refl _⟩
  have hk := hset.trans (keeps_foldl_tell e.notices i.hub r _)
  rw [Talks, core_impose hr] at ht
  obtain ⟨cs, hc, hk', hlt⟩ := ht (hl.of_maps (Core.impose_maps _ r e))
  exact ⟨cs, hc, hk.trans hk', fun hne => Nat.lt_of_lt_of_le (hlt hne) (hk.armed r)⟩

theorem runWith_asked {act : Act} {r : RecordRef} (ha : Commanding act r) {w : Workspace}
    {i : Instance} (hr : w.records[r]? = some i) (hl : w.core.Listed r) (c : Record.Command) :
    ∃ cs, Core.Asked r ((c, (runWith act r c w).1) :: cs) w.core (runWith act r c w).2.core ∧
      Keeps w (runWith act r c w).2 ∧ (cs ≠ [] → (runWith act r c w).2.armed r < w.armed r) := by
  have hr' : (w.through i.connection fun l => i.record.run l c).2.records[r]? = some i := by
    rw [records_through, hr]
  have hcore := core_through w i.connection fun l => i.record.run l c
  have hkeep := keeps_through w i.connection fun l => i.record.run l c
  have hl' := hl.of_maps ((congrArg Core.maps hcore).trans (Core.setDatabase_maps _ _ _))
  obtain ⟨cs, hc, hk, hlt⟩ :=
    carryOutWith_asked ha hr' hl' (i.record.run (w.link i.connection) c).1.2
  rw [hcore] at hc
  simp only [runWith, hr]
  exact ⟨cs, .cons ⟨_, _, core_records_of_some hr, hl, (core_databaseOf w _).symm, rfl, rfl⟩ hc,
    hkeep.trans hk, fun hne => Nat.lt_of_lt_of_le (hlt hne) (hkeep.armed r)⟩

theorem runWith_commanding {act : Act} {r : RecordRef} (ha : Commanding act r) :
    Commanding (runWith act) r := by
  intro c w hl
  cases hr : w.records[r]? with
  | none => simp only [runWith, hr]; exact ⟨[], .nil _, .refl w⟩
  | some i =>
    obtain ⟨cs, hc, hk, -⟩ := runWith_asked ha hr hl c
    exact ⟨_, hc, hk⟩

theorem idle_commanding (r : RecordRef) : Commanding (fun _ _ w => (.ok .done, w)) r :=
  fun _ w _ => ⟨[], .nil _, .refl w⟩

theorem runNested_commanding (n : Nat) (r : RecordRef) : Commanding (runNested n) r := by
  induction n with
  | zero => exact runWith_commanding (idle_commanding r)
  | succ n ih => exact runWith_commanding ih

/-- A command is carried out, and then those that listeners answered with. -/
theorem runNested_asked (n : Nat) {r : RecordRef} {w : Workspace} {i : Instance}
    (hr : w.records[r]? = some i) (hl : w.core.Listed r) (c : Record.Command) :
    ∃ cs, Core.Asked r ((c, (runNested n r c w).1) :: cs) w.core (runNested n r c w).2.core ∧
      Keeps w (runNested n r c w).2 ∧ (cs ≠ [] → (runNested n r c w).2.armed r < w.armed r) := by
  cases n with
  | zero => exact runWith_asked (idle_commanding r) hr hl c
  | succ n => exact runWith_asked (runNested_commanding n r) hr hl c

theorem run_asked {r : RecordRef} {w : Workspace} {i : Instance} (hr : w.records[r]? = some i)
    (hl : w.core.Listed r) (c : Record.Command) :
    ∃ cs, Core.Asked r ((c, (w.run r c).1) :: cs) w.core (w.run r c).2.core ∧
      Keeps w (w.run r c).2 ∧ (cs ≠ [] → (w.run r c).2.armed r < w.armed r) :=
  runNested_asked (w.armed r) hr hl c

/-- What was done to a record is carried out, and commands follow only where
reactions are left. -/
theorem carryOut_asked {r : RecordRef} {w : Workspace} {i : Instance}
    (hr : w.records[r]? = some i) (hl : w.core.Listed r) (e : Effect) :
    ∃ cs, Core.Asked r cs (w.core.impose r e) (w.carryOut r e).core ∧
      Keeps w (w.carryOut r e) ∧ (cs ≠ [] → 0 < w.armed r) := by
  obtain ⟨cs, hc, hk, hlt⟩ := carryOutWith_asked (runNested_commanding (w.armed r) r) hr hl e
  exact ⟨cs, hc, hk, fun hne => Nat.zero_lt_of_lt (hlt hne)⟩

/-- No listener of a record answers a command on it: all reactions are left. -/
def Unanswered (w : Workspace) (r : RecordRef) (c : Record.Command) : Prop :=
  (w.run r c).2.armed r = w.armed r

/-- A command that nobody answers is all that is carried out. -/
theorem run_unanswered {r : RecordRef} {w : Workspace} {i : Instance}
    (hr : w.records[r]? = some i) (hl : w.core.Listed r) {c : Record.Command}
    (h : w.Unanswered r c) :
    Core.Commands r c (w.run r c).1 w.core (w.run r c).2.core ∧ Keeps w (w.run r c).2 := by
  obtain ⟨cs, hc, hk, hlt⟩ := run_asked hr hl c
  have hnil : cs = [] := Decidable.byContradiction fun hne => by
    have := hlt hne
    rw [h] at this
    exact Nat.lt_irrefl _ this
  subst hnil
  cases hc with
  | cons hfirst hrest =>
    cases hrest
    exact ⟨hfirst, hk⟩

/-- Where no reactions are left, nobody answers. -/
theorem unanswered_of_armed {r : RecordRef} {w : Workspace} {i : Instance}
    (hr : w.records[r]? = some i) (hl : w.core.Listed r) (h : w.armed r = 0)
    (c : Record.Command) : w.Unanswered r c := by
  obtain ⟨-, -, hk, -⟩ := run_asked hr hl c
  exact (Nat.le_zero.mp (h ▸ hk.armed r)).trans h.symm

end Workspace

end LiveRecords
