import Mathlib.Logic.Relation
import LiveRecords.Proofs.Scanning
import LiveRecords.Coordinator.Script

/-!
# When a track becomes available

Whoever listens from the start hears that a track has become available exactly
when it gets its first entry, and that it no longer is when it loses its last.
This holds whatever the items do while they are asked: an item may call the
coordinator back, and so begin steps of its own, and what it calls for counts in
the order in which it happens. So the calls are followed one by one, with the
steps that wait for the answer of an item.
-/

namespace LiveRecords

/-- What an event says about a track. -/
def Track.told? : Track → CoordinatorEvent → Option Bool
  | .undo, .canUndo b => some b
  | .redo, .canRedo b => some b
  | _, _ => none

/-- What was said about a track, in order. -/
def Track.told (t : Track) (heard : List CoordinatorEvent) : List Bool :=
  heard.filterMap t.told?

namespace Coordinator

/-- What may happen to a coordinator next. Calls are made by its owner, or by the
item that was asked last. -/
inductive Happening (ε : Type) where
  | add (t : Track) (item : Nat)
  | remove (t : Track) (item : Nat)
  | forget (item : Nat)
  /-- A step begins, when `alive` tells which items live. -/
  | step (t : Track) (alive : Nat → Bool)
  /-- The item that was asked last answers. If its step goes on, `alive` tells
  which items live then. -/
  | answer (given : Except ε Bool) (alive : Nat → Bool)

/-- A coordinator in use, with the steps that wait for the answer of an item, the
last first, and what has been heard of it so far. -/
structure Scene where
  coordinator : Coordinator := {}
  asked : List (Track × Nat) := []
  heard : List CoordinatorEvent := []

namespace Scene

variable {ε : Type}

def tell (x : Scene) (act : Coordinator → Coordinator × List CoordinatorEvent) : Scene :=
  { x with coordinator := (act x.coordinator).1, heard := x.heard ++ (act x.coordinator).2 }

/-- A step looks for an item to ask. -/
def look (x : Scene) (t : Track) (alive : Nat → Bool) : Scene :=
  let x := x.tell (·.prune t alive)
  match x.coordinator.entries t with
  | [] => x
  | item :: _ => { x with asked := (t, item) :: x.asked }

def next (x : Scene) : Happening ε → Scene
  | .add t item => x.tell (·.add t item)
  | .remove t item => x.tell (·.remove t item)
  | .forget item => x.tell (·.forget item)
  | .step t alive => x.look t alive
  | .answer given alive =>
    match x.asked with
    | [] => x
    | (t, item) :: asked =>
      let x := { x with asked }
      match given with
      | .ok false => (x.tell (·.remove t item)).look t alive
      | _ => x

def run (x : Scene) (hs : List (Happening ε)) : Scene := hs.foldl next x

theorem run_append (x : Scene) (hs hs' : List (Happening ε)) :
    x.run (hs ++ hs') = (x.run hs).run hs' :=
  List.foldl_append

theorem look_of_nil {x : Scene} {t : Track} {alive : Nat → Bool}
    (h : (x.coordinator.prune t alive).1.entries t = []) :
    x.look t alive = x.tell (·.prune t alive) := by
  simp [look, tell, h]

theorem look_of_cons {x : Scene} {t : Track} {alive : Nat → Bool} {item : Nat} {es : List Nat}
    (h : (x.coordinator.prune t alive).1.entries t = item :: es) :
    x.look t alive = { x.tell (·.prune t alive) with asked := (t, item) :: x.asked } := by
  simp [look, tell, h]

end Scene

/-! ## Edges -/

/-- A listener from the start was told in turn that a track became available and
that it no longer was, and the last time that it is, or is not, as it is now. -/
structure Tells (t : Track) (available : Bool) (heard : List CoordinatorEvent) : Prop where
  alternate : ∀ k b, (t.told heard)[k]? = some b → b = decide (k % 2 = 0)
  last : (t.told heard).getLastD false = available

section Tells

variable {t u : Track} {available : Bool} {heard : List CoordinatorEvent} {es fs : List Nat}

theorem told_append (t : Track) (heard more : List CoordinatorEvent) :
    t.told (heard ++ more) = t.told heard ++ t.told more :=
  List.filterMap_append

theorem told_edge_self (t : Track) (es fs : List Nat) :
    t.told (edge t es fs) = if es.isEmpty = fs.isEmpty then [] else [es.isEmpty] := by
  unfold edge
  split <;> cases t <;> rfl

theorem told_edge_of_ne (h : t ≠ u) (es fs : List Nat) : t.told (edge u es fs) = [] := by
  unfold edge
  split
  · rfl
  · cases t <;> cases u <;> first | rfl | exact absurd rfl h

theorem tells_nil (t : Track) : Tells t false [] where
  alternate := by simp [Track.told]
  last := rfl

/-- The number of times tells what was said the last time. -/
theorem Tells.available_eq (h : Tells t available heard) :
    available = decide ((t.told heard).length % 2 = 1) := by
  rw [← h.last]
  rcases List.eq_nil_or_concat (t.told heard) with hnil | ⟨said, b, hsaid⟩
  · simp [hnil]
  · have hb := h.alternate said.length b (by simp [hsaid])
    rw [hsaid, hb]
    simp
    omega

theorem Tells.edge (h : Tells t (!es.isEmpty) heard) (fs : List Nat) :
    Tells t (!fs.isEmpty) (heard ++ edge t es fs) := by
  by_cases hsame : es.isEmpty = fs.isEmpty
  · have hedge : Coordinator.edge t es fs = [] := by simp [Coordinator.edge, hsame]
    rwa [hedge, List.append_nil, ← hsame]
  · have htold : t.told (heard ++ Coordinator.edge t es fs) = t.told heard ++ [es.isEmpty] := by
      rw [told_append, told_edge_self, if_neg hsame]
    have hturn : es.isEmpty = decide ((t.told heard).length % 2 = 0) := by
      rw [← Bool.not_not es.isEmpty, h.available_eq, ← decide_not, decide_eq_decide]
      omega
    constructor
    · intro k b hk
      rw [htold, List.getElem?_append] at hk
      split at hk
      · exact h.alternate k b hk
      · have hlast : k = (t.told heard).length := by
          have hlt := (List.getElem?_eq_some_iff.mp hk).1
          rw [List.length_singleton] at hlt
          omega
        rw [hlast, Nat.sub_self] at hk
        rw [hlast, ← hturn]
        exact (Option.some.inj hk).symm
    · rw [htold, List.getLastD_concat]
      cases hes : es.isEmpty <;> cases hfs : fs.isEmpty <;> simp_all

theorem Tells.edge_of_ne (h : Tells t available heard) (hne : t ≠ u) (es fs : List Nat) :
    Tells t available (heard ++ Coordinator.edge u es fs) := by
  have htold : t.told (heard ++ Coordinator.edge u es fs) = t.told heard := by
    rw [told_append, told_edge_of_ne hne, List.append_nil]
  exact ⟨by rw [htold]; exact h.alternate, by rw [htold]; exact h.last⟩

end Tells

namespace Scene

variable {ε : Type} {x : Scene}

/-- What was said of each track is what is so. -/
def Exact (x : Scene) : Prop :=
  ∀ t, Tells t (!(x.coordinator.entries t).isEmpty) x.heard

theorem exact_empty : Exact {} := fun t => by
  cases t <;> exact tells_nil _

/-- Every change of a track is told by its edge. -/
theorem Exact.set (h : x.Exact) (t : Track) (es : List Nat) :
    (x.tell fun c => (c.setEntries t es, edge t (c.entries t) es)).Exact := by
  intro u
  by_cases hu : u = t
  · subst hu
    simpa [tell] using (h u).edge es
  · have hentries : (x.coordinator.setEntries t es).entries u = x.coordinator.entries u := by
      cases u <;> cases t <;> first | rfl | exact absurd rfl hu
    simpa [tell, hentries] using (h u).edge_of_ne hu _ _

theorem Exact.forget (h : x.Exact) (item : Nat) : (x.tell (·.forget item)).Exact := by
  have hundo := h.set .undo ((x.coordinator.entries .undo).filter (· != item))
  have hredo := hundo.set .redo ((x.coordinator.entries .redo).filter (· != item))
  have hforget : x.tell (·.forget item) = (x.tell (·.forgetTrack .undo item)).tell
      (·.forgetTrack .redo item) := by
    simp [tell, Coordinator.forget]
  rw [hforget]
  exact hredo

theorem Exact.look (h : x.Exact) (t : Track) (alive : Nat → Bool) : (x.look t alive).Exact := by
  have hp : (x.tell (·.prune t alive)).Exact := h.set t _
  unfold Scene.look
  dsimp only
  split
  · exact hp
  · exact hp

theorem Exact.next (h : x.Exact) (e : Happening ε) : (x.next e).Exact := by
  cases e with
  | add t item => exact h.set t _
  | remove t item => exact h.set t _
  | forget item => exact h.forget item
  | step t alive => exact h.look t alive
  | answer given alive =>
    unfold Scene.next
    dsimp only
    split
    · exact h
    · rename_i t item asked hasked
      have hx : ({ x with asked } : Scene).Exact := h
      split
      · exact Exact.look (hx.set t _) t alive
      · exact hx

theorem Exact.run (h : x.Exact) (hs : List (Happening ε)) : (x.run hs).Exact := by
  induction hs generalizing x with
  | nil => exact h
  | cons e hs ih => exact ih (h.next e)

theorem Exact.tells (h : x.Exact) (t : Track) :
    Tells t (decide (0 < x.coordinator.depth t)) x.heard := by
  have hdepth : decide (0 < x.coordinator.depth t) = !(x.coordinator.entries t).isEmpty := by
    unfold depth
    cases x.coordinator.entries t <;> simp
  rw [hdepth]
  exact h t

end Scene

/-! ## Steps -/

/-- Calls that lead from one state of a coordinator and of its listener to
another, whatever waits meanwhile. -/
def Calls (ε : Type) (c : Coordinator) (heard : List CoordinatorEvent) (c' : Coordinator)
    (heard' : List CoordinatorEvent) : Prop :=
  ∃ hs : List (Happening ε), ∀ asked, Scene.run ⟨c, asked, heard⟩ hs = ⟨c', asked, heard'⟩

section Calls

variable {ε σ : Type} {c c' : Coordinator} {heard heard' : List CoordinatorEvent}

theorem Calls.refl (c : Coordinator) (heard : List CoordinatorEvent) : Calls ε c heard c heard :=
  ⟨[], fun _ => rfl⟩

/-- Items whose state has a listener, and that change the tracks only by calls. -/
structure Items.Plays (items : Items ε σ) (sound : σ → Prop) (heard : σ → List CoordinatorEvent) :
    Prop where
  hears : ∀ {s}, sound s → ∀ e,
    sound (items.announce e s) ∧ heard (items.announce e s) = heard s ++ [e]
  calls : ∀ {s}, sound s → ∀ t item c, sound (items.ask t item c s).2.2 ∧
    Calls ε c (heard s) (items.ask t item c s).2.1 (heard (items.ask t item c s).2.2)

variable {items : Items ε σ} {sound : σ → Prop} {hears : σ → List CoordinatorEvent}

theorem Items.Plays.announceAll (h : items.Plays sound hears) {s : σ} (hs : sound s)
    (es : List CoordinatorEvent) :
    sound (items.announceAll es s) ∧ hears (items.announceAll es s) = hears s ++ es := by
  induction es generalizing s with
  | nil => exact ⟨hs, (List.append_nil _).symm⟩
  | cons e es ih =>
    obtain ⟨hs', he⟩ := h.hears hs e
    obtain ⟨hs'', hes⟩ := ih hs'
    refine ⟨hs'', ?_⟩
    rw [Items.announceAll, List.foldl_cons, ← Items.announceAll, hes, he, List.append_assoc]
    rfl

/-- A loop over items that play is itself a series of calls, from when it looks
for an item to when it ends. -/
theorem Items.Plays.loop_look (h : items.Plays sound hears) {t : Track} {n : Nat}
    {c : Coordinator} {s : σ} {e : Ending ε σ} (hloop : items.loop t n c s = some e)
    (hs : sound s) :
    sound e.state ∧ ∃ hs : List (Happening ε), ∀ asked,
      Scene.run (Scene.look ⟨c, asked, hears s⟩ t (items.alive · s)) hs =
        ⟨e.coordinator, asked, hears e.state⟩ := by
  induction n generalizing c s e with
  | zero => cases hloop
  | succ n ih =>
  obtain ⟨hpruned, hheard⟩ := h.announceAll hs (c.prune t (items.alive · s)).2
  rw [Items.loop] at hloop
  split at hloop
  · rename_i hnil
    cases hloop
    refine ⟨hpruned, [], fun asked => ?_⟩
    rw [Scene.look_of_nil hnil, hheard]
    rfl
  · rename_i item rest hcons
    obtain ⟨hs', hcalls⟩ := h.calls hpruned t item (c.prune t (items.alive · s)).1
    obtain ⟨calls, hrun⟩ := hcalls
    rw [hheard] at hrun
    have hlook : ∀ asked, Scene.run (Scene.look ⟨c, asked, hears s⟩ t (items.alive · s)) calls =
        ⟨(items.ask t item (c.prune t (items.alive · s)).1 _).2.1, (t, item) :: asked,
          hears (items.ask t item (c.prune t (items.alive · s)).1 _).2.2⟩ := fun asked => by
      rw [Scene.look_of_cons hcons]
      exact hrun ((t, item) :: asked)
    split at hloop
    · rename_i c' s' hask
      simp only [hask] at hlook hs'
      obtain ⟨e', hrest, rfl⟩ := Option.map_eq_some_iff.mp hloop
      obtain ⟨hleft, hheard'⟩ := h.announceAll hs' (c'.remove t item).2
      obtain ⟨hsound, more, hmore⟩ := ih hrest hleft
      let left := items.announceAll (c'.remove t item).2 s'
      refine ⟨hsound, calls ++ .answer (.ok false) (items.alive · left) :: more, fun asked => ?_⟩
      rw [Scene.run_append, hlook]
      rw [hheard'] at hmore
      exact hmore asked
    · rename_i answer c' s' hanswer hask
      simp only [hask] at hlook hs'
      cases hloop
      refine ⟨hs', calls ++ [.answer answer fun _ => true], fun asked => ?_⟩
      rw [Scene.run_append, hlook]
      rcases answer with _ | _ | _
      · rfl
      · exact (hanswer rfl).elim
      · rfl

/-- A loop over items that play is a call like any other. -/
theorem Items.Plays.loop (h : items.Plays sound hears) {t : Track} {n : Nat} {c : Coordinator}
    {s : σ} {e : Ending ε σ} (hloop : items.loop t n c s = some e) (hs : sound s) :
    sound e.state ∧ Calls ε c (hears s) e.coordinator (hears e.state) := by
  obtain ⟨hsound, calls, hrun⟩ := h.loop_look hloop hs
  exact ⟨hsound, .step t (items.alive · s) :: calls, hrun⟩

/-- So is the step of a host. -/
theorem Host.step_calls {h : Host ε σ} (hp : h.items.Plays sound hears) (t : Track)
    (c : Coordinator) {s : σ} (hs : sound s) :
    sound (step h t c s).2.2 ∧
      Calls ε c (hears s) (step h t c s).2.1 (hears (step h t c s).2.2) := by
  obtain ⟨asked, hloop⟩ := loop_of_host h t c s
  exact hp.loop (hloop _ (Nat.lt_succ_self _)) hs

/-- Calls keep what was said exact. -/
theorem Calls.exact (h : Calls ε c heard c' heard') (hx : Scene.Exact ⟨c, [], heard⟩) :
    Scene.Exact ⟨c', [], heard'⟩ := by
  obtain ⟨hs, hrun⟩ := h
  rw [← hrun []]
  exact hx.run hs

end Calls

namespace Scene

variable {ε : Type}

/-- The events of a coordinator are exact edges: after any calls, by its owner and
by the items that are asked, each track was told of as it became available and as
it no longer was, in turn. It is so, too, after the step of a host whose items play.
An item without entries is let go of in silence. -/
theorem exact_of_calls (hs : List (Happening ε)) :
    let x := run {} hs
    (∀ t, Tells t (decide (0 < x.coordinator.depth t)) x.heard) ∧
      (∀ {σ : Type} (h : Host ε σ) {sound : σ → Prop} {hears : σ → List CoordinatorEvent},
        h.items.Plays sound hears → ∀ t s, sound s → hears s = x.heard →
          ∀ u, Tells u (decide (0 < (step h t x.coordinator s).2.1.depth u))
            (hears (step h t x.coordinator s).2.2)) ∧
      (∀ t item, item ∉ x.coordinator.entries t →
        (x.next (.remove t item : Happening ε)).heard = x.heard) ∧
      ∀ item, (∀ t, item ∉ x.coordinator.entries t) →
        (x.next (.forget item : Happening ε)).heard = x.heard := by
  intro x
  have hexact : x.Exact := exact_empty.run hs
  refine ⟨hexact.tells, ?_, fun t item hitem => ?_, fun item hitem => ?_⟩
  · intro σ h sound hears hplays t s hsound hheard
    obtain ⟨-, hcalls⟩ := Host.step_calls hplays t x.coordinator hsound
    rw [hheard] at hcalls
    exact (hcalls.exact hexact).tells
  · simp [next, tell, remove, List.erase_of_not_mem hitem, edge_self]
  · have hkept : ∀ t, (x.coordinator.entries t).filter (· != item) = x.coordinator.entries t := by
      intro t
      refine List.filter_eq_self.mpr fun i hi => ?_
      have hne : i ≠ item := fun he => hitem t (he ▸ hi)
      simp [hne]
    simp [next, tell, Coordinator.forget, forgetTrack, hkept, edge_self]

example : (run {} ([.add .undo 1, .step .undo fun _ => true, .remove .undo 1, .add .redo 1,
    .answer (.ok true) fun _ => true] : List (Happening Unit))).heard =
      [.canUndo true, .canUndo false, .canRedo true] := rfl

end Scene

end Coordinator

namespace Script.Bench

open Coordinator

/-! ## Scripted items -/

def heardBy (name : String) (b : Bench) : List CoordinatorEvent :=
  b.log.filterMap fun
    | .heard l e => if l = name then some e else none
    | .asked _ _ => none

/-- One listener goes by the name. -/
def Attends (name : String) (b : Bench) : Prop :=
  (b.listeners.listeners.map (·.2)).count name = 1

variable {name : String} {b : Bench}

theorem announce_eq (e : CoordinatorEvent) (b : Bench) :
    b.announce e =
      { b with log := b.log ++ b.listeners.listeners.map fun l => .heard l.2 e } := by
  have hwrite : ∀ (ls : List (Nat × String)) (b : Bench),
      ls.foldl (fun b l => b.write (.heard l.2 e)) b =
        { b with log := b.log ++ ls.map fun l => .heard l.2 e } := by
    intro ls
    induction ls with
    | nil => simp
    | cons l ls ih =>
      intro b
      rw [List.foldl_cons, ih]
      simp [write]
  exact hwrite _ b

theorem coordinator_announceAll (es : List CoordinatorEvent) (b : Bench) :
    (b.announceAll es).coordinator = b.coordinator := by
  induction es generalizing b with
  | nil => rfl
  | cons e es ih =>
    rw [announceAll, List.foldl_cons, ← announceAll, ih, announce_eq]

theorem Attends.announce (h : b.Attends name) (e : CoordinatorEvent) :
    (b.announce e).Attends name ∧ (b.announce e).heardBy name = b.heardBy name ++ [e] := by
  have hsaid : ∀ ls : List (Nat × String),
      (ls.map fun l => ItemEntry.heard l.2 e).filterMap (fun
        | .heard l e => if l = name then some e else none
        | .asked _ _ => none) = List.replicate ((ls.map (·.2)).count name) e := by
    intro ls
    induction ls with
    | nil => rfl
    | cons l ls ih => by_cases hl : l.2 = name <;> simp [hl, ih, List.replicate_succ]
  rw [announce_eq]
  refine ⟨h, ?_⟩
  unfold heardBy
  rw [List.filterMap_append, hsaid, h]
  rfl

theorem Attends.announceAll (h : b.Attends name) (es : List CoordinatorEvent) :
    (b.announceAll es).Attends name ∧
      (b.announceAll es).heardBy name = b.heardBy name ++ es := by
  induction es generalizing b with
  | nil => exact ⟨h, (List.append_nil _).symm⟩
  | cons e es ih =>
    obtain ⟨hb, he⟩ := h.announce e
    obtain ⟨hb', hes⟩ := ih hb
    refine ⟨hb', ?_⟩
    rw [announceAll, List.foldl_cons, ← announceAll, hes, he, List.append_assoc]
    rfl

/-- What an item reports is a removal and an addition. -/
theorem reports_calls (t : Track) (item : Nat) (c : Coordinator) (heard : List CoordinatorEvent) :
    Calls StoreError c heard (reports t item c).1 (heard ++ (reports t item c).2) := by
  refine ⟨[.remove t item, .add t.opposite item], fun asked => ?_⟩
  simp [Scene.run, Scene.next, Scene.tell, reports]

/-- An item that is asked changes the tracks only by what it reports. -/
theorem host_plays (b : Bench) (t : Track) (name : String) :
    (b.host t).items.Plays (Attends name) (heardBy name) where
  hears hs e := hs.announce e
  calls := by
    intro s hs u item c
    have hasked : ∀ n, (s.write (.asked n t)).heardBy name = s.heardBy name := by
      simp [heardBy, write]
    simp only [Host.items, host, attempt]
    cases s.items.lookup item with
    | none => exact ⟨hs, .refl _ _⟩
    | some i =>
      dsimp only
      by_cases hfail : i.failing = true
      · simp only [hfail, if_true]
        exact ⟨hs, by rw [hasked]; exact .refl _ _⟩
      by_cases hcount : i.count t = 0
      · simp only [hfail, hcount, Bool.false_eq_true, if_true, if_false]
        exact ⟨hs, by rw [hasked]; exact .refl _ _⟩
      by_cases hauto : i.auto = true
      · simp only [hfail, hcount, hauto, Bool.false_eq_true, if_true, if_false]
        have hmoved : ((s.write (.asked i.name t)).setItem item (Item.move t)).Attends name := hs
        obtain ⟨hs', hheard⟩ := hmoved.announceAll (reports t item c).2
        refine ⟨hs', ?_⟩
        rw [hheard, ← hasked i.name]
        exact reports_calls t item c _
      · simp only [hfail, hcount, hauto, Bool.false_eq_true, if_false]
        exact ⟨hs, by rw [← hasked i.name]; exact .refl _ _⟩

/-- What may happen on a bench. All that touches neither the coordinator nor what
the listener heard comes under `other`. -/
inductive Uses (name : String) (b : Bench) : Bench → Prop
  | add (t : Track) (item : Nat) : Uses name b (b.tell (·.add t item))
  | remove (t : Track) (item : Nat) : Uses name b (b.tell (·.remove t item))
  | forget (item : Nat) : Uses name b (b.tell (·.forget item))
  | step (t : Track) : Uses name b (b.step t).2
  | other {b' : Bench} (hc : b'.coordinator = b.coordinator)
      (hh : b'.heardBy name = b.heardBy name) (ha : b'.Attends name) : Uses name b b'

/-- Telling the coordinator something is a call. -/
theorem Attends.tell (h : b.Attends name) (call : Happening StoreError)
    {act : Coordinator → Coordinator × List CoordinatorEvent}
    (hcall : ∀ x : Scene, x.next call = x.tell act) :
    (b.tell act).Attends name ∧
      Calls StoreError b.coordinator (b.heardBy name) (b.tell act).coordinator
        ((b.tell act).heardBy name) := by
  have htold : ({ b with coordinator := (act b.coordinator).1 } : Bench).Attends name := h
  obtain ⟨hb, hheard⟩ := htold.announceAll (act b.coordinator).2
  refine ⟨hb, [call], fun asked => ?_⟩
  change Scene.next _ call = _
  rw [hcall, Bench.tell, coordinator_announceAll]
  exact congrArg _ hheard.symm

theorem Uses.calls {b' : Bench} (h : Uses name b b') (hb : b.Attends name) :
    b'.Attends name ∧
      Calls StoreError b.coordinator (b.heardBy name) b'.coordinator (b'.heardBy name) := by
  cases h with
  | add t item => exact hb.tell (.add t item) fun x => rfl
  | remove t item => exact hb.tell (.remove t item) fun x => rfl
  | forget item => exact hb.tell (.forget item) fun x => rfl
  | step t => exact Host.step_calls (host_plays b t name) t b.coordinator hb
  | other hc hh ha =>
    rw [hc, hh]
    exact ⟨ha, .refl _ _⟩

/-- On a bench, too, a listener from the start hears the exact edges. -/
theorem tells_of_uses {b' : Bench} (h : Relation.ReflTransGen (Uses name) b b')
    (hb : b.Attends name) (hc : b.coordinator = {}) (hh : b.heardBy name = []) (t : Track) :
    Tells t (!(b'.coordinator.entries t).isEmpty) (b'.heardBy name) := by
  have hexact : b'.Attends name ∧ Scene.Exact ⟨b'.coordinator, [], b'.heardBy name⟩ := by
    induction h with
    | refl =>
      rw [hc, hh]
      exact ⟨hb, Scene.exact_empty⟩
    | tail _ huse ih =>
      obtain ⟨ha, hcalls⟩ := huse.calls ih.1
      exact ⟨ha, hcalls.exact ih.2⟩
  exact hexact.2 t

end Script.Bench

end LiveRecords
