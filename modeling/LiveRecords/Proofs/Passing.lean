import LiveRecords.Proofs.Delivery

/-!
# What passes through a command

A command on a record runs statements, changes the record, tells the coordinator
and has listeners hear, who may answer with commands of their own. A relation
between workspaces that composes and holds for each of these steps holds for all
that a command sets off.
-/

namespace LiveRecords.Workspace

/-- A relation that composes and holds for each step of a command. -/
structure Passing (R : Workspace → Workspace → Prop) : Prop where
  refl : ∀ w, R w w
  trans : ∀ {w₁ w₂ w₃}, R w₁ w₂ → R w₂ w₃ → R w₁ w₃
  /-- Listeners write down what they hear of records and coordinators. -/
  write : ∀ (w : Workspace) {h : Heard}, (∀ l e, h ≠ .view l e) → R w (w.write h)
  /-- Whatever becomes of a record, it keeps its key. -/
  setRecord : ∀ (w : Workspace) (r : RecordRef) (f : Instance → Instance),
    (∀ i, w.records[r]? = some i → (f i).record.id = i.record.id) → R w (w.setRecord r f)
  setHub : ∀ (w : Workspace) (h : HubRef) (f : Hub → Hub), R w (w.setHub h f)
  /-- A record runs its statements. -/
  statements : ∀ (w : Workspace) (c : ConnectionRef) (x : Record) (command : Record.Command),
    R w (w.through c fun l => x.run l command).2

namespace Passing

variable {R : Workspace → Workspace → Prop} (hR : Passing R)

include hR

theorem foldl {α : Type} {f : Workspace → α → Workspace} (h : ∀ w a, R w (f w a)) (as : List α)
    (w : Workspace) : R w (as.foldl f w) :=
  foldl_related hR.refl hR.trans f h as w

theorem announce (h : HubRef) (e : CoordinatorEvent) (w : Workspace) :
    R w (Workspace.announce h e w) := by
  unfold Workspace.announce
  split
  · exact hR.refl w
  · exact hR.foldl (fun w _ => hR.write w (by simp)) _ w

theorem tell (w : Workspace) (h : HubRef)
    (act : Coordinator → Coordinator × List CoordinatorEvent) : R w (w.tell h act) :=
  hR.trans (hR.setHub w h _) (hR.foldl (fun w e => hR.announce h e w) _ _)

/-- The relation holds for whatever is done with commands. -/
def Allows (R : Workspace → Workspace → Prop) (act : Act) : Prop := ∀ r c w, R w (act r c w).2

variable {act : Act}

theorem hear (ha : Allows R act) (r : RecordRef) (e : RecordEvent) (l : Nat × RecordListener)
    (w : Workspace) : R w (Workspace.hear act r e l w) := by
  unfold Workspace.hear
  dsimp only
  split
  · exact hR.write w (by simp)
  · next c _ =>
    have hdisarm : ∀ w : Workspace, R w (w.disarm r l.1) :=
      fun w => hR.setRecord w r _ fun _ _ => rfl
    exact hR.trans (hR.write w (by simp)) (hR.trans (hdisarm _)
      (hR.trans (ha r c _) (hR.write _ (by simp))))

theorem deliver (ha : Allows R act) (r : RecordRef) (w : Workspace) (e : RecordEvent) :
    R w (Workspace.deliver act r w e) := by
  unfold Workspace.deliver
  split
  · exact hR.refl w
  · exact hR.foldl (fun w l => hR.hear ha r e l w) _ w

theorem carryOutWith (ha : Allows R act) (r : RecordRef) (e : Effect) (w : Workspace)
    (hid : ∀ i, w.records[r]? = some i → e.record.id = i.record.id) :
    R w (Workspace.carryOutWith act r e w) := by
  unfold Workspace.carryOutWith
  split
  · exact hR.refl w
  · exact hR.trans (hR.setRecord w r _ hid) (hR.trans (hR.foldl (fun w _ => hR.tell w _ _) _ _)
      (hR.foldl (fun w e => hR.deliver ha r w e) _ _))

theorem runWith (ha : Allows R act) : Allows R (Workspace.runWith act) := by
  intro r c w
  unfold Workspace.runWith
  split
  · exact hR.refl w
  · next i hi =>
    refine hR.trans (hR.statements w i.connection i.record c) (hR.carryOutWith ha r _ _ ?_)
    intro j hj
    rw [records_through, hi] at hj
    cases hj
    exact (i.record.run_remains (w.link i.connection) c).1

/-- By induction on the reactions that are left. -/
theorem runNested (n : Nat) : Allows R (Workspace.runNested n) := by
  induction n with
  | zero => exact hR.runWith fun _ _ w => hR.refl w
  | succ n ih => exact hR.runWith ih

theorem run (r : RecordRef) (c : Record.Command) (w : Workspace) : R w (w.run r c).2 :=
  hR.runNested (w.armed r) r c w

/-- A record takes in a row. -/
theorem hydrate {w : Workspace} {r : RecordRef} {i : Instance} (hi : w.records[r]? = some i)
    (image : RowImage) : R w (w.carryOut r (i.record.hydrate image)) := by
  refine hR.carryOutWith (hR.runNested (w.armed r)) r _ w fun j hj => ?_
  cases hi.symm.trans hj
  exact (i.record.hydrate_remains image).1

/-- A record is placed below another one. -/
theorem place {w : Workspace} {r : RecordRef} {i : Instance} (hi : w.records[r]? = some i)
    (parent : Option RecordId) : R w (w.carryOut r (i.record.setParent parent)) := by
  refine hR.carryOutWith (hR.runNested (w.armed r)) r _ w fun j hj => ?_
  cases hi.symm.trans hj
  exact (i.record.setParent_remains parent).1

end Passing

theorem maps_through {α : Type} (w : Workspace) (c : ConnectionRef) (f : Link → α × Link) :
    (w.through c f).2.maps = w.maps := by
  unfold through setLink
  cases w.connections[c]? <;> rfl

/-- A command leaves all identity maps. -/
theorem passing_maps : Passing fun w w' => w'.maps = w.maps where
  refl _ := rfl
  trans h h' := h'.trans h
  write _ _ _ := rfl
  setRecord _ _ _ _ := rfl
  setHub _ _ _ := rfl
  statements w c x command := maps_through w c fun l => x.run l command

end LiveRecords.Workspace
