import LiveRecords.Workspace

/-!
# Delivery

What an operation on a record did is carried out in this order: the record
changes, the coordinator is told and its listeners hear of it, then the
record's own listeners hear every event. A listener that answers with a command
has it carried out, with all it entails, before the next listener hears.

Each answer uses up the reaction it came from, so a record whose listeners have
`n` reactions left nests no deeper than `n`.
-/

namespace LiveRecords.Workspace

/-! ## Coordinators -/

/-- The listeners of a coordinator hear an event. -/
def announce (h : HubRef) (e : CoordinatorEvent) (w : Workspace) : Workspace :=
  match w.hubs[h]? with
  | none => w
  | some hub => hub.listeners.deliver (fun l w => w.write (.coordinator l.2 e)) w

def setCoordinator (w : Workspace) (h : HubRef) (c : Coordinator) : Workspace :=
  w.setHub h fun hub => { hub with coordinator := c }

/-- Tells a coordinator something, with the events that follow. -/
def tell (w : Workspace) (h : HubRef) (act : Coordinator → Coordinator × List CoordinatorEvent) :
    Workspace :=
  let (c, es) := act (w.coordinatorOf h)
  es.foldl (fun w e => announce h e w) (w.setCoordinator h c)

/-! ## Records -/

/-- What a listener sees of a record. -/
def probe (r : Record) : Probe :=
  ⟨r.dirty, r.canUndo, r.canRedo, r.depth .undo, r.depth .redo⟩

/-- The reactions that the listeners of a record have left. -/
def armed (w : Workspace) (r : RecordRef) : Nat :=
  (w.records[r]?).elim 0 fun i => i.listeners.listeners.countP (·.2.once.isSome)

/-- The command with which a listener answers an event, if it still does. -/
def reaction? (w : Workspace) (r : RecordRef) (listener : Nat) (e : RecordEvent) :
    Option Record.Command := do
  let i ← w.records[r]?
  let l ← i.listeners.listeners.lookup listener
  let (event, command) ← l.once
  if event = e then some command else none

def disarm (w : Workspace) (r : RecordRef) (listener : Nat) : Workspace :=
  w.setRecord r fun i =>
    { i with listeners := i.listeners.update listener fun l => { l with once := none } }

/-- A way to have a command carried out. -/
abbrev Act := RecordRef → Record.Command → Workspace → Except StoreError Record.Reply × Workspace

/-- A listener of a record hears an event. -/
def hear (act : Act) (r : RecordRef) (e : RecordEvent) (l : Nat × RecordListener)
    (w : Workspace) : Workspace :=
  let seen := if l.2.probes then (w.records[r]?).map fun i => probe i.record else none
  let w := w.write (.record l.2.name e seen)
  match w.reaction? r l.1 e with
  | none => w
  | some command =>
    let (result, w) := act r command (w.disarm r l.1)
    w.write (.reacted l.2.name result)

/-- The listeners of a record hear an event. -/
def deliver (act : Act) (r : RecordRef) (w : Workspace) (e : RecordEvent) : Workspace :=
  match w.records[r]? with
  | none => w
  | some i => i.listeners.deliver (hear act r e) w

/-- Carries out what an operation did to a record. -/
def carryOutWith (act : Act) (r : RecordRef) (effect : Effect) (w : Workspace) : Workspace :=
  match w.records[r]? with
  | none => w
  | some i =>
    let w := w.setRecord r fun i => { i with record := effect.record }
    let w := effect.notices.foldl (fun w n => w.tell i.hub (n.apply r)) w
    effect.events.foldl (deliver act r) w

/-- Runs a command on a record and carries out what it did. -/
def runWith (act : Act) : Act := fun r command w =>
  match w.records[r]? with
  | none => (.ok .done, w)
  | some i =>
    let ((result, effect), w) := w.through i.connection fun l => i.record.run l command
    (result, carryOutWith act r effect w)

/-- Runs a command whose events may set off up to `n` reactions. -/
def runNested : Nat → Act
  | 0 => runWith fun _ _ w => (.ok .done, w)
  | n + 1 => runWith (runNested n)

/-- Runs a command on a record. -/
def run (r : RecordRef) (command : Record.Command) (w : Workspace) :
    Except StoreError Record.Reply × Workspace :=
  runNested (w.armed r) r command w

/-- Carries out what was done to a record by other means. -/
def carryOut (r : RecordRef) (effect : Effect) (w : Workspace) : Workspace :=
  carryOutWith (runNested (w.armed r)) r effect w

/-! ## Views -/

/-- The listeners of a view hear an event. -/
def announceView (v : ViewRef) (w : Workspace) (e : ViewEvent) : Workspace :=
  match w.views[v]? with
  | none => w
  | some view => view.listeners.deliver (fun l w => w.write (.view l.2 e)) w

end LiveRecords.Workspace
