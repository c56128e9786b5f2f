/-!
# The undo coordinator

Across records, undo and redo go by recency. Each track lists, newest first,
the record that gained each change set; a record with several change sets has
several entries. Listeners are told when a track becomes empty or stops being
so. An entry does not keep its record alive.
-/

namespace LiveRecords

inductive Track where
  | undo
  | redo
  deriving DecidableEq, Repr

def Track.opposite : Track → Track
  | .undo => .redo
  | .redo => .undo

inductive CoordinatorEvent where
  | canUndo (available : Bool)
  | canRedo (available : Bool)
  deriving DecidableEq, Repr

def CoordinatorEvent.describe : CoordinatorEvent → String
  | .canUndo b => "CanUndoChanged(" ++ toString b ++ ")"
  | .canRedo b => "CanRedoChanged(" ++ toString b ++ ")"

def Track.event : Track → Bool → CoordinatorEvent
  | .undo, b => .canUndo b
  | .redo, b => .canRedo b

structure Coordinator where
  undo : List Nat := []
  redo : List Nat := []
  deriving DecidableEq, Repr

namespace Coordinator

def entries (c : Coordinator) : Track → List Nat
  | .undo => c.undo
  | .redo => c.redo

def setEntries (c : Coordinator) : Track → List Nat → Coordinator
  | .undo, es => { c with undo := es }
  | .redo, es => { c with redo := es }

def depth (c : Coordinator) (t : Track) : Nat := (c.entries t).length

/-- Whether a track has an entry of a living item. -/
def available (c : Coordinator) (alive : Nat → Bool) (t : Track) : Bool :=
  (c.entries t).any alive

/-- The event for a track whose entries went from `before` to `after`. -/
def edge (t : Track) (before after : List Nat) : List CoordinatorEvent :=
  if before.isEmpty = after.isEmpty then [] else [t.event before.isEmpty]

/-- An item gained a change set. -/
def add (c : Coordinator) (t : Track) (item : Nat) : Coordinator × List CoordinatorEvent :=
  (c.setEntries t (item :: c.entries t), edge t (c.entries t) (item :: c.entries t))

/-- An item lost its newest change set. -/
def remove (c : Coordinator) (t : Track) (item : Nat) : Coordinator × List CoordinatorEvent :=
  let es := (c.entries t).erase item
  (c.setEntries t es, edge t (c.entries t) es)

def forgetTrack (c : Coordinator) (t : Track) (item : Nat) : Coordinator × List CoordinatorEvent :=
  let es := (c.entries t).filter (· != item)
  (c.setEntries t es, edge t (c.entries t) es)

/-- Drops every entry of an item. -/
def forget (c : Coordinator) (item : Nat) : Coordinator × List CoordinatorEvent :=
  let (c, undone) := c.forgetTrack .undo item
  let (c, redone) := c.forgetTrack .redo item
  (c, undone ++ redone)

def describe (c : Coordinator) : String :=
  "UndoRedoCoordinator \x7b undo_entries: " ++ toString c.undo.length ++ ", redo_entries: " ++
    toString c.redo.length ++ " \x7d"

/-! ## Stepping -/

/-- What became of asking an item to undo or redo. An item that had nothing to
do has made no calls of its own. -/
inductive Attempt (ε σ : Type) where
  | nothing (s : σ)
  | applied (c : Coordinator) (s : σ)
  | failed (e : ε) (c : Coordinator) (s : σ)

/-- The surroundings of a coordinator: which items live, who hears of events,
and how an item undoes or redoes its newest change set. -/
structure Host (ε σ : Type) where
  alive : Nat → Bool
  announce : CoordinatorEvent → σ → σ
  attempt : Nat → Coordinator → σ → Attempt ε σ

variable {ε σ : Type}

/-- Goes through the entries, newest first. Entries of dead items and of items
that had nothing to do are dropped; the first that does something decides. -/
def stepEntries (h : Host ε σ) (t : Track) :
    List Nat → Coordinator → σ → Except ε Bool × Coordinator × σ
  | [], c, s => (.ok false, c.setEntries t [], s)
  | item :: rest, c, s =>
    let dropped (s : σ) : σ := (edge t (item :: rest) rest).foldl (fun s e => h.announce e s) s
    if h.alive item then
      match h.attempt item (c.setEntries t (item :: rest)) s with
      | .applied c s => (.ok true, c, s)
      | .failed e c s => (.error e, c, s)
      | .nothing s => stepEntries h t rest c (dropped s)
    else stepEntries h t rest c (dropped s)

/-- Undoes or redoes the newest change set of all; false when there is none. -/
def step (h : Host ε σ) (t : Track) (c : Coordinator) (s : σ) :
    Except ε Bool × Coordinator × σ :=
  stepEntries h t (c.entries t) c s

@[simp] theorem entries_setEntries_self (c : Coordinator) (t : Track) (es : List Nat) :
    (c.setEntries t es).entries t = es := by
  cases t <;> rfl

@[simp] theorem entries_setEntries_opposite (c : Coordinator) (t : Track) (es : List Nat) :
    (c.setEntries t es).entries t.opposite = c.entries t.opposite := by
  cases t <;> rfl

@[simp] theorem setEntries_entries (c : Coordinator) (t : Track) :
    c.setEntries t (c.entries t) = c := by
  cases t <;> rfl

theorem edge_self (t : Track) (es : List Nat) : edge t es es = [] := by
  simp [edge]

end Coordinator

end LiveRecords
