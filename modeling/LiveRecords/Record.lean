import LiveRecords.ChangeSet
import LiveRecords.Coordinator
import LiveRecords.Schema
import LiveRecords.StoreError

/-!
# Records

A record holds, for each field, its current value and its baseline, which is
the value last known to be stored. A field is dirty when the two differ. Two
stacks of change sets remember what commits wrote and what undo took back.

An operation on a record is a function from the record to the record after it,
together with what the coordinator is told and what listeners hear. Nothing
here knows who listens.
-/

namespace LiveRecords

structure Slot where
  field : Field
  current : Value
  baseline : Value
  dirty : Bool := false
  deriving DecidableEq

namespace Slot

def name (s : Slot) : String := s.field.name

/-- A clean slot that holds a value. -/
def clean (f : Field) (v : Value) : Slot := ⟨f, v, v, false⟩

/-- A new current value; the baseline stays. -/
def assign (s : Slot) (v : Value) : Slot :=
  { s with current := v, dirty := v != s.baseline }

/-- Back to the baseline. -/
def revert (s : Slot) : Slot := { s with current := s.baseline, dirty := false }

/-- The current value becomes the baseline. -/
def settle (s : Slot) : Slot := { s with baseline := s.current, dirty := false }

@[simp] theorem name_assign (s : Slot) (v : Value) : (s.assign v).name = s.name := rfl
@[simp] theorem name_revert (s : Slot) : s.revert.name = s.name := rfl
@[simp] theorem name_settle (s : Slot) : s.settle.name = s.name := rfl
@[simp] theorem field_assign (s : Slot) (v : Value) : (s.assign v).field = s.field := rfl
@[simp] theorem field_revert (s : Slot) : s.revert.field = s.field := rfl
@[simp] theorem field_settle (s : Slot) : s.settle.field = s.field := rfl

end Slot

inductive RecordEvent where
  | field (name : String)
  | dirty (b : Bool)
  | canUndo (b : Bool)
  | canRedo (b : Bool)
  | pendingDelete (b : Bool)
  | parent (id : Option RecordId)
  deriving DecidableEq

/-- What a record tells the coordinator. -/
inductive Notice where
  | gained (t : Track)
  | lost (t : Track)
  deriving DecidableEq, Repr

def Notice.apply (n : Notice) (item : Nat) (c : Coordinator) :
    Coordinator × List CoordinatorEvent :=
  match n with
  | .gained t => c.add t item
  | .lost t => c.remove t item

structure Record where
  id : RecordId
  schema : Schema
  slots : List Slot
  /-- Whether no row of this record has been written or read yet. -/
  isNew : Bool
  deletePending : Bool := false
  parent : Option RecordId := none
  /-- What undo would take back, newest first. -/
  undo : List ChangeSet := []
  /-- What redo would bring back, newest first. -/
  redo : List ChangeSet := []
  /-- The flags as listeners last heard them. -/
  dirty : Bool := false
  canUndo : Bool := false
  canRedo : Bool := false
  deriving DecidableEq

/-- A record after an operation, with what was told and heard. Notices go out
before events. -/
structure Effect where
  record : Record
  notices : List Notice := []
  events : List RecordEvent := []
  deriving DecidableEq

namespace Record

/-- A record that holds initial values. -/
def initial (id : RecordId) (s : Schema) (isNew : Bool) : Record :=
  { id, schema := s, isNew, slots := s.fields.map fun f => .clean f f.initialValue }

def table (r : Record) : String := r.schema.table

def slot? (r : Record) (field : String) : Option Slot := r.slots.find? (·.name == field)

/-- The slot of a field, which must exist. -/
def slotOf (r : Record) (field : String) : Except StoreError Slot :=
  match r.slot? field with
  | some s => .ok s
  | none => .error (.unknownField r.table field)

/-- Replaces the slot of a field. -/
def setSlot (r : Record) (s : Slot) : Record :=
  { r with slots := r.slots.map fun t => if t.name = s.name then s else t }

def get (r : Record) (field : String) : Except StoreError Value :=
  (r.slotOf field).map (·.current)

def isFieldDirty (r : Record) (field : String) : Except StoreError Bool :=
  (r.slotOf field).map (·.dirty)

/-- The current values, in the order of the fields. -/
def values (r : Record) : List (String × Value) := r.slots.map fun s => (s.name, s.current)

def dirtyFields (r : Record) : List String := (r.slots.filter (·.dirty)).map (·.name)

def stack (r : Record) : Track → List ChangeSet
  | .undo => r.undo
  | .redo => r.redo

def setStack (r : Record) (t : Track) (cs : List ChangeSet) : Record :=
  match t with
  | .undo => { r with undo := cs }
  | .redo => { r with redo := cs }

def depth (r : Record) (t : Track) : Nat := (r.stack t).length

/-- The record as diagnostics show it. -/
def describe (r : Record) : String :=
  "Record \x7b table: " ++ Text.quoted r.table ++ ", id: " ++ r.id.describe ++
    ", is_new: " ++ toString r.isNew ++ ", delete_pending: " ++ toString r.deletePending ++
    ", dirty: " ++ toString r.dirty ++ " \x7d"

/-! ## Flags -/

/-- The event for a flag that listeners last heard as `before`. -/
def change (event : Bool → RecordEvent) (before now : Bool) : List RecordEvent :=
  if now = before then [] else [event now]

/-- Brings the flags up to date, with the events that announce it. -/
def refresh (r : Record) : Record × List RecordEvent :=
  let dirty := r.slots.any (·.dirty)
  let canUndo := !r.undo.isEmpty
  let canRedo := !r.redo.isEmpty
  ({ r with dirty, canUndo, canRedo },
    change .dirty r.dirty dirty ++ change .canUndo r.canUndo canUndo ++
      change .canRedo r.canRedo canRedo)

/-- Nothing happened. -/
def unchanged (r : Record) : Effect := { record := r }

/-- The effect that leads to `r`, once its flags are up to date. -/
def effect (r : Record) (notices : List Notice) (events : List RecordEvent) : Effect :=
  { record := r.refresh.1, notices, events := events ++ r.refresh.2 }

@[simp] theorem stack_setStack_self (r : Record) (t : Track) (cs : List ChangeSet) :
    (r.setStack t cs).stack t = cs := by
  cases t <;> rfl

@[simp] theorem stack_setStack_opposite (r : Record) (t : Track) (cs : List ChangeSet) :
    (r.setStack t cs).stack t.opposite = r.stack t.opposite := by
  cases t <;> rfl

@[simp] theorem change_self (event : Bool → RecordEvent) (b : Bool) : change event b b = [] := by
  simp [change]

end Record

end LiveRecords
