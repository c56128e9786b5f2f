import LiveRecords.Link
import LiveRecords.Record

/-!
# Editing records

Operations that touch no store: assigning and discarding values, staging a
deletion, and taking in what was read from the store.
-/

namespace LiveRecords.Record

/-- Assigns a field; false when it holds that value already. An edit discards
what could have been redone. -/
def set (r : Record) (field : String) (v : Value) : Except StoreError Bool × Effect :=
  match r.slotOf field with
  | .error e => (.error e, r.unchanged)
  | .ok s =>
    if !v.fits s.field.type s.field.notNull then
      (.error (.typeMismatch field s.field.type.sqlName v.typeName), r.unchanged)
    else if s.current = v then (.ok false, r.unchanged)
    else
      let cleared := List.replicate r.redo.length (Notice.lost .redo)
      (.ok true, { r.setSlot (s.assign v) with redo := [] }.effect cleared [.field field])

/-- Gives up the edit of a field; false when there is none. -/
def discard (r : Record) (field : String) : Except StoreError Bool × Effect :=
  match r.slotOf field with
  | .error e => (.error e, r.unchanged)
  | .ok s =>
    if s.dirty then (.ok true, (r.setSlot s.revert).effect [] [.field field])
    else (.ok false, r.unchanged)

/-- Gives up the edits of all fields. -/
def discardAll (r : Record) : Effect :=
  { r with slots := r.slots.map fun (s : Slot) => if s.dirty then s.revert else s }.effect []
    (r.dirtyFields.map .field)

/-- Marks the row for deletion, which happens when the record is let go. -/
def stageDelete (r : Record) : Effect :=
  if r.deletePending then r.unchanged
  else { record := { r with deletePending := true }, events := [.pendingDelete true] }

/-- A new parent, as it is stored. -/
def setParent (r : Record) (parent : Option RecordId) : Effect :=
  if r.parent = parent then r.unchanged
  else { record := { r with parent }, events := [.parent parent] }

/-- Whether a stored value brings news to a slot. -/
def isNews (s : Slot) (v : Value) : Bool :=
  !s.dirty && (s.current != v || s.baseline != v)

/-- Takes in stored values in the order of the fields; slots with an edit keep
what they hold. -/
def takeIn : List Slot → List Value → List Slot × List String
  | s :: ss, v :: vs =>
    let (slots, changed) := takeIn ss vs
    if isNews s v then (.clean s.field v :: slots, s.name :: changed)
    else (s :: slots, changed)
  | ss, _ => (ss, [])

/-- Takes in a stored row. -/
def hydrate (r : Record) (image : RowImage) : Effect :=
  let (slots, changed) := takeIn r.slots image.values
  let e := { r with slots }.setParent image.parent
  { e with events := changed.map .field ++ e.events }

theorem takeIn_length (ss : List Slot) (vs : List Value) :
    (takeIn ss vs).1.length = ss.length := by
  fun_induction takeIn ss vs <;> simp_all

end LiveRecords.Record
