import LiveRecords.Link
import LiveRecords.Record

/-!
# Undo and redo

Replaying a change set exchanges its values with the record's own and writes
them through, field by field in the order of the schema. What was exchanged
goes onto the other stack, an edit that was pending included, so that the
opposite replay brings it back. After a write that fails nothing more is
written, and fields that differ from what is stored are dirty.
-/

namespace LiveRecords.Record

structure Replayed where
  slots : List Slot
  changes : ChangeSet
  /-- The fields whose current value changed, in order. -/
  changed : List String := []
  failure : Option StoreError := none

/-- Writes a slot through, unless a write failed before. -/
def writeThrough (s : Schema) (id : RecordId) (slot : Slot) (failure : Option StoreError)
    (l : Link) : Slot × Option StoreError × Link :=
  match failure with
  | some e => ({ slot with dirty := slot.current != slot.baseline }, some e, l)
  | none =>
    match l.updateField s id slot.name slot.current with
    | (.ok _, l) => (slot.settle, none, l)
    | (.error e, l) => ({ slot with dirty := slot.current != slot.baseline }, some e, l)

def replaySlots (s : Schema) (id : RecordId) :
    List Slot → ChangeSet → Option StoreError → Link → Replayed × Link
  | [], changes, failure, l => ({ slots := [], changes, failure }, l)
  | slot :: rest, changes, failure, l =>
    match changes.swap? slot.name slot.current with
    | none =>
      let (r, l) := replaySlots s id rest changes failure l
      ({ r with slots := slot :: r.slots }, l)
    | some (restored, changes) =>
      let (written, failure, l) := writeThrough s id { slot with current := restored } failure l
      let (r, l) := replaySlots s id rest changes failure l
      ({ r with
          slots := written :: r.slots
          changed := if slot.current = restored then r.changed else slot.name :: r.changed }, l)

/-- Replays the newest change set of a track; false when there is none. -/
def replay (t : Track) (r : Record) (l : Link) : (Except StoreError Bool × Effect) × Link :=
  match r.stack t with
  | [] => ((.ok false, r.unchanged), l)
  | c :: older =>
    let (done, l) := replaySlots r.schema r.id r.slots c none l
    let after := ({ r with slots := done.slots }.setStack t older).setStack t.opposite
      (done.changes :: r.stack t.opposite)
    let result :=
      match done.failure with
      | none => .ok true
      | some e => .error e
    ((result, after.effect [.lost t, .gained t.opposite] (done.changed.map .field)), l)

theorem replay_nil {t : Track} {r : Record} (h : r.stack t = []) (l : Link) :
    r.replay t l = ((.ok false, r.unchanged), l) := by
  simp [replay, h]

end LiveRecords.Record
