import LiveRecords.Link
import LiveRecords.Record

/-!
# Committing records

A new record, or one whose deletion is staged, is written as a whole row and
gains no history. Any other commit writes the dirty fields one by one, in the
order of the schema, and stops at the first that fails; the fields before it
stay written, and what they held becomes a change set.
-/

namespace LiveRecords.Record

inductive CommitOutcome where
  | inserted
  | updated (fields : List String)
  | unchanged
  deriving DecidableEq, Repr

/-- The outcome as diagnostics show it. -/
def CommitOutcome.describe : CommitOutcome → String
  | .inserted => "Inserted"
  | .updated fields => "Updated \x7b fields: " ++ Text.quotedList fields ++ " \x7d"
  | .unchanged => "Unchanged"

def commitRow (r : Record) (l : Link) : (Except StoreError CommitOutcome × Effect) × Link :=
  match l.insertRow r.schema r.id (r.slots.map (·.current)) r.parent with
  | (.error e, l) => ((.error e, r.unchanged), l)
  | (.ok _, l) =>
    let written :=
      { r with isNew := false, deletePending := false, slots := r.slots.map Slot.settle }
    let restored := if r.deletePending then [RecordEvent.pendingDelete false] else []
    ((.ok .inserted, written.effect [] restored), l.report (.recordInserted r.table r.id))

/-- The slots after their dirty values were written, up to a failure. -/
structure Written where
  slots : List Slot
  /-- What the written fields held before, in order. -/
  previous : List (String × Value) := []
  failure : Option (String × StoreError) := none

/-- Puts a slot in front that was not to be written. -/
def Written.skip (w : Written) (s : Slot) : Written := { w with slots := s :: w.slots }

/-- Puts a slot in front that was written. -/
def Written.save (w : Written) (s : Slot) : Written :=
  { w with slots := s.settle :: w.slots, previous := (s.name, s.baseline) :: w.previous }

def writeDirty (s : Schema) (id : RecordId) : List Slot → Link → Written × Link
  | [], l => ({ slots := [] }, l)
  | slot :: rest, l =>
    if slot.dirty then
      match l.updateField s id slot.name slot.current with
      | (.ok _, l) =>
        let (w, l) := writeDirty s id rest l
        (w.save slot, l)
      | (.error e, l) => ({ slots := slot :: rest, failure := some (slot.name, e) }, l)
    else
      let (w, l) := writeDirty s id rest l
      (w.skip slot, l)

/-- The change set of a commit. -/
def Written.changes (w : Written) : ChangeSet :=
  w.previous.foldl (fun c e => c.record e.1 e.2) {}

def Written.persisted (w : Written) : List String := w.previous.map (·.1)

/-- What a commit that wrote fields answers, and what it reports. -/
def Written.result (w : Written) (r : Record) (l : Link) :
    Except StoreError CommitOutcome × Link :=
  match w.failure with
  | none => (.ok (if w.persisted.isEmpty then .unchanged else .updated w.persisted), l)
  | some (field, e) =>
    if w.persisted.isEmpty then (.error e, l)
    else (.error (.partialCommit r.table field w.persisted e),
      l.report (.commitStopped r.table r.id field w.persisted))

def commitFields (r : Record) (l : Link) : (Except StoreError CommitOutcome × Effect) × Link :=
  let (w, l) := writeDirty r.schema r.id r.slots l
  let (result, l) := w.result r l
  let r := { r with slots := w.slots }
  if w.changes.isEmpty then ((result, r.effect [] []), l)
  else ((result, { r with undo := w.changes :: r.undo }.effect [.gained .undo] []), l)

def commit (r : Record) (l : Link) : (Except StoreError CommitOutcome × Effect) × Link :=
  if r.isNew || r.deletePending then r.commitRow l else r.commitFields l

theorem writeDirty_clean (s : Schema) (id : RecordId) {slots : List Slot} (l : Link)
    (h : ∀ t ∈ slots, t.dirty = false) : writeDirty s id slots l = ({ slots }, l) := by
  induction slots with
  | nil => rfl
  | cons t ts ih =>
    simp [writeDirty, h t (by simp), ih fun u hu => h u (by simp [hu]), Written.skip]

end LiveRecords.Record
