import LiveRecords.Record.Commit
import LiveRecords.Record.Edit
import LiveRecords.Record.Replay

/-!
# Commands

Everything that is asked of one record, as data, and what each command does.
-/

namespace LiveRecords.Record

inductive Command where
  | set (field : String) (v : Value)
  | discard (field : String)
  | discardAll
  | stageDelete
  | commit
  | replay (t : Track)
  deriving DecidableEq

inductive Reply where
  | done
  | flag (b : Bool)
  | committed (o : CommitOutcome)
  deriving DecidableEq

/-- What a command answers, what it does to the record, and the statements it
runs. -/
def run (r : Record) (l : Link) : Command → (Except StoreError Reply × Effect) × Link
  | .set field v => ((Reply.flag <$> (r.set field v).1, (r.set field v).2), l)
  | .discard field => ((Reply.flag <$> (r.discard field).1, (r.discard field).2), l)
  | .discardAll => ((.ok .done, r.discardAll), l)
  | .stageDelete => ((.ok .done, r.stageDelete), l)
  | .commit =>
    let ((result, effect), l) := r.commit l
    ((Reply.committed <$> result, effect), l)
  | .replay t =>
    let ((result, effect), l) := r.replay t l
    ((Reply.flag <$> result, effect), l)

end LiveRecords.Record
