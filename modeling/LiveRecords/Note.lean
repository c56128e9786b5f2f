import LiveRecords.Note.Metadata
import LiveRecords.Record
import LiveRecords.Schema

/-!
# Notes

A record type with a title, metadata, and a parent. What a note says of itself
is read from its record and written to it.
-/

namespace LiveRecords.Note

def titleField : String := "title"

def metadataField : String := "metadata"

/-- The type of notes, before it is checked. -/
def draft : Draft :=
  Draft.selfReferencing
    { table := "Note"
      fields := [⟨titleField, .text, true⟩, ⟨metadataField, .blob, false⟩] }

/-- A note without a title has an empty one. -/
def title (r : Record) : Except StoreError String :=
  (r.get titleField).map fun v => v.asText?.getD ""

/-- A note without metadata has none of the tags and no pin. -/
def metadata (r : Record) : Except StoreError Metadata :=
  match r.get metadataField with
  | .error e => .error e
  | .ok v =>
    match v.decode Metadata.read with
    | .ok m => .ok (m.getD {})
    | .error _ => .error (.invalidInput .noteUnreadable)

end LiveRecords.Note
