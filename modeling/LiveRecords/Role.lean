import LiveRecords.Schema

/-!
# Roles

What a view shows of a row: the value of a field, the rows below it, or the
record itself.
-/

namespace LiveRecords

inductive Role where
  | field (name : String)
  /-- The rows whose parent is this row. -/
  | children
  | record
  deriving DecidableEq

namespace Role

def name : Role → String
  | .field name => name
  | .children => "children"
  | .record => "record"

/-- The roles of a record type: its fields, its children if rows have parents,
and the record. -/
def ofSchema (s : Schema) : List Role :=
  s.fieldNames.map .field ++ (if s.parentColumn.isSome then [.children] else []) ++ [.record]

/-- The first role with a name. -/
def named? (s : Schema) (name : String) : Option Role :=
  (ofSchema s).find? fun r => r.name == name

theorem record_mem_ofSchema (s : Schema) : .record ∈ ofSchema s := by
  simp [ofSchema]

end Role

end LiveRecords
