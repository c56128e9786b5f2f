import LiveRecords.Predicate.Clause
import LiveRecords.Schema
import LiveRecords.Table.Refusal
import LiveRecords.Volumes

/-!
# Store errors

What can go wrong when records are read, edited or written, and the message
for each.
-/

namespace LiveRecords

/-- A call that cannot be served as it was made. -/
inductive InputFault where
  | fetchSize
  | fetchSetting
  | timeoutSetting
  | valueCount
  | noteUnreadable
  | noteUnwritable
  | readOnlyRole
  | schemaConflict
  | scripted
  deriving DecidableEq, Repr

def InputFault.message : InputFault → String
  | .fetchSize => "fetch size must be positive"
  | .fetchSetting => "RR_FETCH_SIZE must be a positive integer"
  | .timeoutSetting => "RR_BUSY_TIMEOUT_MS must be an integer"
  | .valueCount => "insert must bind one value per schema field"
  | .noteUnreadable => "note metadata is not valid json"
  | .noteUnwritable => "note metadata cannot be encoded"
  | .readOnlyRole => "only field roles are editable"
  | .schemaConflict => "table already registered with a different schema"
  | .scripted => "scripted failure"

/-- A stored row that is no record. -/
inductive RowFault where
  | id (e : RecordId.Error)
  | keyNotBlob
  | invalidText
  | real
  | gone
  deriving DecidableEq, Repr

def RowFault.message : RowFault → String
  | .id e => e.message
  | .keyNotBlob => "record id column must hold a blob"
  | .invalidText => "text column is not valid utf-8"
  | .real => "real values are not supported"
  | .gone => "row no longer exists"

inductive StoreError where
  | io (fault : DiskFault)
  | sql (cause : Table.Refusal)
  | invalidInput (fault : InputFault)
  | schema (cause : SchemaError)
  | predicate (cause : PredicateError)
  | unknownField (table field : String)
  | unknownColumn (table column : String)
  | typeMismatch (field expected actual : String)
  | noParentColumn (table : String)
  | invalidRow (table : String) (fault : RowFault)
  | rowOutOfRange (row rowCount : Nat)
  /-- An update failed after the `persisted` fields were written. -/
  | partialCommit (table field : String) (persisted : List String) (cause : StoreError)
  deriving DecidableEq

namespace StoreError

def message : StoreError → String
  | .io f => "io: " ++ f.message
  | .sql e => "sqlite: " ++ e.message
  | .invalidInput f => "invalid input: " ++ f.message
  | .schema e => "schema: " ++ e.message
  | .predicate e => "predicate: " ++ e.message
  | .unknownField t f => "unknown field (table=" ++ t ++ ", field=" ++ f ++ ")"
  | .unknownColumn t c => "unknown column (table=" ++ t ++ ", column=" ++ c ++ ")"
  | .typeMismatch f expected actual =>
    "type mismatch (field=" ++ f ++ ", expected=" ++ expected ++ ", actual=" ++ actual ++ ")"
  | .noParentColumn t => "table has no parent key column (table=" ++ t ++ ")"
  | .invalidRow t f => "invalid row (table=" ++ t ++ "): " ++ f.message
  | .rowOutOfRange r n =>
    "row out of range (row=" ++ toString r ++ ", row_count=" ++ toString n ++ ")"
  | .partialCommit t f persisted cause =>
    "partial commit (table=" ++ t ++ ", failed_field=" ++ f ++ ", persisted=[" ++
      String.intercalate "," persisted ++ "]): " ++ cause.message

/-- The message of what lies behind the error, if something does. -/
def cause? : StoreError → Option String
  | .io f => some f.message
  | .sql e => some e.message
  | .partialCommit _ _ _ cause => some cause.message
  | _ => none

end StoreError

end LiveRecords
