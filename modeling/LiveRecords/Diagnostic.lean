import LiveRecords.Statement
import LiveRecords.StoreError
import LiveRecords.Text.Quoted

/-!
# Diagnostics

What the store reports about its own work, in order. Each report has a level,
a source, a message and named details.
-/

namespace LiveRecords

inductive Level where
  | error
  | warn
  | info
  | debug
  | trace
  deriving DecidableEq, Repr

namespace Level

def label : Level → String
  | .error => "ERROR"
  | .warn => "WARN"
  | .info => "INFO"
  | .debug => "DEBUG"
  | .trace => "TRACE"

/-- Position from the most to the least severe. -/
def rank : Level → Nat
  | .error => 1
  | .warn => 2
  | .info => 3
  | .debug => 4
  | .trace => 5

end Level

/-- A detail: a text, shown between quotes on a line, or something shown bare. -/
inductive Detail where
  | text (s : String)
  | bare (s : String)
  deriving DecidableEq

def Detail.content : Detail → String
  | .text s | .bare s => s

/-- One report. -/
structure Report where
  level : Level
  source : String
  message : String
  details : List (String × Detail)
  deriving DecidableEq

/-- The message counts as a detail. -/
def Report.detailNames (r : Report) : List String := "message" :: r.details.map Prod.fst

/-- The report as a line of text, without its time. -/
def Report.line (r : Report) : String :=
  r.level.label ++ " " ++ r.source ++ ": " ++ r.message ++
    String.join (r.details.map fun (name, d) =>
      " " ++ name ++ "=" ++ match d with
        | .text s => Text.quoted s
        | .bare s => s)

inductive Diagnostic where
  | databaseOpened (path : String)
  | storeOpened (storage : String) (fetchSize : Nat)
  | typeRegistered (table : String)
  | statement (s : Statement)
  | refused (s : Statement) (e : Table.Refusal)
  | undecodable (s : Statement) (e : StoreError)
  | recordRegistered (table : String) (id : RecordId) (isNew : Bool)
  | recordReleased (table : String) (id : RecordId)
  | recordDeleted (table : String) (id : RecordId)
  | recordInserted (table : String) (id : RecordId)
  | commitStopped (table : String) (id : RecordId) (field : String) (persisted : List String)
  /-- What the program that uses the store reports. -/
  | remark (r : Report)
  deriving DecidableEq

namespace Diagnostic

def storeSource : String := "rr_storage::context"
def databaseSource : String := "rr_storage::database"
def statementSource : String := "rr_storage::sql"
def registrySource : String := "rr_storage::identity_map"
def recordSource : String := "rr_storage::record"

def report : Diagnostic → Report
  | .databaseOpened path =>
    ⟨.debug, databaseSource, "opened record database", [("path", .bare path)]⟩
  | .storeOpened storage fetchSize =>
    ⟨.info, storeSource, "record store opened",
      [("storage", .bare storage), ("fetch_size", .bare (toString fetchSize))]⟩
  | .typeRegistered table =>
    ⟨.debug, storeSource, "record type registered", [("table", .text table)]⟩
  | .statement s =>
    ⟨.trace, statementSource, if s.kind = .select then "query" else "execute",
      [("kind", .text s.kind.label), ("sql", .text s.text)]⟩
  | .refused s e =>
    ⟨.error, databaseSource, "statement failed",
      [("kind", .text s.kind.label), ("sql", .text s.text), ("error", .bare e.message)]⟩
  | .undecodable s e =>
    ⟨.error, databaseSource, "row decoding failed",
      [("sql", .text s.text), ("error", .bare e.message)]⟩
  | .recordRegistered table id isNew =>
    ⟨.debug, registrySource, "record registered",
      [("table", .text table), ("id", .bare id.text), ("is_new", .bare (toString isNew))]⟩
  | .recordReleased table id =>
    ⟨.debug, registrySource, "record released", [("table", .text table), ("id", .bare id.text)]⟩
  | .recordDeleted table id =>
    ⟨.debug, registrySource, "staged delete executed",
      [("table", .text table), ("id", .bare id.text)]⟩
  | .recordInserted table id =>
    ⟨.debug, recordSource, "record inserted", [("table", .text table), ("id", .bare id.text)]⟩
  | .commitStopped table id field persisted =>
    ⟨.error, recordSource, "commit stopped after a failed field update",
      [("table", .text table), ("id", .bare id.text), ("failed_field", .text field),
        ("persisted", .bare (Text.quotedList persisted))]⟩
  | .remark r => r

end Diagnostic

end LiveRecords
