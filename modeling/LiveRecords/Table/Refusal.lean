/-!
# Refusals

Why the database does not run a statement. A refused statement changes
nothing.
-/

namespace LiveRecords.Table

inductive Refusal where
  /-- The text is no statement: it cannot go on with `token`, at this octet. -/
  | syntaxError (token text : String) (offset : Nat)
  | reservedTable (name : String)
  /-- A new table that is declared with more columns than one can have. -/
  | tooManyColumns (table : String)
  /-- A filter that joins more conditions than a text can nest. -/
  | tooDeep
  /-- A new table whose declaration could not be read back. -/
  | malformedTable (name : String)
  | noSuchTable (name : String)
  | noSuchColumn (name : String)
  /-- A condition names a column the table lacks, at this octet of the text. -/
  | noSuchColumnAt (name text : String) (offset : Nat)
  | noColumnNamed (table column : String)
  /-- A result row lacks the column. -/
  | invalidColumnName (name : String)
  | notNull (table column : String)
  | check (label : String)
  | unique (table : String) (columns : List String)
  /-- A row that lacks what it refers to, or is missed by what refers to it. -/
  | reference
  /-- A reference whose columns are no key of the table it is to. -/
  | referenceMismatch (child parent : String)
  /-- A change whose consequences have consequences without end. -/
  | endless
  /-- A computed column is listed in an insertion. -/
  | insertedComputed (column : String)
  | updatedComputed (column : String)
  /-- A row number that is no integer. -/
  | datatypeMismatch
  /-- No number is left for a new row. -/
  | full
  | frozen
  | patternTooComplex
  | cannotOpen (path : String)
  /-- A database whose journal cannot be made. -/
  | cannotJournal
  /-- A path with a NUL at this octet. -/
  | nulInPath (offset : Nat)
  /-- The database cannot run statements for a reason of its own. -/
  | unavailable (reason : String)
  deriving DecidableEq, Repr

def Refusal.message : Refusal → String
  | .syntaxError token text offset =>
    "near \"" ++ token ++ "\": syntax error in " ++ text ++ " at offset " ++ toString offset
  | .reservedTable n => "object name reserved for internal use: " ++ n
  | .tooManyColumns n => "too many columns on " ++ n
  | .tooDeep => "Expression tree is too large (maximum depth 1000)"
  | .malformedTable n => "malformed database schema (" ++ n ++ ") - near \"(\": syntax error"
  | .noSuchTable n => "no such table: " ++ n
  | .noSuchColumn n => "no such column: " ++ n
  | .noSuchColumnAt n text offset =>
    "no such column: " ++ n ++ " in " ++ text ++ " at offset " ++ toString offset
  | .noColumnNamed t c => "table " ++ t ++ " has no column named " ++ c
  | .invalidColumnName n => "Invalid column name: " ++ n
  | .notNull t c => "NOT NULL constraint failed: " ++ t ++ "." ++ c
  | .check label => "CHECK constraint failed: " ++ label
  | .unique t cs =>
    "UNIQUE constraint failed: " ++ String.intercalate ", " (cs.map fun c => t ++ "." ++ c)
  | .reference => "FOREIGN KEY constraint failed"
  | .referenceMismatch child parent =>
    "foreign key mismatch - \"" ++ child ++ "\" referencing \"" ++ parent ++ "\""
  | .endless => "too many levels of trigger recursion"
  | .insertedComputed c => "cannot INSERT into generated column \"" ++ c ++ "\""
  | .updatedComputed c => "cannot UPDATE generated column \"" ++ c ++ "\""
  | .datatypeMismatch => "datatype mismatch"
  | .full => "database or disk is full"
  | .frozen => "frozen"
  | .patternTooComplex => "LIKE or GLOB pattern too complex"
  | .cannotOpen path => "unable to open database file: " ++ path
  | .cannotJournal => "unable to open database file"
  | .nulInPath offset => "nul byte found in provided data at position: " ++ toString offset
  | .unavailable reason => reason

end LiveRecords.Table
