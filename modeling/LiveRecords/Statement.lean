import LiveRecords.Predicate.Clause
import LiveRecords.Schema
import LiveRecords.Statement.Keyword

/-!
# Statements

The six statements that are ever run for a record type, and their text. The
text is built from pieces that remember where names stand, so that the place
of a name at fault can be told.
-/

namespace LiveRecords

inductive StatementKind where
  | ddl
  | insert
  | update
  | delete
  | select
  deriving DecidableEq, Repr

def StatementKind.label : StatementKind → String
  | .ddl => "ddl"
  | .insert => "insert"
  | .update => "update"
  | .delete => "delete"
  | .select => "select"

/-- What is asked of the table of a record type. -/
inductive Request where
  /-- Make the table unless one of that name exists. -/
  | createTable
  /-- Write a whole row, in place of the row with the same key. -/
  | insertRow (id : RecordId) (values : List Value) (parent : Option RecordId)
  | updateColumn (id : RecordId) (column : String) (value : Value)
  | deleteRow (id : RecordId)
  | selectRows (clause : Clause)
  | selectKeys (clause : Clause) (limit offset : Nat)
  deriving DecidableEq

structure Statement where
  schema : Schema
  request : Request
  deriving DecidableEq

/-- A part of a statement's text. -/
inductive Piece where
  | fixed (text : String)
  | table (name : String)
  /-- A column in a list of columns or to the left of an assignment. -/
  | column (name : String)
  /-- A column at the head of a condition. -/
  | operand (name : String)
  /-- A column at the head of its declaration. -/
  | declared (name : String)
  deriving DecidableEq

namespace Piece

def text : Piece → String
  | .fixed s | .table s | .column s | .operand s | .declared s => s

/-- The text of pieces one after another. -/
def join (ps : List Piece) : String := String.join (ps.map text)

/-- The first word of a text, with the number of blanks before it. -/
def firstWord (s : String) : String × Nat :=
  let cs := s.toList
  (String.ofList ((cs.dropWhile (· == ' ')).takeWhile fun c => c != ' ' && c != ','),
    (cs.takeWhile (· == ' ')).length)

/-- The word after a name, with its place when the name ends at `offset`. -/
def wordAfter (offset : Nat) : List Piece → Option (String × Nat)
  | [] => none
  | p :: _ => let (w, blanks) := firstWord p.text; some (w, offset + blanks)

/-- After a constraint name come at most more constraints: the word that does
not fit, if the declaration goes on or another column follows. -/
def afterConstraintName (offset : Nat) : List Piece → Option (String × Nat)
  | p :: ps =>
    let (w, blanks) := firstWord p.text
    let used := blanks + w.utf8ByteSize
    match firstWord (String.ofList (p.text.toList.drop used)), ps with
    | ("", _), .declared n :: _ =>
      if Keyword.opensConstraint n || Keyword.namesConstraint n then none
      else some (n, offset + p.text.utf8ByteSize)
    | ("", _), _ => none
    | (v, blanks), _ => some (v, offset + used + blanks)
  | [] => none

/-- The first word the pieces cannot go on with, and its place, when they start
at `offset`. -/
def fault? : Nat → List Piece → Option (String × Nat)
  | _, [] => none
  | offset, p :: ps =>
    let next := offset + p.text.utf8ByteSize
    match p with
    | .fixed _ => fault? next ps
    | .table n | .column n => if Keyword.isReserved n then some (n, offset) else fault? next ps
    | .operand n =>
      if Keyword.isReserved n then some (n, offset)
      else if Keyword.opensCall n then wordAfter next ps
      else fault? next ps
    | .declared n =>
      if Keyword.opensConstraint n then wordAfter next ps
      else if Keyword.namesConstraint n then (afterConstraintName next ps).or (fault? next ps)
      else if Keyword.isReserved n then some (n, offset)
      else fault? next ps

/-- The place of the first condition on a column that fails the test. -/
def strayOperand? (known : String → Bool) : Nat → List Piece → Option (String × Nat)
  | _, [] => none
  | offset, p :: ps =>
    let next := offset + p.text.utf8ByteSize
    match p with
    | .operand n => if known n then strayOperand? known next ps else some (n, offset)
    | _ => strayOperand? known next ps

end Piece

namespace Schema

/-- Key, parent and fields, one declaration a line. -/
def createPieces (s : Schema) : List Piece :=
  [.fixed "CREATE TABLE IF NOT EXISTS ", .table s.table,
    .fixed (" (\n    " ++ keyColumn ++ " BLOB NOT NULL,\n    ")] ++
  (s.parentColumn.toList.flatMap fun p => [.declared p, .fixed " BLOB,\n    "]) ++
  (s.fields.flatMap fun f =>
    [.declared f.name,
      .fixed (" " ++ f.type.sqlName ++ (if f.notNull then " NOT NULL" else "") ++ ",\n    ")]) ++
  [.fixed ("PRIMARY KEY (" ++ keyColumn ++ ")\n)")]

/-- The columns an insertion lists: fields, parent, key. -/
def insertColumns (s : Schema) : List String :=
  s.fieldNames ++ s.parentColumn.toList ++ [keyColumn]

/-- Numbered placeholders, separated by commas. -/
def placeholders (n : Nat) : String :=
  String.intercalate "," ((List.range n).map fun i => "?" ++ toString (i + 1))

/-- The row number is carried over from the row with the same key. -/
def insertPieces (s : Schema) : List Piece :=
  let n := s.insertColumns.length
  [.fixed "INSERT OR REPLACE INTO ", .table s.table, .fixed "(rowid"] ++
  (s.insertColumns.flatMap fun c => [.fixed ",", .column c]) ++
  [.fixed ") VALUES ((SELECT rowid FROM ", .table s.table,
    .fixed (" WHERE " ++ keyColumn ++ " = ?" ++ toString n ++ ")," ++ placeholders n ++ ")")]

def updatePieces (s : Schema) (column : String) : List Piece :=
  [.fixed "UPDATE ", .table s.table, .fixed " SET ", .column column,
    .fixed (" = ?1 WHERE " ++ keyColumn ++ " = ?2")]

def deletePieces (s : Schema) : List Piece :=
  [.fixed "DELETE FROM ", .table s.table, .fixed (" WHERE " ++ keyColumn ++ " = ?1")]

/-- The condition of a clause, if it has one. -/
def conditionPieces (k : Clause) : List Piece :=
  if k.isEmpty then []
  else .fixed " WHERE " ::
    ((k.terms.map fun t => [Piece.operand t.column, .fixed t.tail]).intersperse
      [.fixed k.join.separator]).flatten

def selectPieces (s : Schema) (k : Clause) : List Piece :=
  [.fixed "SELECT * FROM ", .table s.table] ++ conditionPieces k ++ [.fixed " ORDER BY rowid"]

def keysPieces (s : Schema) (k : Clause) : List Piece :=
  [.fixed ("SELECT " ++ keyColumn ++ " FROM "), .table s.table] ++ conditionPieces k ++
    [.fixed " ORDER BY rowid LIMIT :page_limit OFFSET :page_offset"]

def createText (s : Schema) : String := Piece.join s.createPieces
def insertText (s : Schema) : String := Piece.join s.insertPieces
def updateText (s : Schema) (column : String) : String := Piece.join (s.updatePieces column)
def deleteText (s : Schema) : String := Piece.join s.deletePieces
def selectText (s : Schema) (k : Clause) : String := Piece.join (s.selectPieces k)
def keysText (s : Schema) (k : Clause) : String := Piece.join (s.keysPieces k)

end Schema

namespace Statement

def kind (s : Statement) : StatementKind :=
  match s.request with
  | .createTable => .ddl
  | .insertRow .. => .insert
  | .updateColumn .. => .update
  | .deleteRow _ => .delete
  | .selectRows _ | .selectKeys .. => .select

def pieces (s : Statement) : List Piece :=
  match s.request with
  | .createTable => s.schema.createPieces
  | .insertRow .. => s.schema.insertPieces
  | .updateColumn _ c _ => s.schema.updatePieces c
  | .deleteRow _ => s.schema.deletePieces
  | .selectRows k => s.schema.selectPieces k
  | .selectKeys k _ _ => s.schema.keysPieces k

def text (s : Statement) : String := Piece.join s.pieces

end Statement

end LiveRecords
