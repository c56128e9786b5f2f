import LiveRecords.Schema
import LiveRecords.Statement.Keyword
import LiveRecords.Table.Expression

/-!
# Columns and constraints

A column of a stored table, and what a table demands of its rows: checks, keys
that no two rows share, and references to the rows of other tables. Tables of
record types are declared from their schema, others from text.
-/

namespace LiveRecords.Table

/-- What becomes of a statement, or of the rows at fault, where a constraint is
broken. -/
inductive Resolution where
  | rollback
  | abort
  | fail
  /-- The row is left as it is. -/
  | ignore
  /-- A null gives way to the default, and rows with the same key are removed. -/
  | replace
  deriving DecidableEq, Repr

structure Column where
  name : String
  affinity : Affinity
  collation : Collation := .binary
  /-- What to do with a null, if the column must not hold one. -/
  notNull : Option Resolution := none
  /-- What the column holds where nothing is listed for it. -/
  default : Option Expression := none
  /-- What the column is computed by, if it is. -/
  generated : Option Expression := none
  /-- How many words an entry is guessed to take. -/
  width : Nat := 1
  deriving DecidableEq

namespace Column

/-- The primary key of every table. -/
def key : Column := { name := keyColumn, affinity := .none, notNull := some .abort, width := 5 }

/-- How many words an entry of a type in a schema is guessed to take. -/
def widthOf : FieldType → Nat
  | .integer => 1
  | .text | .blob => 5

def ofField (f : Field) : Column :=
  { name := f.name, affinity := .ofField f.type, width := widthOf f.type,
    notNull := if f.notNull then some .abort else none }

def ofParent (name : String) : Column := { name, affinity := .none, width := 5 }

/-- The columns that a record type declares: key, parent, fields. What stands
in a column's place but names a constraint declares none. -/
def ofSchema (s : Schema) : List Column :=
  (key :: s.parentColumn.toList.map ofParent ++ s.fields.map ofField).filter fun c =>
    !Keyword.namesConstraint c.name

end Column

/-- A condition that must not be false in any row. -/
structure Check where
  label : String
  condition : Expression
  deriving DecidableEq

/-- Columns that no two rows agree in, unless one of them is null. -/
structure UniqueKey where
  parts : List (String × Collation)
  /-- What an update does that would make two rows agree. -/
  resolution : Option Resolution := none
  deriving DecidableEq

namespace UniqueKey

def primary : UniqueKey := { parts := [(keyColumn, .binary)] }

def columns (k : UniqueKey) : List String := k.parts.map (·.1)

/-- Whether two keys are about the same columns in the same order. -/
def alike (k l : UniqueKey) : Bool :=
  k.parts.length == l.parts.length &&
    (k.parts.zip l.parts).all fun (p, q) => sameName p.1 q.1 && p.2 == q.2

/-- Adds a key, or joins it with one that is like it. -/
def add (k : UniqueKey) : List UniqueKey → List UniqueKey
  | [] => [k]
  | l :: ls =>
    if l.alike k then { l with resolution := l.resolution.or k.resolution } :: ls
    else l :: add k ls

end UniqueKey

/-- What becomes of rows whose referenced row goes away or gets another key. -/
inductive Consequence where
  /-- They may stay only if the statement makes up for it. -/
  | none
  | restrict
  | cascade
  | setNull
  | setDefault
  deriving DecidableEq, Repr

/-- Columns that, unless one of them is null, hold a key of a row of another
table, or of the same. -/
structure Reference where
  columns : List String
  parent : String
  /-- The columns meant there; if none are given, its primary key. -/
  parentColumns : List String := []
  onDelete : Consequence := .none
  onUpdate : Consequence := .none
  deriving DecidableEq

/-- The columns that a reference means in the other table. -/
def Reference.targets (r : Reference) : List String :=
  if r.parentColumns.isEmpty then [keyColumn] else r.parentColumns

end LiveRecords.Table
