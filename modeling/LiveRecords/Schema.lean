import LiveRecords.Name
import LiveRecords.Value

/-!
# Record types

A schema names a table, its ordered fields and, for tree-shaped data, the
column that holds the parent's key. A `Draft` is checked once; what `build`
accepts is never changed afterwards.
-/

namespace LiveRecords

/-- The column that holds a record's own key. -/
def keyColumn : String := "ID"

structure Field where
  name : String
  type : FieldType
  notNull : Bool
  deriving DecidableEq

/-- What a new record holds before anything is read. -/
def Field.initialValue (f : Field) : Value :=
  if f.notNull then f.type.defaultValue else .null

structure Schema where
  table : String
  fields : List Field
  parentColumn : Option String
  deriving DecidableEq

inductive SchemaError where
  | emptyIdentifier
  | invalidTable (name : String)
  | invalidField (name : String)
  | duplicateField (name : String)
  | reservedColumn (name : String)
  | noFields
  deriving DecidableEq, Repr

namespace SchemaError

/-- The rule that was broken. -/
def rule : SchemaError → String
  | .emptyIdentifier => "identifier must not be empty"
  | .invalidTable _ => "table name must match [A-Za-z_][A-Za-z0-9_]*"
  | .invalidField _ => "column name must match [A-Za-z_][A-Za-z0-9_]*"
  | .duplicateField _ => "column names must be unique"
  | .reservedColumn _ => "column name is reserved for the primary key"
  | .noFields => "schema must declare at least one field"

/-- The name at fault, for rules about one name. -/
def subject? : SchemaError → Option String
  | .invalidTable n | .invalidField n | .duplicateField n | .reservedColumn n => some n
  | .emptyIdentifier | .noFields => none

def message (e : SchemaError) : String :=
  match e.subject? with
  | some n => e.rule ++ " (" ++ n ++ ")"
  | none => e.rule

end SchemaError

/-- Checks a name on its own. -/
def checkIdentifier (s : String) : Except SchemaError Unit :=
  if s.isEmpty then .error .emptyIdentifier
  else if isName s then .ok ()
  else .error (.invalidField s)

namespace Schema

def fieldNames (s : Schema) : List String := s.fields.map (·.name)

def field? (s : Schema) (name : String) : Option Field := s.fields.find? (·.name == name)

/-- The position of a field in the declaration. -/
def fieldIndex? (s : Schema) (name : String) : Option Nat :=
  s.fields.findIdx? (·.name == name)

/-- The columns a statement may refer to. -/
def hasColumn (s : Schema) (name : String) : Bool :=
  name == keyColumn || s.parentColumn == some name || (s.field? name).isSome

end Schema

/-- A record type before it is checked. -/
structure Draft where
  table : String
  fields : List Field
  parentColumn : Option String := none

namespace Draft

/-- The conventional parent column of a table whose rows form a tree. -/
def treeColumn (table : String) : String := "PARENT_" ++ table ++ "_ID"

/-- Declares the conventional parent column. -/
def selfReferencing (d : Draft) : Draft := { d with parentColumn := some (treeColumn d.table) }

/-- A column name must be an identifier, not the key column, and not taken. -/
def checkColumn (seen : List String) (name : String) : Except SchemaError Unit :=
  if !isName name then .error (.invalidField name)
  else if sameName name keyColumn then .error (.reservedColumn name)
  else if seen.any (sameName name) then .error (.duplicateField name)
  else .ok ()

/-- Checks each column against those before it. -/
def checkColumns : List String → List String → Except SchemaError Unit
  | _, [] => .ok ()
  | seen, name :: names =>
    match checkColumn seen name with
    | .ok () => checkColumns (name :: seen) names
    | .error e => .error e

/-- The fields, then the parent column. -/
def columnNames (d : Draft) : List String := d.fields.map (·.name) ++ d.parentColumn.toList

/-- Problems are reported in the order table, no fields, columns. -/
def build (d : Draft) : Except SchemaError Schema :=
  if !isName d.table then .error (.invalidTable d.table)
  else if d.fields.isEmpty then .error .noFields
  else
    match checkColumns [] d.columnNames with
    | .ok () => .ok ⟨d.table, d.fields, d.parentColumn⟩
    | .error e => .error e

theorem build_eq_ok {d : Draft} {s : Schema} (h : d.build = .ok s) :
    s = ⟨d.table, d.fields, d.parentColumn⟩ := by
  unfold build at h
  split at h
  · cases h
  split at h
  · cases h
  split at h
  · injection h with h; exact h.symm
  · cases h

end Draft

end LiveRecords
