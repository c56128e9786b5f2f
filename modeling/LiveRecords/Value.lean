import LiveRecords.RecordId
import LiveRecords.Text.Quoted

/-!
# Field values

What a field of a record holds: nothing, a 64-bit integer, a text, or bytes.
A field type says which values a column takes besides null.
-/

namespace LiveRecords

inductive FieldType where
  | text
  | integer
  | blob
  deriving DecidableEq, Repr

inductive Value where
  | null
  | integer (n : Int64)
  | text (s : String)
  | blob (bs : List UInt8)
  deriving DecidableEq

instance : Inhabited Value := ⟨.null⟩

namespace FieldType

/-- The type as a column declaration spells it. -/
def sqlName : FieldType → String
  | .text => "TEXT"
  | .integer => "INTEGER"
  | .blob => "BLOB"

/-- What a new record holds in a field that must not be null. -/
def defaultValue : FieldType → Value
  | .text => .text ""
  | .integer => .integer 0
  | .blob => .blob []

end FieldType

namespace Value

def typeName : Value → String
  | .null => "null"
  | .integer _ => "integer"
  | .text _ => "text"
  | .blob _ => "blob"

def isNull : Value → Bool
  | .null => true
  | _ => false

/-- Whether a column of this type may hold the value. -/
def fits : Value → FieldType → Bool → Bool
  | .null, _, notNull => !notNull
  | .text _, .text, _ => true
  | .integer _, .integer, _ => true
  | .blob _, .blob, _ => true
  | _, _, _ => false

def asText? : Value → Option String
  | .text s => some s
  | _ => none

def asInteger? : Value → Option Int64
  | .integer n => some n
  | _ => none

def asBlob? : Value → Option (List UInt8)
  | .blob bs => some bs
  | _ => none

def ofId (id : RecordId) : Value := .blob id.bytes

/-- A null for an absent id. -/
def ofId? : Option RecordId → Value
  | some id => ofId id
  | none => .null

/-- The value as diagnostics show it. -/
def describe : Value → String
  | .null => "Null"
  | .integer n => "Integer(" ++ toString n.toInt ++ ")"
  | .text s => "Text(" ++ Text.quoted s ++ ")"
  | .blob bs =>
    "Blob([" ++ String.intercalate ", " (bs.map fun b => toString b.toNat) ++ "])"

theorem defaultValue_fits (t : FieldType) (notNull : Bool) :
    (t.defaultValue).fits t notNull = true := by
  cases t <;> rfl

theorem fits_null (t : FieldType) (notNull : Bool) : Value.null.fits t notNull = !notNull := by
  cases t <;> rfl

end Value

end LiveRecords
