import LiveRecords.Number.Written
import LiveRecords.Table.Collation
import LiveRecords.Text.Utf8
import LiveRecords.Value

/-!
# Cells

What a stored column holds. Cells are totally ordered: null, then numbers by
value, then texts and then byte strings by their octets. A column's affinity
converts what is put into it and what it is compared with.
-/

namespace LiveRecords.Table

open Number (Binary64 Decimal)

inductive Cell where
  | null
  | integer (n : Int64)
  | real (x : Binary64)
  | text (octets : List UInt8)
  | blob (octets : List UInt8)
  deriving DecidableEq

instance : Inhabited Cell := ⟨.null⟩

/-- How a column treats numbers and texts. -/
inductive Affinity where
  | text
  | integer
  | numeric
  | real
  | none
  deriving DecidableEq, Repr

/-- The characters of octets that are all ASCII. -/
def asciiText (octets : List UInt8) : List Char := octets.map fun b => Char.ofNat b.toNat

def decimalText (n : Int64) : List UInt8 := Text.Utf8.bytes (toString n.toInt)

namespace Cell

def ofValue : Value → Cell
  | .null => .null
  | .integer n => .integer n
  | .text s => .text (Text.Utf8.bytes s)
  | .blob bs => .blob bs

def isNull : Cell → Bool
  | .null => true
  | _ => false

/-- Whether an integer fits 64 bits. -/
def fitsWord (n : Int) : Bool := decide (-0x8000000000000000 ≤ n) && decide (n < 0x8000000000000000)

/-- A decimal as a cell. Whole numbers that fit stay exact, all others are
doubles. -/
def ofDecimal (d : Decimal) : Cell :=
  if d.whole && fitsWord d.toInt then .integer (Int64.ofInt d.toInt)
  else .real (Number.Written.ofDecimal d)

/-- The number that a text spells. -/
def numberOf? (octets : List UInt8) : Option Cell :=
  (Decimal.read? (asciiText octets)).map ofDecimal

/-- A double without a fraction becomes the integer it is. -/
def integral : Cell → Cell
  | .real x =>
    match x.toInt? with
    | some n => .integer (Int64.ofInt n)
    | none => .real x
  | c => c

/-- A text that spells a number becomes the number. -/
def numeric : Cell → Cell
  | .text octets => (numberOf? octets).getD (.text octets)
  | c => c

/-- A number becomes the text that spells it. -/
def textual : Cell → Cell
  | .integer n => .text (decimalText n)
  | .real x => .text (Text.Utf8.bytes (Number.Written.text x))
  | c => c

/-- An integer becomes the double nearest to it. -/
def floating : Cell → Cell
  | .integer n => .real (.ofInt n.toInt)
  | c => c

def isText : Cell → Bool
  | .text _ => true
  | _ => false

/-- The octets that pattern matching sees. -/
def octets? : Cell → Option (List UInt8)
  | .null => none
  | .integer n => some (decimalText n)
  | .real x => some (Text.Utf8.bytes (Number.Written.text x))
  | .text o => some o
  | .blob o => some o

/-- The class a cell is ordered by first. -/
def rank : Cell → Nat
  | .null => 0
  | .integer _ | .real _ => 1
  | .text _ => 2
  | .blob _ => 3

/-- The order of two cells, texts under a collation. -/
def compareBy (k : Collation) : Cell → Cell → Ordering
  | .integer a, .integer b => Ord.compare a.toInt b.toInt
  | .integer a, .real y => (y.compareInt a.toInt).swap
  | .real x, .integer b => x.compareInt b.toInt
  | .real x, .real y => x.compare y
  | .text a, .text b => k.compare a b
  | .blob a, .blob b => compareOctets a b
  | a, b => Ord.compare a.rank b.rank

/-- The order of two cells, texts by their octets. -/
def compare (a b : Cell) : Ordering := a.compareBy .binary b

end Cell

namespace Affinity

/-- The cell as a column of this affinity stores it. -/
def store : Affinity → Cell → Cell
  | .text, c => c.textual
  | .integer, c | .numeric, c => c.numeric.integral
  | .real, c => c.numeric.floating
  | .none, c => c

/-- A pair of cells made comparable: numbers against a numeric column, texts
against a text column that meets a text. -/
def align : Affinity → Cell → Cell → Cell × Cell
  | .integer, a, b | .numeric, a, b | .real, a, b =>
    if a.isText || b.isText then (a.numeric, b.numeric) else (a, b)
  | .text, a, b => if a.isText || b.isText then (a.textual, b.textual) else (a, b)
  | .none, a, b => (a, b)

def ofField : FieldType → Affinity
  | .text => .text
  | .integer => .integer
  | .blob => .none

theorem store_ofValue_of_fits {v : Value} {t : FieldType} {notNull : Bool}
    (h : v.fits t notNull = true) : (ofField t).store (Cell.ofValue v) = Cell.ofValue v := by
  cases v <;> cases t <;> first | rfl | cases h

end Affinity

end LiveRecords.Table
