import LiveRecords.Table.Cell

/-!
# Arithmetic on cells

Texts and byte strings count as the number they start with, and a null makes
the result null. Whole numbers that leave 64 bits go on as doubles; what has
no value is null.
-/

namespace LiveRecords.Table

open Number (Binary64 Decimal)

namespace Cell

def ofBool (b : Bool) : Cell := .integer (if b then 1 else 0)

/-- Three-valued truth: unknown is null. -/
def ofTruth : Option Bool → Cell
  | some b => ofBool b
  | none => .null

/-- The number a cell counts as. -/
def toNumber : Cell → Cell
  | .text o | .blob o => ofDecimal (Decimal.leading (asciiText o))
  | c => c

/-- The double a cell counts as. -/
def toDouble : Cell → Binary64
  | .null => .finite 0
  | .integer n => .ofInt n.toInt
  | .real x => x
  | .text o | .blob o => Number.Written.ofDecimal (Decimal.leading (asciiText o))

/-- The integer a cell counts as, without a fraction, and at most as large as 64
bits hold. -/
def toInt : Cell → Int
  | .null => 0
  | .integer n => n.toInt
  | .real x => x.clamp
  | .text o | .blob o =>
    max (-0x8000000000000000) (min 0x7FFFFFFFFFFFFFFF (Decimal.leadingInt (asciiText o)))

/-- Whether a cell counts as true; unknown for a null. -/
def truth : Cell → Option Bool
  | .null => none
  | .integer n => some (n != 0)
  | c => some !c.toDouble.isZero

/-- The text a cell is written as. -/
def toOctets (c : Cell) : List UInt8 := c.octets?.getD []

def ofDouble? : Option Binary64 → Cell
  | some x => .real x
  | none => .null

/-- Combines two cells: exactly where both are whole and the result is, else as
doubles. -/
def combine (exact : Int → Int → Option Int) (approximate : Binary64 → Binary64 → Option Binary64)
    (a b : Cell) : Cell :=
  match a.toNumber, b.toNumber with
  | .null, _ | _, .null => .null
  | .integer m, .integer n =>
    match (exact m.toInt n.toInt).filter fitsWord with
    | some r => .integer (Int64.ofInt r)
    | none => ofDouble? (approximate (.ofInt m.toInt) (.ofInt n.toInt))
  | x, y => ofDouble? (approximate x.toDouble y.toDouble)

def plus : Cell → Cell → Cell := combine (fun m n => some (m + n)) Binary64.add

def minus : Cell → Cell → Cell := combine (fun m n => some (m - n)) fun x y => x.add y.neg

def times : Cell → Cell → Cell := combine (fun m n => some (m * n)) Binary64.mul

/-- Division by zero is null, that of whole numbers drops the fraction. -/
def dividedBy (a b : Cell) : Cell :=
  if b.toDouble.isZero then .null
  else combine (fun m n => some (m.tdiv n)) Binary64.div a b

/-- The rest of a division of the whole parts. -/
def modulo (a b : Cell) : Cell :=
  if a.isNull || b.isNull || b.toInt = 0 then .null
  else
    let r := a.toInt.tmod b.toInt
    match a.toNumber, b.toNumber with
    | .integer _, .integer _ => .integer (Int64.ofInt r)
    | _, _ => .real (.ofInt r)

/-- Combines two cells as words. -/
def ofWords (f : Int64 → Int64 → Int64) (a b : Cell) : Cell :=
  if a.isNull || b.isNull then .null
  else .integer (f (Int64.ofInt a.toInt) (Int64.ofInt b.toInt))

/-- Shifts a word to the left, by a negative number of places to the right. -/
def shiftWord (n : Int64) (places : Int) : Int64 :=
  if 64 ≤ places then 0
  else if 0 ≤ places then Int64.ofInt (n.toInt * Nat.pow 2 places.toNat)
  else if places ≤ -64 then (if n.toInt < 0 then -1 else 0)
  else Int64.ofInt (n.toInt / Nat.pow 2 (-places).toNat)

def join (a b : Cell) : Cell :=
  if a.isNull || b.isNull then .null else .text (a.toOctets ++ b.toOctets)

theorem plus_null (a : Cell) : a.plus .null = .null := by
  cases a <;> simp [plus, combine, toNumber] <;> rename_i o <;> split <;> simp_all

end Cell

/-- A double of at most 51 bits without a fraction becomes the integer it is. -/
def Cell.integralIfSmall (c : Cell) : Cell :=
  match c.integral with
  | .integer n => if -0x8000000000000 ≤ n.toInt ∧ n.toInt < 0x8000000000000 then .integer n else c
  | _ => c

/-- The cell that a conversion to an affinity makes. -/
def Affinity.convert : Affinity → Cell → Cell
  | _, .null => .null
  | .text, c => .text c.toOctets
  | .none, c => .blob c.toOctets
  | .integer, c => .integer (Int64.ofInt c.toInt)
  | .real, c => .real c.toDouble
  | .numeric, .text o => (Cell.text o).toNumber.integralIfSmall
  | .numeric, .blob o => (Cell.blob o).toNumber.integralIfSmall
  | .numeric, c => c

end LiveRecords.Table
