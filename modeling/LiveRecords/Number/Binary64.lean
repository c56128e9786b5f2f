/-!
# Floating point numbers as exact values

A double is kept as the rational number it stands for, or as an infinity.
Rounding goes to the nearest double, ties to even.
-/

namespace LiveRecords.Number

inductive Binary64 where
  | finite (q : Rat)
  | infinite (negative : Bool)
  deriving DecidableEq

namespace Binary64

/-- The quotient rounded to the nearest integer, a half going to the even one. -/
def roundDiv (num den : Nat) : Nat :=
  let q := num / den
  let r := num % den
  if 2 * r < den then q
  else if den < 2 * r then q + 1
  else if q % 2 = 0 then q else q + 1

/-- The quotient in units of `2 ^ e`, rounded. -/
def inUnits (num den : Nat) (e : Int) : Nat :=
  if 0 ≤ e then roundDiv num (den * Nat.pow 2 e.toNat) else roundDiv (num * Nat.pow 2 (-e).toNat) den

/-- The exponent of the last of 53 bits of a positive quotient, not below the
smallest that a double has. -/
def unitExponent (num den : Nat) : Int :=
  let e := (num.log2 : Int) - den.log2 - 53
  let large :=
    if 0 ≤ e then 0x20000000000000 * (den * Nat.pow 2 e.toNat) ≤ num else 0x20000000000000 * den ≤ num * Nat.pow 2 (-e).toNat
  max (if large then e + 1 else e) (-1074)

def scale (m : Nat) (e : Int) : Rat :=
  if 0 ≤ e then ((m * Nat.pow 2 e.toNat : Nat) : Rat) else mkRat m (Nat.pow 2 (-e).toNat)

/-- The double nearest to `num / den`, with a sign. -/
def ofQuotient (negative : Bool) (num den : Nat) : Binary64 :=
  if num = 0 then .finite 0
  else
    let e := unitExponent num den
    let q := scale (inUnits num den e) e
    if scale 1 1024 ≤ q then .infinite negative
    else .finite (if negative then -q else q)

/-- The double nearest to a rational. -/
def round (q : Rat) : Binary64 := ofQuotient (decide (q < 0)) q.num.natAbs q.den

/-- The double nearest to a rational, if it is finite. -/
def round? (q : Rat) : Option Rat :=
  match round q with
  | .finite r => some r
  | .infinite _ => none

/-- The integer that the double is, if it lies strictly inside the 64-bit range. -/
def toInt? : Binary64 → Option Int
  | .finite q =>
    if q.den = 1 ∧ -0x8000000000000000 < q.num ∧ q.num < 0x7FFFFFFFFFFFFFFF then some q.num else none
  | .infinite _ => none

def ofInt (n : Int) : Binary64 := ofQuotient (decide (n < 0)) n.natAbs 1

/-- Order of two doubles. -/
def compare : Binary64 → Binary64 → Ordering
  | .finite a, .finite b => if a < b then .lt else if b < a then .gt else .eq
  | .infinite a, .infinite b => if a = b then .eq else if a then .lt else .gt
  | .infinite a, .finite _ => if a then .lt else .gt
  | .finite _, .infinite b => if b then .gt else .lt

/-- Order of a double and an integer, by their exact values. -/
def compareInt (x : Binary64) (n : Int) : Ordering := x.compare (.finite n)

/-! ## Arithmetic

Each operation gives the double nearest to the exact result, and nothing where
there is none. -/

def isNegative : Binary64 → Bool
  | .finite q => decide (q < 0)
  | .infinite negative => negative

def isZero : Binary64 → Bool
  | .finite q => q == 0
  | .infinite _ => false

def neg : Binary64 → Binary64
  | .finite q => .finite (-q)
  | .infinite negative => .infinite !negative

def add : Binary64 → Binary64 → Option Binary64
  | .finite a, .finite b => some (round (a + b))
  | .infinite a, .infinite b => if a = b then some (.infinite a) else none
  | .infinite a, .finite _ | .finite _, .infinite a => some (.infinite a)

def mul (x y : Binary64) : Option Binary64 :=
  match x, y with
  | .finite a, .finite b => some (round (a * b))
  | x, y => if x.isZero || y.isZero then none else some (.infinite (x.isNegative != y.isNegative))

def div : Binary64 → Binary64 → Option Binary64
  | .finite a, .finite b => if b = 0 then none else some (round (a / b))
  | .finite _, .infinite _ => some (.finite 0)
  | .infinite a, .finite b => if b = 0 then none else some (.infinite (a != decide (b < 0)))
  | .infinite _, .infinite _ => none

/-- The double without its fraction, as an integer of 64 bits; beyond those, the
nearest of them. -/
def clamp : Binary64 → Int
  | .finite q => max (-0x8000000000000000) (min 0x7FFFFFFFFFFFFFFF (q.num.tdiv q.den))
  | .infinite negative => if negative then -0x8000000000000000 else 0x7FFFFFFFFFFFFFFF

theorem clamp_bounds (x : Binary64) :
    -0x8000000000000000 ≤ x.clamp ∧ x.clamp ≤ 0x7FFFFFFFFFFFFFFF := by
  cases x with
  | finite q => simp only [clamp]; omega
  | infinite negative => cases negative <;> simp [clamp]

/-- A power of ten. -/
def tenTo (e : Int) : Rat :=
  if 0 ≤ e then ((Nat.pow 10 e.toNat : Nat) : Rat) else mkRat 1 (Nat.pow 10 (-e).toNat)

/-- The decimal exponent of a positive rational: `10 ^ e ≤ q < 10 ^ (e + 1)`. -/
def decimalExponent (q : Rat) : Int :=
  let guess : Int := ((Nat.toDigits 10 q.num.natAbs).length : Int) - (Nat.toDigits 10 q.den).length
  if tenTo guess ≤ q then guess else guess - 1

end Binary64

end LiveRecords.Number
