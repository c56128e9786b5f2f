import LiveRecords.Number.Binary64
import LiveRecords.Number.Decimal

/-!
# Numbers with a point or an exponent

Of a number's digits as many count as fit a machine word; later ones are
dropped. The word is then multiplied or divided by a power of ten as a double,
which may miss the nearest double by a little, and a number that leaves the
range of the doubles is none.
-/

namespace LiveRecords.Json

open Number (Binary64 Decimal)
open Number.Binary64 (round? tenTo)

/-- The number `significand · 10 ^ exponent`. -/
structure Scaled where
  significand : Nat
  exponent : Int
  deriving DecidableEq, Repr

/-- Takes in digits as long as the number fits a word; the number, and how many
digits it took. -/
def gather : Nat → List Char → Nat × Nat
  | s, [] => (s, 0)
  | s, c :: cs =>
    let next := 10 * s + Decimal.digit c
    if next < 0x10000000000000000 then
      let (m, taken) := gather next cs
      (m, taken + 1)
    else (s, 0)

theorem gather_lt (cs : List Char) :
    ∀ s, s < 0x10000000000000000 → (gather s cs).1 < 0x10000000000000000 ∧ (gather s cs).2 ≤ cs.length := by
  induction cs with
  | nil => intro s h; exact ⟨h, Nat.le_refl 0⟩
  | cons c cs ih =>
    intro s h
    simp only [gather]
    split
    · rename_i next
      exact ⟨(ih _ next).1, Nat.succ_le_succ (ih _ next).2⟩
    · exact ⟨h, Nat.zero_le _⟩

namespace Scaled

/-- The number of some digits before and after a point. -/
def ofDigits (whole fraction : List Char) : Scaled :=
  let (s, taken) := gather 0 whole
  let (s, more) := gather s fraction
  ⟨s, (whole.length : Int) - taken - more⟩

theorem ofDigits_significand_lt (whole fraction : List Char) :
    (ofDigits whole fraction).significand < 0x10000000000000000 :=
  (gather_lt fraction _ (gather_lt whole 0 (by decide)).1).1

/-- The largest power of ten that is used at once. -/
def maxPower : Nat := 308

/-- A power of ten as a double. -/
def power (n : Nat) : Rat := (round? (tenTo n)).getD 0

/-- The double that the number is taken for; none beyond the range. -/
def toDouble? (x : Scaled) : Option Rat := do
  let f ← round? x.significand
  if f = 0 then return 0
  else if 0 ≤ x.exponent then
    if x.exponent ≤ maxPower then round? (f * power x.exponent.toNat) else none
  else
    let n := x.exponent.natAbs
    if n ≤ maxPower then round? (f / power n)
    else if n ≤ 2 * maxPower then
      round? ((← round? (f / power maxPower)) / power (n - maxPower))
    else return 0

/-- The largest exponent that is written out. -/
def maxExponent : Nat := 0x7FFFFFFF

/-- Shifts the number by a written exponent; one that is too long means
nothing or too much. -/
def shift? (x : Scaled) (negative : Bool) (exponent : Nat) : Option Scaled :=
  if exponent ≤ maxExponent then
    some ⟨x.significand, x.exponent + if negative then -(exponent : Int) else exponent⟩
  else if x.significand = 0 ∨ negative then some ⟨0, 0⟩
  else none

end Scaled

end LiveRecords.Json
