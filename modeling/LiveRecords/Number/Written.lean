import LiveRecords.Number.Decimal
import LiveRecords.Number.Twofold

/-!
# Numbers as columns read and write them

A column reads a decimal from its leading digits, as many as fit a machine
word, and scales them by powers of ten in pairs of doubles; it writes a double
with fifteen significant digits found the same way. Both are close to the
nearest value and not always equal to it.
-/

namespace LiveRecords.Number.Written

open Binary64 (tenTo)

/-- Powers of ten as pairs of doubles. -/
def powerOfTen (e : Int) : Twofold := (Twofold.ofRat? (tenTo e)).getD ⟨0, 0⟩

/-! ## Reading -/

/-- A number below this takes in another digit. -/
def digitLimit : Nat := (0x8000000000000000 - 10) / 10

/-- A number below this is multiplied by ten rather than scaled. -/
def wordLimit : Nat := (0x10000000000000000 - 2048) / 10

/-- Takes in digits while the number is small; the number, and how many digits
were left out. -/
def leadingDigits : Nat → List Char → Nat × Nat
  | s, [] => (s, 0)
  | s, c :: cs =>
    if s < digitLimit then leadingDigits (10 * s + Decimal.digit c) cs else (s, (c :: cs).length)

/-- Moves powers of ten from the exponent into the number while it stays small,
or out of it while it ends in zeros. -/
def absorb : Nat → Nat → Int → Nat × Int
  | 0, s, e => (s, e)
  | fuel + 1, s, e =>
    if 0 < e ∧ s < wordLimit then absorb fuel (10 * s) (e - 1)
    else if e < 0 ∧ s % 10 = 0 then absorb fuel (s / 10) (e + 1)
    else (s, e)

/-- A whole number as a pair. -/
def ofWhole? (s : Nat) : Option Twofold := Twofold.ofRat? s

/-- Multiplies by a power of ten: by hundreds, then tens, then units of its
exponent. -/
def shift? (x : Twofold) (e : Int) : Option Twofold := do
  let n := e.natAbs
  let power (k : Int) : Twofold := powerOfTen (if 0 ≤ e then k else -k)
  let x ← Twofold.scaleBy? (power 100) (n / 100) x
  let x ← Twofold.scaleBy? (power 10) (n % 100 / 10) x
  Twofold.scaleBy? (power 1) (n % 10) x

/-- The double `s · 10 ^ e` is read as. -/
def scaled (s : Nat) (e : Int) : Option Rat :=
  if e = 0 then Binary64.round? s
  else do (← shift? (← ofWhole? s) e).toDouble?

/-- The double that a decimal is read as. -/
def ofDecimal (d : Decimal) : Binary64 :=
  if d.mantissa = 0 then .finite 0
  else
    let (s, left) := leadingDigits 0 (Nat.toDigits 10 d.mantissa)
    let (s, e) := absorb (d.exponent + left).natAbs s (d.exponent + left)
    match scaled s e with
    | none => .infinite d.negative
    | some q => .finite (if d.negative then -q else q)

/-! ## Writing -/

/-- How many significant digits are written. -/
def precision : Nat := 15

/-- Multiplies by the power while the test holds, at most `fuel` times; how many
times it did. -/
def shiftWhile (test : Rat → Bool) (power : Twofold) : Nat → Twofold → Twofold × Nat
  | 0, x => (x, 0)
  | fuel + 1, x =>
    if test x.high then
      match x.times? power with
      | none => (x, 0)
      | some y =>
        let (z, n) := shiftWhile test power fuel y
        (z, n + 1)
    else (x, 0)

/-- The double that a bound stands for. -/
def bound (mantissa : Nat) (e : Int) : Rat := (Binary64.round? (mantissa * tenTo e)).getD 0

/-- Brings a number down to at most nineteen digits before its point. -/
def lower (x : Twofold) : Twofold × Int :=
  let top (e : Int) : Rat := bound 9223372036854774784 e
  let (x, a) := shiftWhile (fun q => top 100 < q) (powerOfTen (-100)) 4 x
  let (x, b) := shiftWhile (fun q => top 10 < q) (powerOfTen (-10)) 11 x
  let (x, c) := shiftWhile (fun q => top 0 < q) (powerOfTen (-1)) 11 x
  (x, 100 * a + 10 * b + c)

/-- Brings a number up to at least eighteen digits before its point. -/
def raise (x : Twofold) : Twofold × Int :=
  let (x, a) := shiftWhile (fun q => q < bound 9223372036854774784 (-101)) (powerOfTen 100) 4 x
  let (x, b) := shiftWhile (fun q => q < bound 9223372036854774784 (-11)) (powerOfTen 10) 11 x
  let (x, c) := shiftWhile (fun q => q < bound 922337203685477478 0) (powerOfTen 1) 11 x
  (x, -(100 * a + 10 * b + c : Int))

/-- The whole part of a pair. -/
def wholePart (x : Twofold) : Nat :=
  let whole (q : Rat) : Nat := q.num.natAbs / q.den
  if x.low < 0 then whole x.high - whole x.low else whole x.high + whole x.low

/-- Rounds a number to its first digits, a half going up. -/
def firstDigits (n : Nat) : Nat × Nat :=
  let surplus := (Nat.toDigits 10 n).length - precision
  if surplus = 0 then (n, 0)
  else
    let m := n / Nat.pow 10 (surplus - 1)
    ((if 5 ≤ m % 10 then m / 10 + 1 else m / 10), surplus)

/-- The significant digits of a positive double and the exponent of the first. -/
def significant (q : Rat) : List Char × Int :=
  let (x, e) := if bound 9223372036854774784 0 < q then lower ⟨q, 0⟩ else raise ⟨q, 0⟩
  let (m, cut) := firstDigits (wholePart x)
  let ds := Nat.toDigits 10 m
  (ds, e + cut + ds.length - 1)

/-- Digits without the zeros at their end. -/
def stripZeros (ds : List Char) : List Char := (ds.reverse.dropWhile (· == '0')).reverse

def twoDigits (n : Nat) : List Char :=
  if n < 10 then '0' :: Nat.toDigits 10 n else Nat.toDigits 10 n

/-- Digits after a point, at least one. -/
def fraction (ds : List Char) : List Char := '.' :: (if ds.isEmpty then ['0'] else ds)

/-- Positional from `10 ^ -4` up to fifteen digits, with an exponent beyond. -/
def unsignedText (q : Rat) : List Char :=
  if q = 0 then "0.0".toList
  else
    let (ds, e) := significant q
    if e < -4 ∨ 14 < e then
      ds.take 1 ++ fraction (stripZeros (ds.drop 1)) ++
        ['e', if e < 0 then '-' else '+'] ++ twoDigits e.natAbs
    else if 0 ≤ e then
      let ds := ds ++ List.replicate (e.toNat + 1 - ds.length) '0'
      ds.take (e.toNat + 1) ++ fraction (stripZeros (ds.drop (e.toNat + 1)))
    else
      '0' :: fraction (stripZeros (List.replicate ((-e).toNat - 1) '0' ++ ds))

/-- The text of a double. -/
def text : Binary64 → String
  | .infinite negative => if negative then "-Inf" else "Inf"
  | .finite q =>
    String.ofList (if q < 0 then '-' :: unsignedText (-q) else unsignedText q)

end LiveRecords.Number.Written
