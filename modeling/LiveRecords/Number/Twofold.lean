import LiveRecords.Number.Binary64

/-!
# Pairs of doubles

The unevaluated sum of two doubles carries about twice the precision of one.
Products of such pairs are formed from the halves of their bits, with every
step rounded; a pair that leaves the range of the doubles is none.
-/

namespace LiveRecords.Number

/-- The sum of a double and a much smaller one. -/
structure Twofold where
  high : Rat
  low : Rat
  deriving DecidableEq, Repr

namespace Twofold

open Binary64 (round?)

/-- A double without the last 26 of its 53 bits. -/
def leading (x : Rat) : Rat :=
  if x = 0 then 0
  else
    let e := Binary64.unitExponent x.num.natAbs x.den
    let m := Binary64.inUnits x.num.natAbs x.den e
    let q := Binary64.scale (m - m % 0x4000000) e
    if x < 0 then -q else q

def sum? (x y : Rat) : Option Rat := round? (x + y)

def product? (x y : Rat) : Option Rat := round? (x * y)

/-- The product of the high parts, as a pair whose sum it is up to rounding. -/
def highProduct? (x y : Rat) : Option (Rat × Rat) := do
  let hx := leading x
  let tx := x - hx
  let hy := leading y
  let ty := y - hy
  let p ← product? hx hy
  let q ← sum? (← product? hx ty) (← product? tx hy)
  let c ← sum? p q
  let rest ← sum? (← sum? (← sum? p (-c)) q) (← product? tx ty)
  return (c, rest)

def times? (x y : Twofold) : Option Twofold := do
  let (c, rest) ← highProduct? x.high y.high
  let crossed ← sum? (← product? x.high y.low) (← product? x.low y.high)
  let rest ← sum? crossed rest
  let high ← sum? c rest
  let low ← sum? (← sum? c (-high)) rest
  return ⟨high, low⟩

/-- A rational as a pair: the nearest double, and the double nearest to what is
left. -/
def ofRat? (q : Rat) : Option Twofold := do
  let high ← round? q
  let low ← round? (q - high)
  return ⟨high, low⟩

/-- The pair as one double. -/
def toDouble? (x : Twofold) : Option Rat := sum? x.high x.low

/-- `n` times the factor. -/
def scaleBy? (factor : Twofold) : Nat → Twofold → Option Twofold
  | 0, x => some x
  | n + 1, x => (x.times? factor).bind (scaleBy? factor n)

end Twofold

end LiveRecords.Number
