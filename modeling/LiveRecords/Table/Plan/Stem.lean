import LiveRecords.Table.Expression

/-!
# The stem of a pattern

What a text must start with to match a pattern: everything before the first
wildcard, in either case. It bounds the texts that can match from below and
from above, and byte strings likewise.
-/

namespace LiveRecords.Table.Plan

structure Stem where
  /-- The stem in upper case. -/
  low : List UInt8
  /-- The least octets after all that start with the stem, in lower case. -/
  high : List UInt8
  /-- Every text that starts with the stem matches. -/
  isAll : Bool
  deriving DecidableEq, Repr

namespace Stem

def raise (b : UInt8) : UInt8 := if 97 ≤ b.toNat ∧ b.toNat ≤ 122 then b - 32 else b

/-- The next octets of the same length, where continuation octets carry over. -/
def countUp : List UInt8 → List UInt8
  | [] => []
  | b :: bs => if bs.all (· == 0xBF) then (b + 1) :: bs.map fun _ => 0x80 else b :: countUp bs

/-- Whether octets spell a number. -/
def spellsNumber (octets : List UInt8) : Bool := (Cell.numberOf? octets).isSome

/-- Whether a stem could be taken for a number, or what comes after it. -/
def mayBeNumber (octets : List UInt8) : Bool :=
  spellsNumber octets || octets == [45] ||
    spellsNumber (octets.dropLast ++ (octets.getLast?.toList.map (· + 1)))

/-- The stem of a pattern, if the pattern does not start with a wildcard. Where
numbers may stand, it must not be taken for one. -/
def ofPattern? (a : Affinity) (pattern : Value) : Option Stem :=
  match pattern with
  | .text s =>
    let octets := Text.Utf8.bytes s
    let isPlain (b : UInt8) : Bool := b != 0 && b != 37 && b != 95
    let stem := octets.takeWhile isPlain
    if stem.isEmpty || (a != .text && mayBeNumber stem) then none
    else
      let lower := stem.map Collation.foldOctet
      some
        { low := stem.map raise
          high := countUp lower
          isAll := octets.drop stem.length == [37] && stem.getLast? != some 64 }
  | _ => none

/-- The condition that a value is within the bounds of a stem; for a byte string
also the condition of the pattern, if the bounds are to stand for it. -/
def condition (s : Stem) (column pattern : Expression) : Expression :=
  let text (o : List UInt8) : Expression := .literal (.text o)
  let blob (o : List UInt8) : Expression := .literal (.blob o)
  let within (e low high : Expression) : Expression :=
    .binary .and (.compare .greaterOrEqual e low) (.compare .lessThan e high)
  let isBlob := Expression.compare .equals (.invoke "typeof" [column]) (text [98, 108, 111, 98])
  let octets := within column (blob s.low) (blob s.high)
  .choose isBlob (if s.isAll then .binary .and octets pattern else octets)
    (within (.collate column .noCase) (text s.low) (text s.high))

end Stem

end LiveRecords.Table.Plan
