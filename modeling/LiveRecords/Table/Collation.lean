/-!
# Collations

How two texts are ordered: by their octets, by their octets with ASCII letters
in one case, or by their octets without the spaces at their ends.
-/

namespace LiveRecords.Table

/-- Lexicographic order of octet strings. -/
def compareOctets : List UInt8 → List UInt8 → Ordering
  | [], [] => .eq
  | [], _ :: _ => .lt
  | _ :: _, [] => .gt
  | a :: as, b :: bs =>
    if a < b then .lt else if b < a then .gt else compareOctets as bs

theorem compareOctets_self (s : List UInt8) : compareOctets s s = .eq := by
  induction s with
  | nil => rfl
  | cons a s ih => simp [compareOctets, ih]

inductive Collation where
  | binary
  | noCase
  | trimmed
  deriving DecidableEq, Repr

namespace Collation

/-- An ASCII letter in lower case. -/
def foldOctet (b : UInt8) : UInt8 := if 65 ≤ b.toNat ∧ b.toNat ≤ 90 then b + 32 else b

/-- A text up to its first NUL, in one case. -/
def folded (s : List UInt8) : List UInt8 := (s.takeWhile (· != 0)).map foldOctet

def trimEnd (s : List UInt8) : List UInt8 := (s.reverse.dropWhile (· == 32)).reverse

/-- The order of two texts. Where case does not count, texts that agree up to a
NUL are ordered by their lengths. -/
def compare : Collation → List UInt8 → List UInt8 → Ordering
  | .binary, a, b => compareOctets a b
  | .noCase, a, b => (compareOctets (folded a) (folded b)).then (Ord.compare a.length b.length)
  | .trimmed, a, b => compareOctets (trimEnd a) (trimEnd b)

theorem compare_self (k : Collation) (s : List UInt8) : k.compare s s = .eq := by
  cases k <;> simp [compare, compareOctets_self]

end Collation

end LiveRecords.Table
