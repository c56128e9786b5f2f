/-!
# Magnitudes

Guesses of how many rows there are and how much work they take are magnitudes:
ten times the binary logarithm of a count, in whole numbers. Products of counts
are sums of magnitudes; sums of counts are read off a table.
-/

namespace LiveRecords.Table.Plan

abbrev Magnitude := Int

namespace Magnitude

/-- The magnitudes of one to two in steps of an eighth. -/
def eighths : List Int := [0, 2, 3, 5, 6, 7, 8, 9]

/-- The magnitude of a count; that of nothing is zero like that of one. -/
def ofCount (n : Nat) : Magnitude :=
  if n < 2 then 0 else 10 * n.log2 + eighths.getD (8 * n / Nat.pow 2 n.log2 % 8) 0

/-- How much more a sum is than its larger part, by the distance of its parts. -/
def surplus (distance : Nat) : Int :=
  if distance ≤ 1 then 10
  else if distance ≤ 3 then 9
  else if distance ≤ 5 then 8
  else if distance ≤ 8 then 7
  else if distance ≤ 11 then 6
  else if distance ≤ 14 then 5
  else if distance ≤ 18 then 4
  else if distance ≤ 24 then 3
  else if distance ≤ 31 then 2
  else if distance ≤ 49 then 1
  else 0

/-- The magnitude of a sum of counts. -/
def sum (a b : Magnitude) : Magnitude := max a b + surplus (a - b).natAbs

theorem sum_comm (a b : Magnitude) : sum a b = sum b a := by
  unfold sum
  rw [Int.max_comm, ← Int.natAbs_neg (b - a), Int.neg_sub]

/-- How often a count of this magnitude can be halved, as a magnitude. -/
def halvings (m : Magnitude) : Magnitude := if m ≤ 10 then 0 else ofCount m.toNat - 33

end Magnitude

end LiveRecords.Table.Plan
