import LiveRecords.Number.Binary64

/-!
# Shortest decimals

The fewest digits from which a double can be read back, and of those the
nearest to it.
-/

namespace LiveRecords.Number.Shortest

open Binary64 (tenTo round?)

/-- The nearest of the two neighbours of a positive double, on the grid of the
multiples of `10 ^ e`, that are read back as the double. -/
def neighbour? (q : Rat) (e : Int) : Option Nat :=
  let x := q * tenTo (-e)
  let below := x.num.natAbs / x.den
  let readsBack (m : Nat) : Bool := round? (m * tenTo e) == some q
  if readsBack below then
    if readsBack (below + 1) && below + 1 - x < x - below then some (below + 1) else some below
  else if readsBack (below + 1) then some (below + 1)
  else none

/-- The digits of a positive double as a number, and the exponent of the last:
the first of at most seventeen grids that has a neighbour. -/
def digits (q : Rat) : Nat × Int :=
  let top := Binary64.decimalExponent q
  ((List.range 17).findSome? fun (n : Nat) =>
    (neighbour? q (top - n)).map fun m => (m, top - n)).getD (0, 0)

theorem round?_of_neighbour? {q : Rat} {e : Int} {m : Nat} (h : neighbour? q e = some m) :
    round? (m * tenTo e) = some q := by
  simp only [neighbour?] at h
  split at h
  · rename_i below
    split at h
    · rename_i above
      simp only [Bool.and_eq_true, beq_iff_eq] at above
      exact Option.some.inj h ▸ above.1
    · exact Option.some.inj h ▸ (beq_iff_eq.1 below)
  · split at h
    · rename_i above
      exact Option.some.inj h ▸ (beq_iff_eq.1 above)
    · cases h

end LiveRecords.Number.Shortest
