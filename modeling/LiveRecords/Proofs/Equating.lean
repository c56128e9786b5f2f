import LiveRecords.Proofs.Writing
import Mathlib.Algebra.Order.Ring.Rat

/-!
# Cells that are equal

Two cells that compare as equal are the same, but for an integer and the double that
it is. A column compares them in one way with everything else. A cell that it stores
and that compares as equal to a value is equal to what the column makes of the value.
-/

namespace LiveRecords

open Number (Binary64)

/-! ## Comparing cells -/

namespace Number.Binary64

theorem compare_finite (a b : Rat) :
    (finite a).compare (finite b) = if a < b then .lt else if b < a then .gt else .eq :=
  rfl

theorem compare_swap (x y : Binary64) : (x.compare y).swap = y.compare x := by
  cases x with
  | finite a =>
    cases y with
    | finite b =>
      rw [compare_finite, compare_finite]
      rcases lt_trichotomy a b with h | h | h
      · simp [h, not_lt_of_gt h]
      · simp [h]
      · simp [h, not_lt_of_gt h]
    | infinite b => cases b <;> rfl
  | infinite a =>
    cases y with
    | finite b => cases a <;> rfl
    | infinite b => cases a <;> cases b <;> rfl

theorem compare_eq {x y : Binary64} (h : x.compare y = .eq) : x = y := by
  cases x with
  | finite a =>
    cases y with
    | finite b =>
      rw [compare_finite] at h
      split at h
      · cases h
      next hlt =>
      split at h
      · cases h
      next hgt => rw [le_antisymm (not_lt.mp hgt) (not_lt.mp hlt)]
    | infinite b => cases b <;> cases h
  | infinite a =>
    cases y with
    | finite b => cases a <;> cases h
    | infinite b => cases a <;> cases b <;> first | rfl | cases h

theorem compare_intCast (m n : Int) : (finite m).compare (finite n) = Ord.compare m n := by
  rw [compare_finite]
  rcases lt_trichotomy m n with h | h | h
  · rw [if_pos (by exact_mod_cast h), compare_lt_iff_lt.mpr h]
  · rw [h, if_neg (lt_irrefl _), if_neg (lt_irrefl _), compare_eq_iff_eq.mpr rfl]
  · rw [if_neg (by exact_mod_cast not_lt_of_gt h), if_pos (by exact_mod_cast h),
      compare_gt_iff_gt.mpr h]

end Number.Binary64

namespace Table

namespace Cell

/-- Cells that are equal by their octets are the same, but for an integer and the
double that it is. -/
inductive Equal : Cell → Cell → Prop where
  | same (x : Cell) : Equal x x
  | double (n : Int64) : Equal (.integer n) (.real (.finite n.toInt))
  | whole (n : Int64) : Equal (.real (.finite n.toInt)) (.integer n)

variable {x y : Cell}

theorem Equal.symm (h : x.Equal y) : y.Equal x := by
  cases h with
  | same => exact .same _
  | double n => exact .whole n
  | whole n => exact .double n

/-- A number compares as the double that it is. -/
theorem compareBy_integer (k : Collation) (n : Int64) (z : Cell) :
    (Cell.integer n).compareBy k z = (Cell.real (.finite n.toInt)).compareBy k z := by
  cases z with
  | integer b => exact (Binary64.compare_intCast n.toInt b.toInt).symm
  | real y => exact Binary64.compare_swap y (.finite n.toInt)
  | _ => rfl

theorem Equal.compareBy (h : x.Equal y) (k : Collation) (z : Cell) :
    x.compareBy k z = y.compareBy k z := by
  cases h with
  | same => rfl
  | double n => exact compareBy_integer k n z
  | whole n => exact (compareBy_integer k n z).symm

/-- One number that is written in two ways, as an integer and as a double. -/
def Twofold (x y : Cell) : Prop := x.Equal y ∧ x ≠ y

theorem Equal.isNull (h : x.Equal y) : x.isNull = y.isNull := by
  cases h <;> rfl

theorem equal_of_compareBy (h : x.compareBy .binary y = .eq) : x.Equal y := by
  cases x with
  | null =>
    cases y with
    | null => exact .same _
    | _ => cases h
  | integer a =>
    cases y with
    | integer b =>
      have hab : a = b := Int64.toInt_inj.mp (compare_eq_iff_eq.mp h)
      rw [hab]
      exact .same _
    | real q =>
      rw [compareBy_integer] at h
      rw [← Binary64.compare_eq h]
      exact .double a
    | _ => cases h
  | real q =>
    cases y with
    | integer b =>
      rw [Binary64.compare_eq h]
      exact .whole b
    | real q' =>
      rw [Binary64.compare_eq h]
      exact .same _
    | _ => cases h
  | text a =>
    cases y with
    | text b =>
      rw [compareOctets_eq h]
      exact .same _
    | _ => cases h
  | blob a =>
    cases y with
    | blob b =>
      rw [compareOctets_eq h]
      exact .same _
    | _ => cases h

theorem compareBy_self (k : Collation) (x : Cell) : x.compareBy k x = .eq := by
  cases x with
  | integer n => exact compare_eq_iff_eq.mpr rfl
  | real q =>
    cases q with
    | finite a =>
      show (Binary64.finite a).compare (.finite a) = .eq
      simp [Binary64.compare_finite]
    | infinite b => cases b <;> rfl
  | text o => exact k.compare_self o
  | blob o => exact compareOctets_self o
  | null => rfl

theorem Equal.trans {z : Cell} (h : x.Equal y) (h' : y.Equal z) : x.Equal z := by
  apply equal_of_compareBy
  rw [h.compareBy, h'.compareBy]
  exact compareBy_self _ _

/-! ## Cells as columns store them -/

theorem numeric_of_not_text (h : x.isText = false) : x.numeric = x := by
  cases x with
  | text o => cases h
  | _ => rfl

/-- What a column of numbers makes of a text is a number, or the text stays. -/
theorem numeric_text (octets : List UInt8) :
    (Cell.text octets).numeric = .text octets ∨
      ((Cell.text octets).numeric).isText = false := by
  have hread : (Cell.text octets).numeric =
      ((Number.Decimal.read? (asciiText octets)).map ofDecimal).getD (.text octets) := rfl
  rw [hread]
  cases Number.Decimal.read? (asciiText octets) with
  | none => exact .inl rfl
  | some d =>
    right
    rw [Option.map_some, Option.getD_some]
    unfold ofDecimal
    split <;> rfl

theorem isText_integral (h : x.isText = false) : x.integral.isText = false := by
  cases x with
  | real q => cases hq : q.toInt? <;> simp [integral, hq, isText]
  | _ => exact h

theorem isText_floating (h : x.isText = false) : x.floating.isText = false := by
  cases x with
  | integer n => rfl
  | _ => exact h

/-- A double that becomes an integer is equal to it. -/
theorem integral_equal (x : Cell) : x.integral.Equal x := by
  cases x with
  | real q =>
    cases hn : q.toInt? with
    | none =>
      simp only [integral, hn]
      exact .same _
    | some n =>
      simp only [integral, hn]
      cases q with
      | infinite b => cases hn
      | finite q =>
        change (if _ then some q.num else none) = some n at hn
        split at hn
        · next hq =>
          obtain ⟨hden, hlow, hhigh⟩ := hq
          obtain rfl := Option.some.inj hn
          have hround : (Int64.ofInt q.num).toInt = q.num :=
            Int64.toInt_ofInt_of_le (by omega) (by omega)
          have hvalue : Cell.real (.finite q) =
              .real (.finite ((Int64.ofInt q.num).toInt : Int)) := by
            rw [hround, Rat.coe_int_num_of_den_eq_one hden]
          rw [hvalue]
          exact .double _
        · cases hn
  | _ => exact .same _

end Cell

namespace Affinity

variable {a : Affinity} {x w : Cell}

/-- A column of numbers makes texts numbers on both sides, where they spell one. -/
theorem align_numeric (ha : a.isNumeric = true) (x u : Cell) :
    a.align x u = (x.numeric, u.numeric) := by
  have hstay : x.isText = false → u.isText = false → (x, u) = (x.numeric, u.numeric) := by
    intro hx hu
    rw [Cell.numeric_of_not_text hx, Cell.numeric_of_not_text hu]
  have hboth : (if x.isText || u.isText then (x.numeric, u.numeric) else (x, u)) =
      (x.numeric, u.numeric) := by
    split
    · rfl
    · next h =>
      simp only [Bool.or_eq_true, not_or, Bool.not_eq_true] at h
      exact hstay h.1 h.2
  cases a with
  | text => cases ha
  | none => cases ha
  | _ => exact hboth

/-- A column of numbers holds no text that spells one. -/
theorem numeric_of_stored (ha : a.isNumeric = true) (hx : a.store x = x) : x.numeric = x := by
  cases x with
  | text o =>
    rcases Cell.numeric_text o with h | h
    · exact h
    · exfalso
      have hstored : (a.store (.text o)).isText = false := by
        cases a with
        | text => cases ha
        | none => cases ha
        | real => exact Cell.isText_floating h
        | _ => exact Cell.isText_integral h
      rw [hx] at hstored
      cases hstored
  | _ => rfl

theorem compareCells_numeric (ha : a.isNumeric = true) (h : x.Equal w) (hx : a.store x = x)
    (op : Comparison) (u : Cell) :
    compareCells a .binary op x u = compareCells a .binary op w u := by
  have hnumeric : x.numeric = x := numeric_of_stored ha hx
  have hw : w.numeric = w := by
    cases h with
    | same => exact hnumeric
    | _ => rfl
  simp only [compareCells, align_numeric ha, hnumeric, hw, h.isNull, h.compareBy]

/-- Cells that are equal compare the same where a column stores one of them. -/
theorem compareCells_equal (h : x.Equal w) (hx : a.store x = x) (op : Comparison) (u : Cell) :
    compareCells a .binary op x u = compareCells a .binary op w u := by
  cases a with
  | none => simp [compareCells, align, h.isNull, h.compareBy]
  | text =>
    -- A column of texts stores no number.
    cases h with
    | same => rfl
    | double n => cases hx
    | whole n => cases hx
  | _ => exact compareCells_numeric rfl h hx op u

/-- A stored cell that is equal to a value is equal to what the column makes of it. -/
theorem equal_store {u : Cell} (ha : a ≠ .real) (hx : a.store x = x)
    (h : compareCells a .binary .equals x u = some true) : x.Equal (a.store u) := by
  unfold compareCells at h
  split at h
  · cases h
  have heq : (a.align x u).1.Equal (a.align x u).2 := by
    apply Cell.equal_of_compareBy
    simpa [verdict] using h
  have hnumber : a.isNumeric = true → x.Equal u.numeric := by
    intro ha
    rw [align_numeric ha, numeric_of_stored ha hx] at heq
    exact heq
  cases a with
  | none => exact heq
  | text =>
    have htextual : x.textual.Equal u.textual ∨ x.Equal u ∧ u.isText = false := by
      simp only [align] at heq
      split at heq
      · exact .inl heq
      · next hnone =>
        simp only [Bool.or_eq_true, not_or, Bool.not_eq_true] at hnone
        exact .inr ⟨heq, hnone.2⟩
    rcases htextual with hsame | ⟨hsame, hu⟩
    · rw [show x.textual = x from hx] at hsame
      exact hsame
    · -- Neither is a text, so both are the same byte string.
      cases hsame with
      | same =>
        rw [hx]
        exact .same _
      | double n => cases hx
      | whole n => cases hx
  | real => exact absurd rfl ha
  | _ => exact (hnumber rfl).trans (Cell.integral_equal _).symm

end Affinity

end Table

end LiveRecords
