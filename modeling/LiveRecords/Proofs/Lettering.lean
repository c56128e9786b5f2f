import LiveRecords.Name
import Mathlib.Data.List.Forall2

/-!
# The case of letters

Where the case of letters does not count, two texts are the same if at every
place they have the same character, or one ASCII letter in its two cases. That
they agree in lower case comes to the same.
-/

namespace LiveRecords.Text

/-- One character, or one letter in its two cases. -/
inductive SameLetter : Char → Char → Prop
  | same (c : Char) : SameLetter c c
  | small {n : Nat} (h : n < 26) : SameLetter (Char.ofNat (65 + n)) (Char.ofNat (97 + n))
  | capital {n : Nat} (h : n < 26) : SameLetter (Char.ofNat (97 + n)) (Char.ofNat (65 + n))

/-- Texts that differ at most in the case of letters. -/
def SameLetters (as bs : List Char) : Prop := List.Forall₂ SameLetter as bs

variable {a b : Char} {as bs : List Char}

theorem toNat_toLower (c : Char) :
    c.toLower.toNat = if 65 ≤ c.toNat ∧ c.toNat ≤ 90 then c.toNat + 32 else c.toNat := by
  unfold Char.toLower
  split
  · next h =>
    have hc : 65 ≤ c.toNat ∧ c.toNat ≤ 90 :=
      ⟨UInt32.le_iff_toNat_le.mp h.1, UInt32.le_iff_toNat_le.mp h.2⟩
    rw [if_pos hc]
    change (c.val + 32).toNat = c.toNat + 32
    rw [UInt32.toNat_add]
    have := hc.2
    change (c.toNat + 32) % 4294967296 = _
    omega
  · next h =>
    rw [if_neg]
    exact fun hc => h ⟨UInt32.le_iff_toNat_le.mpr hc.1, UInt32.le_iff_toNat_le.mpr hc.2⟩

theorem toLower_letter {n : Nat} (h : n < 26) :
    (Char.ofNat (65 + n)).toLower = (Char.ofNat (97 + n)).toLower := by
  have hall : ∀ k : Fin 26, (Char.ofNat (65 + k)).toLower = (Char.ofNat (97 + k)).toLower := by
    decide
  exact hall ⟨n, h⟩

/-- A letter is told from its number. -/
theorem eq_ofNat {c : Char} {n : Nat} (h : c.toNat = n) : c = Char.ofNat n := by
  rw [← h, Char.ofNat_toNat]

theorem sameLetter_iff : SameLetter a b ↔ a.toLower = b.toLower := by
  constructor
  · rintro (_ | h | h)
    · rfl
    · exact toLower_letter h
    · exact (toLower_letter h).symm
  · intro h
    have hn := congrArg Char.toNat h
    rw [toNat_toLower, toNat_toLower] at hn
    split at hn <;> split at hn
    · rw [Char.toNat_inj.mp (Nat.add_right_cancel hn)]
      exact .same b
    · next ha _ =>
      obtain ⟨n, hn'⟩ := Nat.exists_eq_add_of_le ha.1
      rw [eq_ofNat hn', eq_ofNat (show b.toNat = 97 + n by omega)]
      exact .small (by omega)
    · next _ hb =>
      obtain ⟨n, hn'⟩ := Nat.exists_eq_add_of_le hb.1
      rw [eq_ofNat hn', eq_ofNat (show a.toNat = 97 + n by omega)]
      exact .capital (by omega)
    · rw [Char.toNat_inj.mp hn]
      exact .same b

theorem sameLetters_iff : SameLetters as bs ↔ as.map Char.toLower = bs.map Char.toLower := by
  unfold SameLetters
  rw [← List.forall₂_eq_eq_eq, List.forall₂_map_left_iff, List.forall₂_map_right_iff]
  exact ⟨.imp fun _ _ => sameLetter_iff.mp, .imp fun _ _ => sameLetter_iff.mpr⟩

theorem SameLetters.refl (as : List Char) : SameLetters as as := sameLetters_iff.mpr rfl

end LiveRecords.Text
