import LiveRecords.Json.Reader
import LiveRecords.Proofs.Lettering

/-!
# Strings and integers in text

What is written for a string, between its quotes, is read as the octets of the
string: every character by itself is written so that it is read back. An integer
is written in digits and is read back unless something stands behind it that
belongs to a number.
-/

namespace LiveRecords

namespace Text.Utf8

variable {c : Char} {cs ds : List Char}

theorem encode_append (cs ds : List Char) : encode (cs ++ ds) = encode cs ++ encode ds :=
  List.flatMap_append

theorem encodeChar_of_lt (h : c.toNat < 0x80) : encodeChar c = [UInt8.ofNat c.toNat] := by
  unfold encodeChar
  rw [if_pos h, octet, Nat.zero_add]

/-- The octets of a character beyond ASCII are beyond ASCII. -/
theorem le_encodeChar (h : 0x80 ≤ c.toNat) {b : UInt8} (hb : b ∈ encodeChar c) :
    0x80 ≤ b.toNat := by
  have hlt := toNat_lt c
  have hoctet {marker k : Nat} (hm : 0x80 ≤ marker) (hk : marker + k < 256)
      (hb : b = octet marker k) : 0x80 ≤ b.toNat := by
    rw [hb, toNat_octet hk]
    omega
  unfold encodeChar at hb
  rw [if_neg (Nat.not_lt.mpr h)] at hb
  split at hb
  · rcases List.mem_pair.mp hb with hb | hb <;> exact hoctet (by omega) (by omega) hb
  split at hb
  · simp only [List.mem_cons, List.not_mem_nil, or_false] at hb
    rcases hb with hb | hb | hb <;> exact hoctet (by omega) (by omega) hb
  · simp only [List.mem_cons, List.not_mem_nil, or_false] at hb
    rcases hb with hb | hb | hb | hb <;> exact hoctet (by omega) (by omega) hb

end Text.Utf8

namespace Json

open Text

/-! ## Strings -/

/-- Octets within a string that are read as these, however the string goes on. -/
def Spells (text os : List UInt8) : Prop :=
  ∃ n ≤ text.length, ∀ fuel rest, stringOctets (n + fuel) (text ++ rest) =
    (stringOctets fuel rest).map fun r => (os ++ r.1, r.2)

section Spells

variable {text text' os os' : List UInt8} {b : UInt8}

theorem Spells.nil : Spells [] [] := by
  refine ⟨0, Nat.le_refl 0, fun fuel rest => ?_⟩
  rw [Nat.zero_add, List.nil_append]
  cases stringOctets fuel rest <;> rfl

theorem Spells.append (h : Spells text os) (h' : Spells text' os') :
    Spells (text ++ text') (os ++ os') := by
  obtain ⟨n, hn, hread⟩ := h
  obtain ⟨n', hn', hread'⟩ := h'
  refine ⟨n + n', ?_, fun fuel rest => ?_⟩
  · rw [List.length_append]
    omega
  · rw [Nat.add_assoc, List.append_assoc, hread, hread']
    cases stringOctets fuel rest with
    | error e => rfl
    | ok r => simp only [Except.map, List.append_assoc]

/-- What is no quote, no backslash and no control stands for itself. -/
theorem spells_self (hc : ¬ b < 32) (hq : b ≠ octet '"') (hs : b ≠ octet '\\') : Spells [b] [b] := by
  refine ⟨1, Nat.le_refl 1, fun fuel rest => ?_⟩
  rw [Nat.add_comm, List.singleton_append, stringOctets, if_neg hq, if_neg hs, if_neg hc]
  cases stringOctets fuel rest <;> rfl

theorem spells_plain (h : ∀ b ∈ os, ¬ b < 32 ∧ b ≠ octet '"' ∧ b ≠ octet '\\') : Spells os os := by
  induction os with
  | nil => exact .nil
  | cons b os ih =>
    obtain ⟨hc, hq, hs⟩ := h b List.mem_cons_self
    exact (spells_self hc hq hs).append (ih fun b hb => h b (List.mem_cons_of_mem _ hb))

theorem spells_escape (h : ∀ rest, escape (text ++ rest) = .ok (os, rest)) :
    Spells (octet '\\' :: text) os := by
  refine ⟨1, by simp, fun fuel rest => ?_⟩
  rw [Nat.add_comm, List.cons_append, stringOctets, if_neg (by decide), if_pos rfl, h]
  simp only
  cases stringOctets fuel rest <;> rfl

end Spells

/-- A control that has no letter of its own is written by its number. -/
theorem escape_control {n : Nat} (h : n < 32) (rest : List UInt8) :
    escape (octet 'u' :: octet '0' :: octet '0' :: octet (Hex.digit (n / 16)) ::
      octet (Hex.digit (n % 16)) :: rest) = .ok (Utf8.encodeChar (Char.ofNat n), rest) := by
  have hvalue : ∀ m < 16, Hex.value? (Char.ofNat (octet (Hex.digit m)).toNat) = some m := by decide
  have hzero : Hex.value? (Char.ofNat (octet '0').toNat) = some 0 := by decide
  have hfour : hexFour (octet '0' :: octet '0' :: octet (Hex.digit (n / 16)) ::
      octet (Hex.digit (n % 16)) :: rest) = .ok (n, rest) := by
    simp only [hexFour, hvalue (n / 16) (by omega), hvalue (n % 16) (by omega), hzero]
    congr 2
    omega
  have hescape : unicodeEscape (octet '0' :: octet '0' :: octet (Hex.digit (n / 16)) ::
      octet (Hex.digit (n % 16)) :: rest) = .ok (n, rest) := by
    simp only [unicodeEscape, hfour, bind, Except.bind]
    rw [if_neg (by omega), if_neg (by omega)]
    rfl
  simp only [escape, if_true, hescape, bind, Except.bind]
  rfl

/-- What is neither a quote nor a backslash nor a control is written as it is. -/
theorem spells_unescaped {c : Char} (hq : c ≠ '"') (hs : c ≠ '\\') (hc : ¬ c.toNat < 32) :
    Spells (Utf8.encode [c]) (Utf8.encodeChar c) := by
  rw [Utf8.encode_cons, Utf8.encode_nil, List.append_nil]
  refine spells_plain fun b hb => ?_
  by_cases hlt : c.toNat < 0x80
  · rw [Utf8.encodeChar_of_lt hlt, List.mem_singleton] at hb
    have hnat : b.toNat = c.toNat := by
      rw [hb, UInt8.toNat_ofNat', Nat.mod_eq_of_lt (by omega)]
    have hne {d : Char} (hd : c ≠ d) (h : d.toNat < 0x80) : b ≠ octet d := by
      rintro rfl
      rw [octet, UInt8.toNat_ofNat', Nat.mod_eq_of_lt (by omega)] at hnat
      exact hd (Char.toNat_inj.mp hnat.symm)
    refine ⟨fun h => hc ?_, hne hq (by decide), hne hs (by decide)⟩
    rw [← hnat]
    exact UInt8.lt_iff_toNat_lt.mp h
  · have hge := Utf8.le_encodeChar (Nat.not_lt.mp hlt) hb
    have hne {o : UInt8} (h : o.toNat < 0x80) : b ≠ o := by
      rintro rfl
      omega
    refine ⟨fun h => ?_, hne (by decide), hne (by decide)⟩
    have hlt : b.toNat < 32 := UInt8.lt_iff_toNat_lt.mp h
    omega

/-- A control that has no letter of its own stands for itself, by its number. -/
theorem spells_control {c : Char} (h : c.toNat < 32) :
    Spells (Utf8.encode ['\\', 'u', '0', '0', Hex.digit (c.toNat / 16), Hex.digit (c.toNat % 16)])
      (Utf8.encodeChar c) := by
  have hcontrol := escape_control h
  rw [Char.ofNat_toNat] at hcontrol
  have hdigit {m : Nat} (hm : m < 16) : Utf8.encodeChar (Hex.digit m) = [octet (Hex.digit m)] := by
    have hall : ∀ m < 16, (Hex.digit m).toNat < 0x80 := by decide
    exact Utf8.encodeChar_of_lt (hall m hm)
  have htext : Utf8.encode ['\\', 'u', '0', '0', Hex.digit (c.toNat / 16),
      Hex.digit (c.toNat % 16)] = octet '\\' :: [octet 'u', octet '0', octet '0',
        octet (Hex.digit (c.toNat / 16)), octet (Hex.digit (c.toNat % 16))] := by
    simp only [Utf8.encode_cons, Utf8.encode_nil, hdigit (show c.toNat / 16 < 16 by omega),
      hdigit (show c.toNat % 16 < 16 by omega)]
    rfl
  rw [htext]
  exact spells_escape hcontrol

theorem spells_char (c : Char) : Spells (Utf8.encode (escapeChar c)) (Utf8.encodeChar c) := by
  unfold escapeChar
  split_ifs with hquote hslash hback htab hline hfeed hreturn hcontrol
  · rw [hquote]
    exact spells_escape fun rest => rfl
  · rw [hslash]
    exact spells_escape fun rest => rfl
  · rw [eq_ofNat hback]
    exact spells_escape fun rest => rfl
  · rw [eq_ofNat htab]
    exact spells_escape fun rest => rfl
  · rw [eq_ofNat hline]
    exact spells_escape fun rest => rfl
  · rw [eq_ofNat hfeed]
    exact spells_escape fun rest => rfl
  · rw [eq_ofNat hreturn]
    exact spells_escape fun rest => rfl
  · exact spells_control hcontrol
  · exact spells_unescaped hquote hslash hcontrol

theorem spells_chars (cs : List Char) :
    Spells (Utf8.encode (cs.flatMap escapeChar)) (Utf8.encode cs) := by
  induction cs with
  | nil => exact .nil
  | cons c cs ih =>
    rw [List.flatMap_cons, Utf8.encode_append, Utf8.encode_cons]
    exact (spells_char c).append ih

/-- What is written between the quotes is read up to the closing one. -/
theorem stringBody_escaped (s : String) (rest : List UInt8) :
    stringBody (Utf8.encode (s.toList.flatMap escapeChar) ++ octet '"' :: rest) = .ok (s, rest) := by
  obtain ⟨n, hn, hread⟩ := spells_chars s.toList
  obtain ⟨more, hmore⟩ := Nat.exists_eq_add_of_le hn
  have hfuel : (Utf8.encode (s.toList.flatMap escapeChar) ++ octet '"' :: rest).length =
      n + (more + rest.length + 1) := by
    rw [List.length_append, List.length_cons]
    omega
  have hquote : stringOctets (more + rest.length + 1) (octet '"' :: rest) = .ok ([], rest) := by
    rw [stringOctets, if_pos rfl]
  rw [stringBody, hfuel, hread, hquote]
  simp only [Except.map, List.append_nil]
  rw [show Utf8.text? (Utf8.encode s.toList) = some s from Utf8.text?_bytes s]

/-- The octets of a string as it is written. -/
theorem encode_renderString (s : String) : Utf8.encode (renderString s) =
    octet '"' :: (Utf8.encode (s.toList.flatMap escapeChar) ++ [octet '"']) := by
  rw [renderString, List.cons_append, Utf8.encode_cons, Utf8.encode_append]
  rfl

/-! ## Integers -/

/-- No digit, point or exponent follows. -/
def Ends (bs : List UInt8) : Prop :=
  ∀ b ∈ bs.head?, isDigitOctet b = false ∧ b ≠ octet '.' ∧ b ≠ octet 'e' ∧ b ≠ octet 'E'

section Integers

variable {bs : List UInt8}

theorem Ends.nil : Ends [] := nofun

theorem Ends.cons {b : UInt8} (h : b = octet ',' ∨ b = octet ']' ∨ b = octet '\x7d')
    (bs : List UInt8) : Ends (b :: bs) := by
  intro c hc
  obtain rfl := Option.some.inj hc
  rcases h with rfl | rfl | rfl <;> decide

/-- A digit is one octet, which is told from others and read as the digit. -/
theorem octet_digit {c : Char} (h : c.isDigit = true) :
    c.toNat < 0x80 ∧ isDigitOctet (octet c) = true ∧ Char.ofNat (octet c).toNat = c := by
  simp only [Char.isDigit, Bool.and_eq_true, decide_eq_true_eq] at h
  have hlow : 48 ≤ c.toNat := UInt32.le_iff_toNat_le.mp h.1
  have hhigh : c.toNat ≤ 57 := UInt32.le_iff_toNat_le.mp h.2
  have hoctet : (octet c).toNat = c.toNat := by
    rw [octet, UInt8.toNat_ofNat', Nat.mod_eq_of_lt (by omega)]
  refine ⟨by omega, ?_, ?_⟩
  · rw [isDigitOctet, hoctet]
    simp [hlow, hhigh]
  · rw [hoctet, Char.ofNat_toNat]

theorem encode_digits {cs : List Char} (h : ∀ c ∈ cs, c.isDigit = true) :
    Utf8.encode cs = cs.map octet := by
  induction cs with
  | nil => rfl
  | cons c cs ih =>
    rw [Utf8.encode_cons, Utf8.encodeChar_of_lt (octet_digit (h c List.mem_cons_self)).1,
      ih fun d hd => h d (List.mem_cons_of_mem _ hd)]
    rfl

theorem digitsOf_append {cs : List Char} (h : ∀ c ∈ cs, c.isDigit = true) (hbs : Ends bs) :
    digitsOf (Utf8.encode cs ++ bs) = cs ∧ afterDigits (Utf8.encode cs ++ bs) = bs := by
  have hdigits : ∀ b ∈ cs.map octet, isDigitOctet b = true := by
    intro b hb
    obtain ⟨c, hc, rfl⟩ := List.mem_map.mp hb
    exact (octet_digit (h c hc)).2.1
  have hstop : bs.takeWhile isDigitOctet = [] ∧ bs.dropWhile isDigitOctet = bs := by
    cases bs with
    | nil => exact ⟨rfl, rfl⟩
    | cons b bs =>
      have hb : ¬ isDigitOctet b = true := Bool.not_eq_true _ ▸ (hbs b rfl).1
      exact ⟨List.takeWhile_cons_of_neg hb, List.dropWhile_cons_of_neg hb⟩
  rw [encode_digits h, digitsOf, afterDigits, List.takeWhile_append_of_pos hdigits,
    List.dropWhile_append_of_pos hdigits, hstop.1, hstop.2, List.append_nil, List.map_map]
  have hread : cs.map ((fun b => Char.ofNat b.toNat) ∘ octet) = cs.map id :=
    List.map_congr_left fun c hc => (octet_digit (h c hc)).2.2
  exact ⟨hread.trans (List.map_id cs), rfl⟩

/-- Only zero begins with a zero. -/
theorem toDigits_ne_zero_cons (n : Nat) (c : Char) (cs : List Char) :
    Nat.toDigits 10 n ≠ '0' :: c :: cs := by
  induction n using Nat.strongRecOn generalizing c cs with
  | ind n ih =>
    intro h
    rcases Nat.lt_or_ge n 10 with hn | hn
    · rw [Nat.toDigits_of_lt_base hn] at h
      exact List.cons_ne_nil c cs (List.cons.inj h).2.symm
    · rw [Nat.toDigits_of_base_le (by decide) hn] at h
      cases hmore : Nat.toDigits 10 (n / 10) with
      | nil => exact Nat.toDigits_ne_nil hmore
      | cons d ds =>
        rw [hmore] at h
        obtain ⟨rfl, -⟩ := List.cons.inj h
        cases ds with
        | nil =>
          have hvalue := Nat.ofDigitChars_toDigits (b := 10) (n := n / 10) (by decide) (by decide)
          rw [hmore] at hvalue
          have hzero : n / 10 = 0 := hvalue.symm
          omega
        | cons e es => exact ih (n / 10) (by omega) e es hmore

/-- The digits of a number are read as far as they go. -/
theorem number_digits (negative : Bool) (n : Nat) (hbs : Ends bs) :
    number negative (Utf8.encode (Nat.toDigits 10 n) ++ bs) =
      (plainNumber negative (Nat.toDigits 10 n)).map (·, bs) := by
  have hall : ∀ c ∈ Nat.toDigits 10 n, c.isDigit = true := fun c hc =>
    Nat.isDigit_of_mem_toDigits (by decide) (by decide) hc
  obtain ⟨hdigits, hafter⟩ := digitsOf_append hall hbs
  have hwhole : wholeDigits (Utf8.encode (Nat.toDigits 10 n) ++ bs) =
      .ok (Nat.toDigits 10 n, bs) := by
    rw [wholeDigits, hdigits, hafter]
    split
    · next h => exact absurd h Nat.toDigits_ne_nil
    · next h => exact absurd h (toDigits_ne_zero_cons n _ _)
    · rfl
  have hpoint : startsWithMark '.' '.' bs = false := by
    cases bs with
    | nil => rfl
    | cons b bs => simp [startsWithMark, (hbs b rfl).2.1]
  have hexponent : startsWithMark 'e' 'E' bs = false := by
    cases bs with
    | nil => rfl
    | cons b bs => simp [startsWithMark, (hbs b rfl).2.2]
  simp only [number, hwhole, hpoint, hexponent, bind, Except.bind, Bool.false_eq_true, if_false,
    List.isEmpty_nil, if_true]
  cases plainNumber negative (Nat.toDigits 10 n) <;> rfl

theorem natOf_toDigits (n : Nat) : Number.Decimal.natOf (Nat.toDigits 10 n) = n :=
  Nat.ofDigitChars_toDigits (by decide) (by decide)

theorem plainNumber_pos {n : Nat} (h : n < 0x10000000000000000) :
    plainNumber false (Nat.toDigits 10 n) = .ok (.integer n) := by
  simp only [plainNumber, natOf_toDigits, Bool.false_eq_true, if_false, if_pos h]

theorem plainNumber_neg {n : Nat} (hpos : 0 < n) (h : n ≤ 0x8000000000000000) :
    plainNumber true (Nat.toDigits 10 n) = .ok (.integer (-(n : Int))) := by
  simp only [plainNumber, natOf_toDigits, if_true, if_pos (And.intro hpos h)]

theorem renderInteger_of_nonneg {n : Int} (h : 0 ≤ n) :
    renderInteger n = Nat.toDigits 10 n.toNat := by
  rw [renderInteger, Int.toString_eq_repr, Int.repr_eq_if, if_pos h, Nat.toList_repr]

theorem renderInteger_of_neg {n : Int} (h : n < 0) :
    renderInteger n = '-' :: Nat.toDigits 10 (-n).toNat := by
  rw [renderInteger, Int.toString_eq_repr, Int.repr_eq_if, if_neg (Int.not_le.mpr h),
    String.toList_append, Nat.toList_repr]
  rfl

end Integers

end Json

end LiveRecords
