import LiveRecords.RecordId
import LiveRecords.Proofs.Lettering
import Mathlib.Algebra.Ring.Nat
import Mathlib.Data.List.SplitLengths

/-!
# Spellings of record ids

An id is sixteen octets, and it has four spellings, whose letters may stand in
either case and which blanks may surround. Reading finds the id that is spelled,
if there is one, and so no text has two ids. The order of ids is that of their
octets, and that of their canonical texts.
-/

namespace LiveRecords

namespace Text

/-! ## Cases and blanks -/

/-- A character that is no letter has no other case. -/
theorem toLower_eq_iff {c d : Char}
    (hd : d.toNat < 65 ∨ (90 < d.toNat ∧ d.toNat < 97) ∨ 122 < d.toNat) :
    c.toLower = d ↔ c = d := by
  rw [← Char.toNat_inj, ← Char.toNat_inj, toNat_toLower]
  split <;> omega

theorem toLower_of_isBlank {c : Char} (h : isBlank c = true) : c.toLower = c := by
  have hc : ¬(65 ≤ c.toNat ∧ c.toNat ≤ 90) := by
    simp only [isBlank, Bool.or_eq_true, Bool.and_eq_true, decide_eq_true_eq, beq_iff_eq] at h
    omega
  rw [← Char.toNat_inj, toNat_toLower, if_neg hc]

variable {cs mid lead tail : List Char}

theorem trimStart_append (h : ∀ c ∈ lead, isBlank c = true) :
    trimStart (lead ++ cs) = trimStart cs :=
  List.dropWhile_append_of_pos h

theorem trimStart_eq {c : Char} (h : cs.head? = some c) (hc : isBlank c = false) :
    trimStart cs = cs := by
  obtain ⟨rest, rfl⟩ := List.head?_eq_some_iff.mp h
  exact trimStart_eq_self hc

/-- A text that neither begins nor ends with a blank is what is left of it when
blanks are cut off around it. -/
theorem trim_append {first last : Char} (hlead : ∀ c ∈ lead, isBlank c = true)
    (htail : ∀ c ∈ tail, isBlank c = true) (hfirst : mid.head? = some first)
    (hlast : mid.getLast? = some last) (hf : isBlank first = false) (hl : isBlank last = false) :
    trim (lead ++ mid ++ tail) = mid := by
  have hhead : (mid ++ tail).head? = some first := by rw [List.head?_append, hfirst]; rfl
  have hback : mid.reverse.head? = some last := by rw [List.head?_reverse, hlast]
  rw [trim, List.append_assoc, trimStart_append hlead, trimStart_eq hhead hf, List.reverse_append,
    trimStart_append (by simpa using htail), trimStart_eq hback hl, List.reverse_reverse]

theorem exists_trimStart (cs : List Char) :
    ∃ lead, cs = lead ++ trimStart cs ∧ ∀ c ∈ lead, isBlank c = true :=
  ⟨cs.takeWhile isBlank, List.takeWhile_append_dropWhile.symm,
    List.all_eq_true.mp List.all_takeWhile⟩

theorem exists_trim (cs : List Char) :
    ∃ lead tail, cs = lead ++ trim cs ++ tail ∧ (∀ c ∈ lead, isBlank c = true) ∧
      ∀ c ∈ tail, isBlank c = true := by
  obtain ⟨lead, hcs, hlead⟩ := exists_trimStart cs
  obtain ⟨tail, hrest, htail⟩ := exists_trimStart (trimStart cs).reverse
  refine ⟨lead, tail.reverse, ?_, hlead, fun c hc => htail c (List.mem_reverse.mp hc)⟩
  have hback := congrArg List.reverse hrest
  rw [List.reverse_reverse, List.reverse_append] at hback
  rw [List.append_assoc, trim, ← hback, ← hcs]

theorem trim_eq_nil_iff : trim cs = [] ↔ ∀ c ∈ cs, isBlank c = true := by
  constructor
  · intro h
    obtain ⟨lead, tail, hcs, hlead, htail⟩ := exists_trim cs
    rw [h, List.append_nil] at hcs
    intro c hc
    rw [hcs] at hc
    exact (List.mem_append.mp hc).elim (hlead c) (htail c)
  · intro h
    have hnil : trimStart (cs ++ []) = [] := trimStart_append h
    rw [List.append_nil] at hnil
    rw [trim, hnil]
    rfl

namespace Hex

/-! ## Digits -/

theorem digit_eq {n : Nat} (h : n < 16) : digit n = Nat.digitChar n := by
  have hall : ∀ m : Fin 16, digit m = Nat.digitChar m := by decide
  exact hall ⟨n, h⟩

theorem digit_plain {n : Nat} (h : n < 16) :
    (digit n).toLower = digit n ∧ isBlank (digit n) = false := by
  have hall : ∀ m : Fin 16, (digit m).toLower = digit m ∧ isBlank (digit m) = false := by decide
  exact hall ⟨n, h⟩

theorem digit_lt {m n : Nat} (hm : m < 16) (hn : n < 16) : digit m < digit n ↔ m < n := by
  have hall : ∀ a b : Fin 16, digit a < digit b ↔ a < b := by decide
  exact hall ⟨m, hm⟩ ⟨n, hn⟩

theorem digit_inj {m n : Nat} (hm : m < 16) (hn : n < 16) : digit m = digit n ↔ m = n := by
  refine ⟨fun h => ?_, congrArg digit⟩
  have hv := congrArg value? h
  rwa [value?_digit hm, value?_digit hn, Option.some.injEq] at hv

/-- What is read as a digit is that digit in lower case. -/
theorem value?_iff {c : Char} {n : Nat} : value? c = some n ↔ n < 16 ∧ c.toLower = digit n := by
  constructor
  · intro h
    have hlower := toNat_toLower c
    simp only [value?] at h
    unfold digit
    split at h
    · obtain rfl := Option.some.inj h
      rw [if_neg (by omega)] at hlower
      exact ⟨by omega, by rw [if_pos (by omega)]; exact eq_ofNat (by omega)⟩
    split at h
    · obtain rfl := Option.some.inj h
      rw [if_neg (by omega)] at hlower
      exact ⟨by omega, by rw [if_neg (by omega)]; exact eq_ofNat (by omega)⟩
    split at h
    · obtain rfl := Option.some.inj h
      rw [if_pos (by omega)] at hlower
      exact ⟨by omega, by rw [if_neg (by omega)]; exact eq_ofNat (by omega)⟩
    · cases h
  · rintro ⟨hn, hc⟩
    have hlower : value? c = value? c.toLower := by
      simp only [value?, toNat_toLower]
      split_ifs <;> first | rfl | omega
    rw [hlower, hc, value?_digit hn]

theorem decode?_iff {cs : List Char} {bs : List UInt8} :
    decode? cs = some bs ↔ cs.map Char.toLower = encode bs := by
  constructor
  · intro h
    fun_induction decode? cs generalizing bs with
    | case1 =>
      obtain rfl := Option.some.inj h
      rfl
    | case2 => cases h
    | case3 hi lo cs m l rest hrest hl hm ih =>
      obtain rfl := Option.some.inj h
      obtain ⟨hmlt, hm⟩ := value?_iff.mp hm
      obtain ⟨hllt, hl⟩ := value?_iff.mp hl
      have hbyte : (UInt8.ofNat (16 * m + l)).toNat = 16 * m + l := by
        rw [UInt8.toNat_ofNat']
        omega
      rw [List.map_cons, List.map_cons, ih hrest, hm, hl, encode, hbyte,
        show (16 * m + l) / 16 = m by omega, show (16 * m + l) % 16 = l by omega]
    | case4 => cases h
  · intro h
    induction bs generalizing cs with
    | nil =>
      obtain rfl := List.map_eq_nil_iff.mp h
      rfl
    | cons b bs ih =>
      obtain ⟨hi, more, rfl, hhi, hmore⟩ := List.map_eq_cons_iff.mp h
      obtain ⟨lo, rest, rfl, hlo, hrest⟩ := List.map_eq_cons_iff.mp hmore
      have hb : b.toNat < 256 := b.toNat_lt
      have hsum : 16 * (b.toNat / 16) + b.toNat % 16 = b.toNat := by omega
      rw [decode?, value?_iff.mpr ⟨by omega, hhi⟩, value?_iff.mpr ⟨by omega, hlo⟩, ih hrest]
      simp only [hsum, UInt8.ofNat_toNat]

theorem encode_eq_flatMap (bs : List UInt8) :
    encode bs = bs.flatMap fun b => [Nat.digitChar (b.toNat / 16), Nat.digitChar (b.toNat % 16)] := by
  induction bs with
  | nil => rfl
  | cons b bs ih =>
    have hb : b.toNat < 256 := b.toNat_lt
    rw [encode, ih, digit_eq (by omega), digit_eq (by omega)]
    rfl

theorem encode_plain {bs : List UInt8} {c : Char} (h : c ∈ encode bs) :
    c.toLower = c ∧ isBlank c = false := by
  induction bs with
  | nil => cases h
  | cons b bs ih =>
    have hb : b.toNat < 256 := b.toNat_lt
    rcases List.mem_cons.mp h with rfl | h
    · exact digit_plain (by omega)
    rcases List.mem_cons.mp h with rfl | h
    · exact digit_plain (by omega)
    · exact ih h

end Hex

end Text

namespace RecordId

open Text

/-! ## Hyphens -/

variable {ns : List Nat} {cs ds : List Char} {id id' : RecordId}

theorem hyphenate_cons (n m : Nat) (ns : List Nat) (cs : List Char) :
    hyphenate (n :: m :: ns) cs = cs.take n ++ '-' :: hyphenate (m :: ns) (cs.drop n) := rfl

theorem dehyphenate?_cons_eq_some {n m : Nat} :
    dehyphenate? (n :: m :: ns) cs = some ds ↔ ∃ group rest more, cs = group ++ '-' :: rest ∧
      group.length = n ∧ dehyphenate? (m :: ns) rest = some more ∧ ds = group ++ more := by
  rw [dehyphenate?.eq_3 _ _ _ (List.cons_ne_nil m ns)]
  constructor
  · intro h
    split at h
    · next rest hdrop =>
      obtain ⟨more, hmore, rfl⟩ := Option.map_eq_some_iff.mp h
      have hlt : n < cs.length := by
        rw [← List.drop_eq_nil_iff.not.trans Nat.not_le, hdrop]
        exact List.cons_ne_nil _ _
      exact ⟨cs.take n, rest, more, by rw [← hdrop, List.take_append_drop],
        List.length_take_of_le hlt.le, hmore, rfl⟩
    · cases h
  · rintro ⟨group, rest, more, rfl, rfl, hmore, rfl⟩
    simp [hmore]

theorem dehyphenate?_eq_some :
    dehyphenate? ns cs = some ds ↔ cs = hyphenate ns ds ∧ ds.length = ns.sum := by
  induction ns generalizing cs ds with
  | nil =>
    simp only [dehyphenate?, hyphenate, Option.ite_none_right_eq_some, Option.some.injEq,
      List.sum_nil, List.length_eq_zero_iff]
    constructor
    · rintro ⟨rfl, rfl⟩
      exact ⟨rfl, rfl⟩
    · rintro ⟨rfl, rfl⟩
      exact ⟨rfl, rfl⟩
  | cons n ns ih =>
  cases ns with
  | nil =>
    simp only [dehyphenate?, hyphenate, Option.ite_none_right_eq_some, Option.some.injEq,
      List.sum_singleton]
    constructor
    · rintro ⟨hn, rfl⟩
      exact ⟨rfl, hn⟩
    · rintro ⟨rfl, hn⟩
      exact ⟨hn, rfl⟩
  | cons m ns =>
    rw [dehyphenate?_cons_eq_some, hyphenate_cons, List.sum_cons]
    constructor
    · rintro ⟨group, rest, more, rfl, rfl, hmore, rfl⟩
      obtain ⟨rfl, hlen⟩ := ih.mp hmore
      simp [hlen]
    · rintro ⟨rfl, hlen⟩
      refine ⟨ds.take n, _, ds.drop n, rfl, List.length_take_of_le (by omega),
        ih.mpr ⟨rfl, ?_⟩, (List.take_append_drop n ds).symm⟩
      rw [List.length_drop, hlen]
      omega

theorem map_hyphenate {f : Char → Char} (hf : f '-' = '-') (ns : List Nat) (cs : List Char) :
    (hyphenate ns cs).map f = hyphenate ns (cs.map f) := by
  fun_induction hyphenate ns cs with
  | case1 | case2 => rfl
  | case3 n ns cs hns ih =>
    cases ns with
    | nil => exact absurd rfl hns
    | cons m ns => simp [hyphenate_cons, hf, ih]

/-- Groups are found in any case. -/
theorem dehyphenate?_map {f : Char → Char} (hf : ∀ c, f c = '-' → c = '-')
    (h : dehyphenate? ns (cs.map f) = some ds) :
    ∃ es, dehyphenate? ns cs = some es ∧ es.map f = ds := by
  induction ns generalizing cs ds with
  | nil => simp_all [dehyphenate?]
  | cons n ns ih =>
  cases ns with
  | nil => simp_all [dehyphenate?]
  | cons m ns =>
    obtain ⟨group, rest, more, hcs, hgroup, hmore, rfl⟩ := dehyphenate?_cons_eq_some.mp h
    obtain ⟨group, tail, rfl, rfl, htail⟩ := List.map_eq_append_iff.mp hcs
    obtain ⟨c, rest, rfl, hc, rfl⟩ := List.map_eq_cons_iff.mp htail
    obtain rfl := hf c hc
    obtain ⟨es, hes, rfl⟩ := ih hmore
    exact ⟨group ++ es, dehyphenate?_cons_eq_some.mpr
      ⟨group, rest, es, rfl, by rwa [List.length_map] at hgroup, hes, rfl⟩, List.map_append⟩

theorem mem_hyphenate {c : Char} (h : c ∈ hyphenate ns cs) : c = '-' ∨ c ∈ cs := by
  fun_induction hyphenate ns cs with
  | case1 | case2 => exact .inr h
  | case3 n ns cs hns ih =>
    rcases List.mem_append.mp h with h | h
    · exact .inr (List.mem_of_mem_take h)
    rcases List.mem_cons.mp h with rfl | h
    · exact .inl rfl
    · exact (ih h).imp_right List.mem_of_mem_drop

/-! ## Spellings -/

/-- The spellings of an id, in lower case. -/
inductive Spelling (id : RecordId) : List Char → Prop
  | bare : Spelling id id.digits
  | hyphenated : Spelling id id.text.toList
  | braced : Spelling id ('\x7b' :: id.text.toList ++ ['\x7d'])
  | named : Spelling id ("urn:uuid:".toList ++ id.text.toList)

/-- A spelling of an id, each letter in either case. -/
def Spells (id : RecordId) (cs : List Char) : Prop := ∃ t, id.Spelling t ∧ SameLetters cs t

/-- A spelling of an id with blanks around it. -/
def IsWritten (id : RecordId) (s : String) : Prop :=
  ∃ lead cs tail, s.toList = lead ++ cs ++ tail ∧ (∀ c ∈ lead, isBlank c = true) ∧
    (∀ c ∈ tail, isBlank c = true) ∧ id.Spells cs

theorem length_digits (id : RecordId) : id.digits.length = 32 := by
  rw [digits, Hex.length_encode, id.length_eq]

theorem toList_text (id : RecordId) : id.text.toList = hyphenate groupSizes id.digits :=
  String.toList_ofList

theorem hyphenate_eq (h : cs.length ≤ ns.sum) :
    hyphenate ns cs = List.intercalate ['-'] (ns.splitLengths cs) := by
  induction ns generalizing cs with
  | nil =>
    obtain rfl := List.length_eq_zero_iff.mp (Nat.le_zero.mp h)
    rfl
  | cons n ns ih =>
  cases ns with
  | nil =>
    rw [List.sum_singleton] at h
    simp [hyphenate, List.intercalate, List.take_of_length_le h]
  | cons m ns =>
    rw [List.sum_cons] at h
    rw [hyphenate_cons, ih (by rw [List.length_drop]; omega)]
    simp [List.intercalate]

/-- The canonical text has the digits in groups of eight, four, four, four and twelve. -/
theorem text_eq (id : RecordId) :
    id.text.toList = List.intercalate ['-'] ([8, 4, 4, 4, 12].splitLengths id.digits) := by
  rw [toList_text]
  exact hyphenate_eq (Nat.le_of_eq (length_digits id))

theorem text_plain {c : Char} (h : c ∈ id.text.toList) : c.toLower = c ∧ isBlank c = false := by
  rw [toList_text] at h
  rcases mem_hyphenate h with rfl | h
  · decide
  · exact Hex.encode_plain h

theorem Spelling.plain {t : List Char} (h : id.Spelling t) {c : Char} (hc : c ∈ t) :
    c.toLower = c ∧ isBlank c = false := by
  cases h with
  | bare => exact Hex.encode_plain hc
  | hyphenated => exact text_plain hc
  | braced =>
    simp only [List.mem_append, List.mem_cons, List.not_mem_nil, or_false] at hc
    rcases hc with (rfl | hc) | rfl
    · decide
    · exact text_plain hc
    · decide
  | named =>
    rcases List.mem_append.mp hc with hc | hc
    · have hname : "urn:uuid:".toList.all (fun d => d.toLower == d && !isBlank d) = true := by
        decide
      simpa using List.all_eq_true.mp hname c hc
    · exact text_plain hc

/-- A text spells an id if in lower case it is one of the spellings. -/
theorem spells_iff : id.Spells cs ↔ id.Spelling (cs.map Char.toLower) := by
  constructor
  · rintro ⟨t, ht, hsame⟩
    rw [sameLetters_iff.mp hsame, List.map_congr_left (g := fun c => c) fun c hc => (ht.plain hc).1,
      List.map_id']
    exact ht
  · intro h
    exact ⟨_, h, sameLetters_iff.mpr (by
      rw [List.map_congr_left (g := fun c => c) fun c hc => (h.plain hc).1, List.map_id'])⟩

/-! ## Reading -/

theorem ofDigits?_iff : ofDigits? cs = some id ↔ cs.map Char.toLower = id.digits := by
  unfold ofDigits?
  constructor
  · intro h
    split at h
    · next bs hbs =>
      split at h
      · obtain rfl := Option.some.inj h
        exact Hex.decode?_iff.mp hbs
      · cases h
    · cases h
  · intro h
    rw [Hex.decode?_iff.mpr h]
    simp [id.length_eq]

theorem ofHyphenated?_iff : ofHyphenated? cs = some id ↔ cs.map Char.toLower = id.text.toList := by
  have hhyphen : ∀ c : Char, c.toLower = '-' → c = '-' := fun c => (toLower_eq_iff (by decide)).mp
  rw [toList_text, ofHyphenated?, Option.bind_eq_some_iff]
  constructor
  · rintro ⟨ds, hds, hid⟩
    rw [(dehyphenate?_eq_some.mp hds).1, map_hyphenate (by decide), ofDigits?_iff.mp hid]
  · intro h
    obtain ⟨ds, hds, hid⟩ := dehyphenate?_map hhyphen
      (dehyphenate?_eq_some.mpr ⟨h, length_digits id⟩)
    exact ⟨ds, hds, ofDigits?_iff.mpr hid⟩

theorem braced?_iff : braced? cs = some ds ↔ cs = '\x7b' :: ds ++ ['\x7d'] := by
  unfold braced?
  constructor
  · intro h
    split at h
    · next cs =>
      rw [Option.ite_none_right_eq_some] at h
      obtain ⟨hlast, hds⟩ := h
      obtain ⟨es, rfl⟩ := List.getLast?_eq_some_iff.mp hlast
      obtain rfl : es = ds := by simpa using hds
      rfl
    · cases h
  · rintro rfl
    simp

theorem ofBraced?_iff : (braced? cs).bind ofHyphenated? = some id ↔
    cs.map Char.toLower = '\x7b' :: id.text.toList ++ ['\x7d'] := by
  rw [Option.bind_eq_some_iff]
  constructor
  · rintro ⟨ds, hds, hid⟩
    rw [braced?_iff.mp hds, List.map_append, List.map_cons, ofHyphenated?_iff.mp hid]
    rfl
  · intro h
    obtain ⟨front, back, rfl, hfront, hback⟩ := List.map_eq_append_iff.mp h
    obtain ⟨left, ds, rfl, hleft, hds⟩ := List.map_eq_cons_iff.mp hfront
    obtain ⟨right, rest, rfl, hright, hrest⟩ := List.map_eq_cons_iff.mp hback
    obtain rfl := List.map_eq_nil_iff.mp hrest
    obtain rfl := (toLower_eq_iff (by decide)).mp hleft
    obtain rfl := (toLower_eq_iff (by decide)).mp hright
    exact ⟨ds, braced?_iff.mpr rfl, ofHyphenated?_iff.mpr hds⟩

theorem ofNamed?_iff : (afterUrn? cs).bind ofHyphenated? = some id ↔
    cs.map Char.toLower = "urn:uuid:".toList ++ id.text.toList := by
  rw [Option.bind_eq_some_iff]
  unfold afterUrn?
  simp only [Option.ite_none_right_eq_some, Option.some.injEq]
  constructor
  · rintro ⟨_, ⟨hname, rfl⟩, hid⟩
    rw [← hname, ← ofHyphenated?_iff.mp hid, ← List.map_append, List.take_append_drop]
  · intro h
    obtain ⟨name, ds, rfl, hname, hds⟩ := List.map_eq_append_iff.mp h
    have hlen : name.length = 9 := by
      rw [← List.length_map Char.toLower, hname]
      rfl
    exact ⟨ds, ⟨by rw [List.take_left' hlen, hname], List.drop_left' hlen⟩,
      ofHyphenated?_iff.mpr hds⟩

theorem length_text (id : RecordId) : id.text.toList.length = 36 := by
  simp [toList_text, groupSizes, hyphenate, length_digits]

/-- Which spelling a text has is told by its length. -/
theorem ofSpelling?_iff : ofSpelling? cs = some id ↔ id.Spells cs := by
  have hlen : ∀ {t : List Char}, cs.map Char.toLower = t → cs.length = t.length := fun h => by
    rw [← h, List.length_map]
  rw [spells_iff]
  unfold ofSpelling?
  constructor
  · intro h
    split at h
    · rw [ofDigits?_iff.mp h]
      exact .bare
    split at h
    · rw [ofHyphenated?_iff.mp h]
      exact .hyphenated
    split at h
    · rw [ofBraced?_iff.mp h]
      exact .braced
    split at h
    · rw [ofNamed?_iff.mp h]
      exact .named
    · cases h
  · intro h
    generalize ht : cs.map Char.toLower = t at h
    have hcs := hlen ht
    cases h with
    | bare =>
      rw [length_digits] at hcs
      rw [if_pos hcs, ofDigits?_iff, ht]
    | hyphenated =>
      rw [length_text] at hcs
      rw [if_neg (by omega), if_pos hcs, ofHyphenated?_iff, ht]
    | braced =>
      rw [List.length_append, List.length_cons, length_text] at hcs
      change cs.length = 38 at hcs
      rw [if_neg (by omega), if_neg (by omega), if_pos hcs, ofBraced?_iff, ht]
    | named =>
      rw [List.length_append, length_text] at hcs
      change cs.length = 45 at hcs
      rw [if_neg (by omega), if_neg (by omega), if_neg (by omega), if_pos hcs, ofNamed?_iff, ht]

theorem Spells.ne_nil (h : id.Spells cs) : cs ≠ [] := by
  rintro rfl
  obtain ⟨t, ht, hsame⟩ := h
  cases hsame
  generalize hnil : ([] : List Char) = t at ht
  cases ht with
  | bare => exact absurd (hnil ▸ length_digits id) (by decide)
  | hyphenated => exact absurd (hnil ▸ length_text id) (by decide)
  | braced | named => cases hnil

theorem Spells.not_blank (h : id.Spells cs) {c : Char} (hc : c ∈ cs) : isBlank c = false := by
  refine Bool.eq_false_iff.mpr fun hblank => ?_
  have hplain := (spells_iff.mp h).plain (List.mem_map_of_mem hc)
  rw [toLower_of_isBlank hblank, hblank] at hplain
  exact Bool.false_ne_true hplain.2.symm

/-- The id that is written is spelled by what stands between the blanks. -/
theorem isWritten_iff {s : String} : id.IsWritten s ↔ id.Spells (trim s.toList) := by
  constructor
  · rintro ⟨lead, cs, tail, hs, hlead, htail, h⟩
    have hfirst := List.head?_eq_some_head h.ne_nil
    have hlast := List.getLast?_eq_some_getLast h.ne_nil
    rw [hs, trim_append hlead htail hfirst hlast (h.not_blank (List.head_mem h.ne_nil))
      (h.not_blank (List.getLast_mem h.ne_nil))]
    exact h
  · intro h
    obtain ⟨lead, tail, hs, hlead, htail⟩ := exists_trim s.toList
    exact ⟨lead, _, tail, hs, hlead, htail, h⟩

theorem parse_eq (s : String) : parse s =
    if trim s.toList = [] then .error .empty
    else (ofSpelling? (trim s.toList)).elim (.error .invalidFormat) .ok := by
  unfold parse
  cases trim s.toList with
  | nil => rfl
  | cons c cs =>
    rw [if_neg (List.cons_ne_nil c cs)]
    cases hid : ofSpelling? (c :: cs) <;> simp [hid]

theorem parse_ok_iff {s : String} : parse s = .ok id ↔ id.IsWritten s := by
  rw [isWritten_iff, ← ofSpelling?_iff, parse_eq]
  cases hid : ofSpelling? (trim s.toList) with
  | none => split <;> simp
  | some id' =>
    have hne := (ofSpelling?_iff.mp hid).ne_nil
    simp [hne]

theorem parse_empty_iff {s : String} :
    parse s = .error .empty ↔ ∀ c ∈ s.toList, isBlank c = true := by
  rw [← trim_eq_nil_iff, parse_eq]
  cases ofSpelling? (trim s.toList) <;> simp

theorem parse_invalidFormat_iff {s : String} : parse s = .error .invalidFormat ↔
    (∃ c ∈ s.toList, isBlank c = false) ∧ ∀ id : RecordId, ¬id.IsWritten s := by
  have hblank : (∃ c ∈ s.toList, isBlank c = false) ↔ trim s.toList ≠ [] := by
    rw [Ne, trim_eq_nil_iff]
    simp
  simp only [hblank, isWritten_iff, ← ofSpelling?_iff]
  rw [parse_eq]
  cases ofSpelling? (trim s.toList) with
  | none => simp
  | some id => split <;> simp_all

/-! ## Order -/

theorem bytesLe_iff (as bs : List UInt8) : bytesLe as bs = true ↔ as ≤ bs := by
  rw [← List.not_lt]
  fun_induction bytesLe as bs with
  | case1 bs => simp
  | case2 a as => simp
  | case3 a as b bs hlt =>
    simp [List.cons_lt_cons_iff, UInt8.lt_asymm hlt, (UInt8.ne_of_lt hlt).symm]
  | case4 a as b bs hno hlt => simp [List.cons_lt_cons_iff, hlt]
  | case5 a as b bs hno hno' ih =>
    have heq : b = a := UInt8.le_antisymm (UInt8.not_lt.mp hno) (UInt8.not_lt.mp hno')
    simp [heq, ih]

/-- Lists that begin with as many elements are compared by these first. -/
theorem append_lt_append_iff {α : Type} [LT α] {as bs as' bs' : List α}
    (h : as.length = bs.length) :
    as ++ as' < bs ++ bs' ↔ as < bs ∨ as = bs ∧ as' < bs' := by
  induction as generalizing bs with
  | nil =>
    obtain rfl := List.length_eq_zero_iff.mp h.symm
    simp
  | cons a as ih =>
    obtain ⟨b, bs, rfl⟩ := List.exists_cons_of_length_eq_add_one h.symm
    rw [List.cons_append, List.cons_append, List.cons_lt_cons_iff, List.cons_lt_cons_iff,
      ih (Nat.succ.inj h), List.cons.injEq]
    tauto

theorem byte_lt_iff (a b : UInt8) : a < b ↔ Hex.digit (a.toNat / 16) < Hex.digit (b.toNat / 16) ∨
    Hex.digit (a.toNat / 16) = Hex.digit (b.toNat / 16) ∧
      Hex.digit (a.toNat % 16) < Hex.digit (b.toNat % 16) := by
  have ha : a.toNat < 256 := a.toNat_lt
  have hb : b.toNat < 256 := b.toNat_lt
  rw [Hex.digit_lt (by omega) (by omega), Hex.digit_lt (by omega) (by omega),
    Hex.digit_inj (by omega) (by omega), UInt8.lt_iff_toNat_lt]
  omega

theorem byte_eq_iff (a b : UInt8) : a = b ↔ Hex.digit (a.toNat / 16) = Hex.digit (b.toNat / 16) ∧
    Hex.digit (a.toNat % 16) = Hex.digit (b.toNat % 16) := by
  have ha : a.toNat < 256 := a.toNat_lt
  have hb : b.toNat < 256 := b.toNat_lt
  rw [Hex.digit_inj (by omega) (by omega), Hex.digit_inj (by omega) (by omega), ← UInt8.toNat_inj]
  omega

/-- Digits are ordered as the numbers are that they stand for. -/
theorem encode_lt_iff {as bs : List UInt8} (h : as.length = bs.length) :
    Hex.encode as < Hex.encode bs ↔ as < bs := by
  induction as generalizing bs with
  | nil =>
    obtain rfl := List.length_eq_zero_iff.mp h.symm
    simp [Hex.encode]
  | cons a as ih =>
    obtain ⟨b, bs, rfl⟩ := List.exists_cons_of_length_eq_add_one h.symm
    rw [Hex.encode, Hex.encode, List.cons_lt_cons_iff, List.cons_lt_cons_iff, List.cons_lt_cons_iff,
      ih (Nat.succ.inj h), byte_lt_iff, byte_eq_iff]
    tauto

theorem hyphenate_lt_iff (h : cs.length = ds.length) :
    hyphenate ns cs < hyphenate ns ds ↔ cs < ds := by
  fun_induction hyphenate ns cs generalizing ds with
  | case1 | case2 => exact Iff.rfl
  | case3 n ns cs hns ih =>
    have htake : (cs.take n).length = (ds.take n).length := by simp [h]
    obtain ⟨m, ns, rfl⟩ := List.exists_cons_of_ne_nil hns
    rw [hyphenate_cons, append_lt_append_iff htake, List.cons_lt_cons_iff,
      ih (by simp [h])]
    conv_rhs => rw [← List.take_append_drop n cs, ← List.take_append_drop n ds,
      append_lt_append_iff htake]
    simp

/-- Canonical texts are ordered as the octets are. -/
theorem text_lt_iff (a b : RecordId) : a.text < b.text ↔ a.bytes < b.bytes := by
  have hbytes : a.bytes.length = b.bytes.length := a.length_eq.trans b.length_eq.symm
  have htext : a.text < b.text ↔ a.text.toList < b.text.toList := Iff.rfl
  rw [htext, toList_text, toList_text, digits, digits, hyphenate_lt_iff (by simp [hbytes]),
    encode_lt_iff hbytes]

/-! ## Octets, texts and order -/

/-- Sixteen octets are an id, and no others are. A text is read as the id of which it
is a spelling, in letters of either case and with blanks around it; a blank text is
empty, and every other text is refused. No text spells two ids, and the canonical
one is read as its id. Ids, their octets and their canonical texts have one order. -/
theorem octets_and_texts :
    (∀ bs : List UInt8, bs.length = 16 → ∃ id, ofBytes bs = .ok id ∧ id.bytes = bs) ∧
      ofBytes [] = .error .empty ∧
      (∀ bs : List UInt8, bs.length ≠ 16 → bs ≠ [] →
        ofBytes bs = .error (.invalidLength bs.length)) ∧
      (∀ id : RecordId, parse id.text = .ok id) ∧
      (∀ id : RecordId, id.digits = id.bytes.flatMap fun b =>
        [Nat.digitChar (b.toNat / 16), Nat.digitChar (b.toNat % 16)]) ∧
      (∀ id : RecordId,
        id.text.toList = List.intercalate ['-'] ([8, 4, 4, 4, 12].splitLengths id.digits)) ∧
      (∀ (s : String) (id : RecordId), parse s = .ok id ↔ id.IsWritten s) ∧
      (∀ (s : String) (id id' : RecordId), id.IsWritten s → id'.IsWritten s → id = id') ∧
      (∀ s : String, parse s = .error .empty ↔ ∀ c ∈ s.toList, isBlank c = true) ∧
      (∀ s : String, parse s = .error .invalidFormat ↔
        (∃ c ∈ s.toList, isBlank c = false) ∧ ∀ id : RecordId, ¬id.IsWritten s) ∧
      ∀ a b : RecordId, (a.le b = true ↔ a.bytes ≤ b.bytes) ∧
        (a.le b = true ↔ a.text ≤ b.text) := by
  have hcanonical : ∀ id : RecordId, id.IsWritten id.text := fun id =>
    ⟨[], _, [], by simp, by simp, by simp, _, .hyphenated, .refl _⟩
  refine ⟨fun bs h => ⟨⟨bs, h⟩, by simp [ofBytes, h], rfl⟩, rfl, fun bs h hne => ?_,
    fun id => parse_ok_iff.mpr (hcanonical id), fun id => Hex.encode_eq_flatMap id.bytes, text_eq,
    fun s id => parse_ok_iff,
    fun s id id' h h' => ?_, fun s => parse_empty_iff, fun s => parse_invalidFormat_iff,
    fun a b => ⟨bytesLe_iff _ _, ?_⟩⟩
  · simp [ofBytes, h, hne]
  · have hread := parse_ok_iff.mpr h
    rw [parse_ok_iff.mpr h'] at hread
    exact (Except.ok.inj hread).symm
  · rw [← String.not_lt, text_lt_iff, List.not_lt]
    exact bytesLe_iff _ _

end RecordId

end LiveRecords
