/-!
# UTF-8

Characters as octets and back. `decode?` refuses overlong forms, surrogates
and everything beyond the last code point, so a text has one octet form.
-/

namespace LiveRecords.Text.Utf8

/-- The octet with these marker bits and payload. -/
def octet (marker payload : Nat) : UInt8 := UInt8.ofNat (marker + payload)

/-- One to four octets, by the size of the code point. -/
def encodeChar (c : Char) : List UInt8 :=
  let n := c.toNat
  if n < 0x80 then [octet 0 n]
  else if n < 0x800 then [octet 0xC0 (n / 64), octet 0x80 (n % 64)]
  else if n < 0x10000 then
    [octet 0xE0 (n / 4096), octet 0x80 (n / 64 % 64), octet 0x80 (n % 64)]
  else
    [octet 0xF0 (n / 262144), octet 0x80 (n / 4096 % 64), octet 0x80 (n / 64 % 64),
      octet 0x80 (n % 64)]

def encode (cs : List Char) : List UInt8 := cs.flatMap encodeChar

/-- What an octet carries beside its marker bits. -/
def payload (marker : Nat) (b : UInt8) : Nat := b.toNat - marker

/-- The six payload bits of a continuation octet. -/
def tail? (b : UInt8) : Option Nat :=
  if 0x80 ≤ b.toNat ∧ b.toNat < 0xC0 then some (payload 0x80 b) else none

/-- The character with this code point, if it is one and is at least `least`. -/
def charAbove? (least n : Nat) : Option Char :=
  if least ≤ n ∧ n.isValidChar then some (Char.ofNat n) else none

/-- A number continued by six bits from each of these octets. -/
def extend? : Nat → List UInt8 → Option Nat
  | n, [] => some n
  | n, b :: bs => (tail? b).bind fun k => extend? (n * 64 + k) bs

/-- The character of a leading octet's payload and the octets behind it. -/
def wideChar? (least start : Nat) (tails : List UInt8) : Option Char :=
  (extend? start tails).bind (charAbove? least)

/-- The first character of the octets and what follows it. -/
def decodeChar? : List UInt8 → Option (Char × List UInt8)
  | [] => none
  | a :: rest =>
    let n := a.toNat
    if n < 0x80 then some (Char.ofNat n, rest)
    else if n < 0xC0 then none
    else if n < 0xE0 then
      match rest with
      | b :: rest => (wideChar? 0x80 (payload 0xC0 a) [b]).map (·, rest)
      | _ => none
    else if n < 0xF0 then
      match rest with
      | b :: c :: rest => (wideChar? 0x800 (payload 0xE0 a) [b, c]).map (·, rest)
      | _ => none
    else if n < 0xF8 then
      match rest with
      | b :: c :: d :: rest => (wideChar? 0x10000 (payload 0xF0 a) [b, c, d]).map (·, rest)
      | _ => none
    else none

/-- Reads at most `fuel` characters; the number of octets is always enough. -/
def decodeUpTo : Nat → List UInt8 → Option (List Char)
  | _, [] => some []
  | 0, _ :: _ => none
  | fuel + 1, bs =>
    match decodeChar? bs with
    | some (c, rest) => (decodeUpTo fuel rest).map (c :: ·)
    | none => none

def decode? (bs : List UInt8) : Option (List Char) := decodeUpTo bs.length bs

/-- The octets of a text. -/
def bytes (s : String) : List UInt8 := encode s.toList

/-- The text with these octets. -/
def text? (bs : List UInt8) : Option String := (decode? bs).map String.ofList

@[simp] theorem encode_nil : encode [] = [] := rfl

@[simp] theorem encode_cons (c : Char) (cs : List Char) :
    encode (c :: cs) = encodeChar c ++ encode cs := by
  simp [encode]

theorem toNat_octet {marker payload : Nat} (h : marker + payload < 256) :
    (octet marker payload).toNat = marker + payload := by
  rw [octet, UInt8.toNat_ofNat', Nat.mod_eq_of_lt h]

theorem payload_octet {marker k : Nat} (h : marker + k < 256) :
    payload marker (octet marker k) = k := by
  rw [payload, toNat_octet h]
  omega

theorem tail?_octet {k : Nat} (h : k < 64) : tail? (octet 0x80 k) = some k := by
  have hk : 0x80 + k < 256 := by omega
  rw [tail?, toNat_octet hk, payload_octet hk, if_pos (by omega)]

theorem charAbove?_toNat {least : Nat} {c : Char} (h : least ≤ c.toNat) :
    charAbove? least c.toNat = some c := by
  have hv : c.toNat.isValidChar := c.valid
  simp [charAbove?, h, hv, Char.ofNat_toNat]

theorem extend?_octets (n : Nat) {ks : List Nat} (h : ∀ k ∈ ks, k < 64) :
    extend? n (ks.map (octet 0x80)) = some (ks.foldl (fun n k => n * 64 + k) n) := by
  induction ks generalizing n with
  | nil => rfl
  | cons k ks ih =>
    rw [List.map_cons, extend?, tail?_octet (h k (by simp)), Option.bind_some,
      ih _ fun x hx => h x (by simp [hx]), List.foldl_cons]

theorem wideChar?_octets {least n : Nat} {c : Char} (ks : List Nat) (h : ∀ k ∈ ks, k < 64)
    (hc : ks.foldl (fun n k => n * 64 + k) n = c.toNat) (hl : least ≤ c.toNat) :
    wideChar? least n (ks.map (octet 0x80)) = some c := by
  rw [wideChar?, extend?_octets n h, hc, Option.bind_some, charAbove?_toNat hl]

theorem decodeChar?_one {n : Nat} (h : n < 0x80) (rest : List UInt8) :
    decodeChar? (octet 0 n :: rest) = some (Char.ofNat n, rest) := by
  have e := toNat_octet (show 0 + n < 256 by omega)
  simp [decodeChar?, e, h]

theorem decodeChar?_two {c : Char} {k l : Nat} (hk : k < 32) (hl : l < 64)
    (hc : k * 64 + l = c.toNat) (least : 0x80 ≤ c.toNat) (rest : List UInt8) :
    decodeChar? (octet 0xC0 k :: octet 0x80 l :: rest) = some (c, rest) := by
  have hk' : 0xC0 + k < 256 := by omega
  have hw : wideChar? 0x80 k [octet 0x80 l] = some c :=
    wideChar?_octets [l] (by simp [hl]) hc least
  simp only [decodeChar?, toNat_octet hk', payload_octet hk', hw, Option.map_some,
    if_neg (show ¬ 0xC0 + k < 0x80 by omega), if_neg (show ¬ 0xC0 + k < 0xC0 by omega),
    if_pos (show 0xC0 + k < 0xE0 by omega)]

theorem decodeChar?_three {c : Char} {k l m : Nat} (hk : k < 16) (hl : l < 64) (hm : m < 64)
    (hc : (k * 64 + l) * 64 + m = c.toNat) (least : 0x800 ≤ c.toNat) (rest : List UInt8) :
    decodeChar? (octet 0xE0 k :: octet 0x80 l :: octet 0x80 m :: rest) = some (c, rest) := by
  have hk' : 0xE0 + k < 256 := by omega
  have hw : wideChar? 0x800 k [octet 0x80 l, octet 0x80 m] = some c :=
    wideChar?_octets [l, m] (by simp [hl, hm]) hc least
  simp only [decodeChar?, toNat_octet hk', payload_octet hk', hw, Option.map_some,
    if_neg (show ¬ 0xE0 + k < 0x80 by omega), if_neg (show ¬ 0xE0 + k < 0xC0 by omega),
    if_neg (show ¬ 0xE0 + k < 0xE0 by omega), if_pos (show 0xE0 + k < 0xF0 by omega)]

theorem decodeChar?_four {c : Char} {k l m o : Nat} (hk : k < 8) (hl : l < 64) (hm : m < 64)
    (ho : o < 64) (hc : ((k * 64 + l) * 64 + m) * 64 + o = c.toNat)
    (least : 0x10000 ≤ c.toNat) (rest : List UInt8) :
    decodeChar? (octet 0xF0 k :: octet 0x80 l :: octet 0x80 m :: octet 0x80 o :: rest) =
      some (c, rest) := by
  have hk' : 0xF0 + k < 256 := by omega
  have hw : wideChar? 0x10000 k [octet 0x80 l, octet 0x80 m, octet 0x80 o] = some c :=
    wideChar?_octets [l, m, o] (by simp [hl, hm, ho]) hc least
  simp only [decodeChar?, toNat_octet hk', payload_octet hk', hw, Option.map_some,
    if_neg (show ¬ 0xF0 + k < 0x80 by omega), if_neg (show ¬ 0xF0 + k < 0xC0 by omega),
    if_neg (show ¬ 0xF0 + k < 0xE0 by omega), if_neg (show ¬ 0xF0 + k < 0xF0 by omega),
    if_pos (show 0xF0 + k < 0xF8 by omega)]

theorem toNat_lt (c : Char) : c.toNat < 0x110000 := by
  have hv : c.toNat.isValidChar := c.valid
  rcases hv with h | h <;> omega

theorem decodeChar?_encodeChar (c : Char) (rest : List UInt8) :
    decodeChar? (encodeChar c ++ rest) = some (c, rest) := by
  have hlt := toNat_lt c
  unfold encodeChar
  simp only
  split
  · next h =>
    rw [List.singleton_append, decodeChar?_one h, Char.ofNat_toNat]
  split
  · exact decodeChar?_two (by omega) (by omega) (by omega) (by omega) rest
  split
  · exact decodeChar?_three (by omega) (by omega) (by omega) (by omega) (by omega) rest
  · exact decodeChar?_four (by omega) (by omega) (by omega) (by omega) (by omega) (by omega) rest

theorem encodeChar_ne_nil (c : Char) : encodeChar c ≠ [] := by
  unfold encodeChar
  simp only
  split <;> (try split) <;> (try split) <;> simp

theorem decodeUpTo_encode (cs : List Char) {fuel : Nat} (h : cs.length ≤ fuel) :
    decodeUpTo fuel (encode cs) = some cs := by
  induction cs generalizing fuel with
  | nil => cases fuel <;> rfl
  | cons c cs ih =>
    obtain ⟨fuel, rfl⟩ : ∃ k, fuel = k + 1 := ⟨fuel - 1, by simp at h; omega⟩
    have hne : encodeChar c ++ encode cs ≠ [] := by simp [encodeChar_ne_nil]
    obtain ⟨b, bs, hb⟩ := List.exists_cons_of_ne_nil hne
    rw [encode_cons, hb, decodeUpTo, ← hb, decodeChar?_encodeChar]
    simp only [List.length_cons] at h
    have hd : decodeUpTo fuel (encode cs) = some cs := ih (by omega)
    · simp [hd]
    · simp

theorem length_le_encode (cs : List Char) : cs.length ≤ (encode cs).length := by
  induction cs with
  | nil => simp
  | cons c cs ih =>
    have : 0 < (encodeChar c).length := List.length_pos_iff.mpr (encodeChar_ne_nil c)
    simp only [encode_cons, List.length_cons, List.length_append]
    omega

theorem decode?_encode (cs : List Char) : decode? (encode cs) = some cs :=
  decodeUpTo_encode cs (length_le_encode cs)

theorem text?_bytes (s : String) : text? (bytes s) = some s := by
  simp [text?, bytes, decode?_encode, String.ofList_toList]

end LiveRecords.Text.Utf8
