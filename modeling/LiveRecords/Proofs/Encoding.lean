import LiveRecords.Json.Shape
import LiveRecords.Proofs.Escaping
import LiveRecords.Proofs.Updating
import LiveRecords.Value.Structured

/-!
# Structured values in text

A value that is written as text is read back. Of an object the members are read
back in the order of their names, so an object that has them in that order is read
back as it is. Numbers with a point are not looked at here.
-/

namespace LiveRecords.Json

open Text

/-! ## Values that a text keeps -/

/-- Integers of 64 bits, signed or not, no real numbers, no name twice in an object,
and lists and objects at most so deep in each other. -/
def Keeps : Nat → Json → Prop
  | _, .null | _, .bool _ | _, .string _ => True
  | _, .integer n => -0x8000000000000000 ≤ n ∧ n < 0x10000000000000000
  | _, .real _ _ | 0, .array _ | 0, .object _ => False
  | depth + 1, .array js => ∀ j ∈ js, j.Keeps depth
  | depth + 1, .object ms => (ms.map (·.1)).Nodup ∧ ∀ m ∈ ms, m.2.Keeps depth

mutual
/-- The value with the members of every object in the order of their names. -/
def sorted : Json → Json
  | .array js => .array (sortedItems js)
  | .object ms => ofMembers (sortedMembers ms)
  | j => j

def sortedItems : List Json → List Json
  | [] => []
  | j :: js => j.sorted :: sortedItems js

def sortedMembers : List (String × Json) → List (String × Json)
  | [] => []
  | (name, j) :: ms => (name, j.sorted) :: sortedMembers ms
end

theorem sortedItems_eq (js : List Json) : sortedItems js = js.map sorted := by
  induction js with
  | nil => rfl
  | cons j js ih => rw [sortedItems, ih, List.map_cons]

theorem sortedMembers_eq (ms : List (String × Json)) :
    sortedMembers ms = ms.map fun m => (m.1, m.2.sorted) := by
  induction ms with
  | nil => rfl
  | cons m ms ih => rw [sortedMembers, ih, List.map_cons]

/-- The members of every object are in the order of their names. -/
def Ordered : Nat → Json → Prop
  | depth + 1, .array js => ∀ j ∈ js, j.Ordered depth
  | depth + 1, .object ms => ms.Pairwise (·.1 < ·.1) ∧ ∀ m ∈ ms, m.2.Ordered depth
  | _, _ => True

/-- One value, but for the order in which objects have their members. -/
def Alike : Nat → Json → Json → Prop
  | depth + 1, .array js, .array js' => List.Forall₂ (Alike depth) js js'
  | depth + 1, .object ms, .object ms' => ∃ ms'',
    List.Forall₂ (fun m m' => m.1 = m'.1 ∧ Alike depth m.2 m'.2) ms ms'' ∧ ms''.Perm ms'
  | _, j, j' => j = j'

section Sorted

variable {j : Json} {depth : Nat}

theorem insert_last {α : Type} {name : String} {v : α} {es : List (String × α)}
    (h : ∀ e ∈ es, e.1 < name) : ByName.insert name v es = es ++ [(name, v)] := by
  induction es with
  | nil => rfl
  | cons e es ih =>
    have he := h e List.mem_cons_self
    rw [ByName.insert, if_neg (Std.ne_of_lt he).symm, if_neg (String.lt_asymm he),
      ih fun e' he' => h e' (List.mem_cons_of_mem _ he'), List.cons_append]

theorem ofList_ordered {α : Type} {es : List (String × α)} (h : es.Pairwise (·.1 < ·.1)) :
    ByName.ofList es = es := by
  have hfold (es acc : List (String × α)) (h : (acc ++ es).Pairwise (·.1 < ·.1)) :
      es.foldl (fun acc e => ByName.insert e.1 e.2 acc) acc = acc ++ es := by
    induction es generalizing acc with
    | nil => rw [List.foldl_nil, List.append_nil]
    | cons e es ih =>
      have hlast : ByName.insert e.1 e.2 acc = acc ++ [e] :=
        insert_last fun a ha => (List.pairwise_append.mp h).2.2 a ha e List.mem_cons_self
      have hassoc : acc ++ [e] ++ es = acc ++ e :: es := List.append_cons acc e es ▸ rfl
      rw [List.foldl_cons, hlast, ih _ (hassoc ▸ h), hassoc]
  exact hfold es [] h

theorem alike_sorted (h : j.Keeps depth) : Alike depth j j.sorted := by
  induction depth generalizing j with
  | zero =>
    cases j with
    | null | bool | integer | string => rfl
    | real | array | object => exact h.elim
  | succ depth ih =>
    cases j with
    | null | bool | integer | string => rfl
    | real => exact h.elim
    | array js =>
      rw [sorted, sortedItems_eq]
      exact List.forall₂_map_right_iff.mpr (List.forall₂_same.mpr fun j hj => ih (h j hj))
    | object ms =>
      rw [sorted, ofMembers, sortedMembers_eq]
      refine ⟨ms.map fun m => (m.1, m.2.sorted), ?_, (ChangeSet.ofList_perm ?_).symm⟩
      · exact List.forall₂_map_right_iff.mpr (List.forall₂_same.mpr fun m hm => ⟨rfl, ih (h.2 m hm)⟩)
      · rw [List.map_map]
        exact h.1

theorem sorted_eq (h : j.Ordered depth) (hk : j.Keeps depth) : j.sorted = j := by
  induction depth generalizing j with
  | zero =>
    cases j with
    | null | bool | integer | string => rfl
    | real | array | object => exact hk.elim
  | succ depth ih =>
    cases j with
    | null | bool | integer | string => rfl
    | real => exact hk.elim
    | array js =>
      have hitems : js.map sorted = js.map id :=
        List.map_congr_left fun j hj => ih (h j hj) (hk j hj)
      rw [sorted, sortedItems_eq, hitems, List.map_id]
    | object ms =>
      have hmembers : ms.map (fun m => (m.1, m.2.sorted)) = ms.map id :=
        List.map_congr_left fun m hm => Prod.ext rfl (ih (h.2 m hm) (hk.2 m hm))
      rw [sorted, ofMembers, sortedMembers_eq, hmembers, List.map_id, ofList_ordered h.1]

end Sorted

/-! ## Reading what was written -/

section Reading

variable {α σ : Type} {b : UInt8} {bs t rest : List UInt8}

/-- Neither a blank nor a closing bracket comes first. -/
def Opens (bs : List UInt8) : Prop :=
  ∃ b rest, bs = b :: rest ∧ isBlankOctet b = false ∧ b ≠ octet ']'

theorem skipBlanks_cons (h : isBlankOctet b = false) : skipBlanks (b :: bs) = b :: bs :=
  List.dropWhile_cons_of_neg (Bool.not_eq_true _ ▸ h)

/-- Texts one after another, with commas between them. -/
def joined (write : α → List UInt8) : List α → List UInt8
  | [] => []
  | a :: as => write a ++ as.flatMap (octet ',' :: write ·)

theorem ends_joined {write : α → List UInt8} (as : List α)
    (hb : b = octet ',' ∨ b = octet ']' ∨ b = octet '\x7d') :
    Ends (as.flatMap (octet ',' :: write ·) ++ b :: rest) := by
  cases as with
  | nil => exact .cons hb _
  | cons a as => exact .cons (.inl rfl) _

theorem length_lt_joined {write : α → List UInt8} {as : List α} (h : ∀ a ∈ as, write a ≠ []) :
    as.length < (joined write as ++ b :: rest).length := by
  have hmore (as : List α) : as.length ≤ (as.flatMap (octet ',' :: write ·)).length := by
    induction as with
    | nil => exact Nat.le_refl 0
    | cons a as ih =>
      rw [List.flatMap_cons, List.length_append, List.length_cons, List.length_cons]
      omega
  cases as with
  | nil => simp [joined]
  | cons a as =>
    have hfirst := List.length_pos_iff.mpr (h a List.mem_cons_self)
    have hothers := hmore as
    simp only [joined, List.length_append, List.length_cons]
    omega

/-! ### Lists -/

section Items

variable {read : Read α} {a : α}

theorem items_close (fuel : Nat) (first : Bool) :
    items read (fuel + 1) first (octet ']' :: bs) = .ok ([], bs) := by
  rw [items, skipBlanks_cons (by decide)]
  exact if_pos rfl

theorem items_first (ht : Opens t) (hread : read (t ++ bs) = .ok (a, bs)) (fuel : Nat) :
    items read (fuel + 1) true (t ++ bs) =
      (items read fuel false bs).map fun r => (a :: r.1, r.2) := by
  obtain ⟨b, t, rfl, hblank, hclose⟩ := ht
  rw [List.cons_append] at hread ⊢
  rw [items, skipBlanks_cons hblank]
  simp only [if_neg hclose, if_true, bind, Except.bind, hread]
  cases items read fuel false bs <;> rfl

theorem items_more (ht : Opens t) (hread : read (t ++ bs) = .ok (a, bs)) (fuel : Nat) :
    items read (fuel + 1) false (octet ',' :: (t ++ bs)) =
      (items read fuel false bs).map fun r => (a :: r.1, r.2) := by
  obtain ⟨b, t, rfl, hblank, hclose⟩ := ht
  rw [List.cons_append] at hread ⊢
  rw [items, skipBlanks_cons (by decide)]
  simp only [if_neg (show octet ',' ≠ octet ']' by decide), Bool.false_eq_true, if_false, if_true,
    skipBlanks_cons hblank, if_neg hclose, bind, Except.bind, hread]
  cases items read fuel false bs <;> rfl

end Items

section Joined

variable {β : Type} {write : α → List UInt8} {read : Read β} {f : α → β} {as : List α}

/-- Further items, one after another up to the bracket. -/
theorem items_others (hopens : ∀ a ∈ as, Opens (write a))
    (hread : ∀ a ∈ as, ∀ bs, Ends bs → read (write a ++ bs) = .ok (f a, bs)) (fuel : Nat) :
    items read (as.length + (fuel + 1)) false
      (as.flatMap (octet ',' :: write ·) ++ octet ']' :: rest) = .ok (as.map f, rest) := by
  induction as with
  | nil => rw [List.length_nil, Nat.zero_add]; exact items_close fuel false
  | cons a as ih =>
    rw [List.length_cons, Nat.add_right_comm, List.flatMap_cons, List.cons_append,
      List.cons_append, List.append_assoc,
      items_more (hopens a List.mem_cons_self)
        (hread a List.mem_cons_self _ (ends_joined as (.inr (.inl rfl)))),
      ih (fun a ha => hopens a (List.mem_cons_of_mem _ ha))
        (fun a ha => hread a (List.mem_cons_of_mem _ ha))]
    rfl

/-- Items that are read one by one are read as a list. -/
theorem items_joined (hopens : ∀ a ∈ as, Opens (write a))
    (hread : ∀ a ∈ as, ∀ bs, Ends bs → read (write a ++ bs) = .ok (f a, bs)) :
    items read ((joined write as ++ octet ']' :: rest).length + 1) true
      (joined write as ++ octet ']' :: rest) = .ok (as.map f, rest) := by
  have hlength : as.length < (joined write as ++ octet ']' :: rest).length :=
    length_lt_joined fun a ha => by
      obtain ⟨b, t, ht, -⟩ := hopens a ha
      exact ht ▸ List.cons_ne_nil b t
  cases as with
  | nil => exact items_close _ true
  | cons a as =>
    obtain ⟨fuel, hfuel⟩ := Nat.exists_eq_add_of_lt hlength
    rw [List.length_cons] at hfuel
    rw [hfuel, joined, List.append_assoc,
      items_first (hopens a List.mem_cons_self)
        (hread a List.mem_cons_self _ (ends_joined as (.inr (.inl rfl)))),
      show as.length + 1 + fuel + 1 = as.length + (fuel + 1 + 1) by omega,
      items_others (fun a ha => hopens a (List.mem_cons_of_mem _ ha))
        (fun a ha => hread a (List.mem_cons_of_mem _ ha))]
    rfl

end Joined

/-! ### Objects -/

section Members

theorem memberName_written (name : String) (bs : List UInt8) :
    memberName (Utf8.encode (renderString name) ++ bs) = .ok (name, bs) := by
  rw [encode_renderString, List.cons_append, List.append_assoc, memberName, if_pos rfl]
  exact stringBody_escaped name bs

variable {step : σ → String → Read σ}

theorem members_close (fuel : Nat) (first : Bool) (s : σ) :
    members step (fuel + 1) first s (octet '\x7d' :: bs) = .ok (s, bs) := by
  rw [members, skipBlanks_cons (by decide)]
  exact if_pos rfl

theorem members_first {s s' : σ} {name : String} {bs' : List UInt8}
    (hstep : step s name bs = .ok (s', bs')) (fuel : Nat) :
    members step (fuel + 1) true s (Utf8.encode (renderString name) ++ bs) =
      members step fuel false s' bs' := by
  have hname := memberName_written name bs
  rw [encode_renderString, List.cons_append] at hname ⊢
  rw [members, skipBlanks_cons (by decide)]
  simp only [if_neg (show octet '"' ≠ octet '\x7d' by decide), if_true, bind, Except.bind, hname,
    hstep]

theorem members_more {s s' : σ} {name : String} {bs' : List UInt8}
    (hstep : step s name bs = .ok (s', bs')) (fuel : Nat) :
    members step (fuel + 1) false s (octet ',' :: (Utf8.encode (renderString name) ++ bs)) =
      members step fuel false s' bs' := by
  have hname := memberName_written name bs
  rw [encode_renderString, List.cons_append] at hname ⊢
  rw [members, skipBlanks_cons (by decide)]
  simp only [if_neg (show octet ',' ≠ octet '\x7d' by decide), Bool.false_eq_true, if_false, if_true,
    skipBlanks_cons (show isBlankOctet (octet '"') = false by decide), bind, Except.bind, hname,
    hstep]

end Members

section Joined

variable {step : σ → String → Read σ} {name : α → String} {write : α → List UInt8}
  {take : σ → α → σ} {as : List α}

/-- Further members, one after another up to the brace. -/
theorem members_others
    (hstep : ∀ a ∈ as, ∀ s bs, Ends bs → step s (name a) (write a ++ bs) = .ok (take s a, bs))
    (s : σ) (fuel : Nat) :
    members step (as.length + (fuel + 1)) false s
      (as.flatMap (fun a => octet ',' :: (Utf8.encode (renderString (name a)) ++ write a)) ++
        octet '\x7d' :: rest) = .ok (as.foldl take s, rest) := by
  induction as generalizing s with
  | nil => rw [List.length_nil, Nat.zero_add]; exact members_close fuel false s
  | cons a as ih =>
    rw [List.length_cons, Nat.add_right_comm, List.flatMap_cons, List.cons_append,
      List.cons_append, List.append_assoc, List.append_assoc,
      members_more (hstep a List.mem_cons_self s _ (ends_joined as (.inr (.inr rfl))))]
    exact ih (fun a ha => hstep a (List.mem_cons_of_mem _ ha)) _

/-- Members that are taken in one by one are taken in as an object. -/
theorem members_joined
    (hstep : ∀ a ∈ as, ∀ s bs, Ends bs → step s (name a) (write a ++ bs) = .ok (take s a, bs))
    (s : σ) :
    members step ((joined (fun a => Utf8.encode (renderString (name a)) ++ write a) as ++
        octet '\x7d' :: rest).length + 1) true s
      (joined (fun a => Utf8.encode (renderString (name a)) ++ write a) as ++ octet '\x7d' :: rest) =
        .ok (as.foldl take s, rest) := by
  have hlength : as.length < (joined (fun a => Utf8.encode (renderString (name a)) ++ write a) as ++
      octet '\x7d' :: rest).length :=
    length_lt_joined fun a _ => by
      rw [encode_renderString]
      exact List.cons_ne_nil _ _
  cases as with
  | nil => exact members_close _ true s
  | cons a as =>
    obtain ⟨fuel, hfuel⟩ := Nat.exists_eq_add_of_lt hlength
    rw [List.length_cons] at hfuel
    rw [hfuel, joined, List.append_assoc, List.append_assoc,
      members_first (hstep a List.mem_cons_self s _ (ends_joined as (.inr (.inr rfl)))),
      show as.length + 1 + fuel + 1 = as.length + (fuel + 1 + 1) by omega]
    exact members_others (fun a ha => hstep a (List.mem_cons_of_mem _ ha)) _ _

end Joined

/-! ### Values -/

theorem renderMoreItems_eq (js : List Json) :
    Utf8.encode (renderMoreItems js) = js.flatMap (octet ',' :: Utf8.encode ·.render) := by
  induction js with
  | nil => rfl
  | cons j js ih =>
    rw [renderMoreItems, List.cons_append, Utf8.encode_cons, Utf8.encode_append, ih]
    rfl

theorem encode_renderItems (js : List Json) :
    Utf8.encode (renderItems js) = joined (Utf8.encode ·.render) js := by
  cases js with
  | nil => rfl
  | cons j js => rw [renderItems, Utf8.encode_append, renderMoreItems_eq, joined]

/-- A member after its name. -/
def writeMember (m : String × Json) : List UInt8 := octet ':' :: Utf8.encode m.2.render

theorem renderMoreMembers_eq (ms : List (String × Json)) :
    Utf8.encode (renderMoreMembers ms) =
      ms.flatMap fun m => octet ',' :: (Utf8.encode (renderString m.1) ++ writeMember m) := by
  induction ms with
  | nil => rfl
  | cons m ms ih =>
    rw [renderMoreMembers, List.cons_append, List.cons_append, Utf8.encode_cons, List.append_assoc,
      Utf8.encode_append, List.cons_append, Utf8.encode_cons, Utf8.encode_append, ih]
    simp only [List.flatMap_cons, writeMember, List.cons_append, List.append_assoc]
    rfl

theorem encode_renderMembers (ms : List (String × Json)) :
    Utf8.encode (renderMembers ms) =
      joined (fun m => Utf8.encode (renderString m.1) ++ writeMember m) ms := by
  cases ms with
  | nil => rfl
  | cons m ms =>
    rw [renderMembers, List.append_assoc, Utf8.encode_append, List.cons_append, Utf8.encode_cons,
      Utf8.encode_append, renderMoreMembers_eq]
    simp only [joined, writeMember, List.cons_append, List.append_assoc]
    rfl

theorem exists_digit (n : Nat) :
    ∃ b t, Utf8.encode (Nat.toDigits 10 n) = b :: t ∧ isDigitOctet b = true := by
  have hall : ∀ c ∈ Nat.toDigits 10 n, c.isDigit = true := fun c hc =>
    Nat.isDigit_of_mem_toDigits (by decide) (by decide) hc
  obtain ⟨c, cs, hcs⟩ := List.exists_cons_of_ne_nil (Nat.toDigits_ne_nil (n := n) (b := 10))
  refine ⟨octet c, cs.map octet, ?_, (octet_digit (hall c (hcs ▸ List.mem_cons_self))).2.1⟩
  rw [encode_digits hall, hcs, List.map_cons]

theorem ne_of_isDigitOctet (h : isDigitOctet b = true) {c : UInt8} (hc : isDigitOctet c = false) :
    b ≠ c := by
  rintro rfl
  exact Bool.false_ne_true (hc.symm.trans h)

theorem not_blank_of_isDigitOctet (h : isDigitOctet b = true) : isBlankOctet b = false := by
  simp only [isBlankOctet, Bool.or_eq_false_iff, beq_eq_false_iff_ne]
  exact ⟨⟨⟨ne_of_isDigitOctet h (by decide), ne_of_isDigitOctet h (by decide)⟩,
    ne_of_isDigitOctet h (by decide)⟩, ne_of_isDigitOctet h (by decide)⟩

theorem opens_of_cons (hblank : isBlankOctet b = false) (hclose : b ≠ octet ']') :
    Opens (b :: bs) := ⟨b, bs, rfl, hblank, hclose⟩

/-- What is written for a value begins with something that tells what kind it is. -/
theorem opens_render {j : Json} {depth : Nat} (h : j.Keeps depth) :
    Opens (Utf8.encode j.render) := by
  cases j with
  | null => exact opens_of_cons (by decide) (by decide)
  | bool b => cases b <;> exact opens_of_cons (by decide) (by decide)
  | integer n =>
    rw [render]
    rcases Int.lt_or_le n 0 with hn | hn
    · rw [renderInteger_of_neg hn]
      exact opens_of_cons (by decide) (by decide)
    · rw [renderInteger_of_nonneg hn]
      obtain ⟨b, t, ht, hb⟩ := exists_digit n.toNat
      rw [ht]
      exact opens_of_cons (not_blank_of_isDigitOctet hb) (ne_of_isDigitOctet hb (by decide))
  | real => cases depth <;> exact h.elim
  | string s =>
    rw [render, encode_renderString]
    exact opens_of_cons (by decide) (by decide)
  | array => exact opens_of_cons (by decide) (by decide)
  | object => exact opens_of_cons (by decide) (by decide)

theorem value_string (depth : Nat) (s : String) (bs : List UInt8) :
    value (depth + 1) (Utf8.encode (renderString s) ++ bs) = .ok (.string s, bs) := by
  rw [encode_renderString, List.cons_append, List.append_assoc]
  change (stringBody (Utf8.encode (s.toList.flatMap escapeChar) ++ octet '"' :: bs)).bind
    (fun r => .ok (Json.string r.1, r.2)) = _
  rw [stringBody_escaped]
  rfl

theorem value_integer (depth : Nat) {n : Int} (hlow : -0x8000000000000000 ≤ n)
    (hhigh : n < 0x10000000000000000) (hbs : Ends bs) :
    value (depth + 1) (Utf8.encode (renderInteger n) ++ bs) = .ok (.integer n, bs) := by
  rcases Int.lt_or_le n 0 with hn | hn
  · rw [renderInteger_of_neg hn]
    change number true (Utf8.encode (Nat.toDigits 10 (-n).toNat) ++ bs) = _
    rw [number_digits true _ hbs, plainNumber_neg (by omega) (by omega),
      show -(((-n).toNat : Nat) : Int) = n by omega]
    rfl
  · rw [renderInteger_of_nonneg hn]
    have hnumber : value (depth + 1) (Utf8.encode (Nat.toDigits 10 n.toNat) ++ bs) =
        number false (Utf8.encode (Nat.toDigits 10 n.toNat) ++ bs) := by
      obtain ⟨b, t, ht, hb⟩ := exists_digit n.toNat
      rw [ht, List.cons_append, value, skipBlanks_cons (not_blank_of_isDigitOctet hb)]
      simp only [ne_of_isDigitOctet hb (show isDigitOctet (octet 'n') = false by decide),
        ne_of_isDigitOctet hb (show isDigitOctet (octet 't') = false by decide),
        ne_of_isDigitOctet hb (show isDigitOctet (octet 'f') = false by decide),
        ne_of_isDigitOctet hb (show isDigitOctet (octet '-') = false by decide), if_false, hb,
        if_true]
    rw [hnumber, number_digits false _ hbs, plainNumber_pos (by omega),
      show ((n.toNat : Nat) : Int) = n by omega]
    rfl

theorem value_array (depth : Nat) (bs : List UInt8) :
    value (depth + 2) (octet '[' :: bs) =
      (items (value (depth + 1)) (bs.length + 1) true bs).map fun r => (.array r.1, r.2) := by
  change (items (value (depth + 1)) (bs.length + 1) true bs).bind
    (fun r => .ok (Json.array r.1, r.2)) = _
  cases items (value (depth + 1)) (bs.length + 1) true bs <;> rfl

/-- How a member is taken into an object. -/
def takeMember (depth : Nat) (ms : List (String × Json)) (name : String) :
    Read (List (String × Json)) := fun bs => do
  let (j, bs) ← value depth (← colon bs)
  return (ByName.insert name j ms, bs)

theorem value_object (depth : Nat) (bs : List UInt8) :
    value (depth + 2) (octet '\x7b' :: bs) =
      (members (takeMember (depth + 1)) (bs.length + 1) true [] bs).map
        fun r => (.object r.1, r.2) := by
  change (members (takeMember (depth + 1)) (bs.length + 1) true [] bs).bind
    (fun r => .ok (Json.object r.1, r.2)) = _
  cases members (takeMember (depth + 1)) (bs.length + 1) true [] bs <;> rfl

/-- What was written for a value is read as the value, with the members of objects in
the order of their names. -/
theorem value_render {j : Json} {depth : Nat} (h : j.Keeps depth) (hbs : Ends bs) :
    value (depth + 1) (Utf8.encode j.render ++ bs) = .ok (j.sorted, bs) := by
  induction depth generalizing j bs with
  | zero =>
    cases j with
    | null => rfl
    | bool b => cases b <;> rfl
    | integer n => exact value_integer 0 h.1 h.2 hbs
    | string s => exact value_string 0 s bs
    | real | array | object => exact h.elim
  | succ depth ih =>
    cases j with
    | null => rfl
    | bool b => cases b <;> rfl
    | integer n => exact value_integer (depth + 1) h.1 h.2 hbs
    | string s => exact value_string (depth + 1) s bs
    | real => exact h.elim
    | array js =>
      have htext : Utf8.encode (Json.array js).render ++ bs =
          octet '[' :: (joined (Utf8.encode ·.render) js ++ octet ']' :: bs) := by
        rw [render, List.cons_append, Utf8.encode_cons, Utf8.encode_append, encode_renderItems,
          List.append_assoc, List.append_assoc]
        rfl
      rw [htext, value_array, items_joined (fun j hj => opens_render (h j hj))
        (fun j hj bs hbs => ih (h j hj) hbs), sorted, sortedItems_eq]
      rfl
    | object ms =>
      have htext : Utf8.encode (Json.object ms).render ++ bs = octet '\x7b' ::
          (joined (fun m => Utf8.encode (renderString m.1) ++ writeMember m) ms ++
            octet '\x7d' :: bs) := by
        rw [render, List.cons_append, Utf8.encode_cons, Utf8.encode_append, encode_renderMembers,
          List.append_assoc, List.append_assoc]
        rfl
      have hstep : ∀ m ∈ ms, ∀ acc bs, Ends bs →
          takeMember (depth + 1) acc m.1 (writeMember m ++ bs) =
            .ok (ByName.insert m.1 m.2.sorted acc, bs) := by
        intro m hm acc bs hbs
        change (value (depth + 1) (Utf8.encode m.2.render ++ bs)).bind
          (fun r => .ok (ByName.insert m.1 r.1 acc, r.2)) = _
        rw [ih (h.2 m hm) hbs]
        rfl
      rw [htext, value_object, members_joined hstep, sorted, ofMembers, sortedMembers_eq,
        ByName.ofList, List.foldl_map]
      rfl

end Reading

end LiveRecords.Json
