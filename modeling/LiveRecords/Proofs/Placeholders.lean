import LiveRecords.Proofs.Conditions

/-!
# Placeholders

No two placeholders of a filter have one name: what a name ends in tells whether it
carries a number and which of two bounds it stands for, and two predicates that ask
for one name get different numbers. So it makes no difference that operands are bound
by name.
-/

namespace LiveRecords

namespace Predicate

/-! ## Names -/

/-- What placeholders end in, for one value and for two bounds. -/
def endings : List String := ["", "_lo", "_hi"]

/-- The placeholder for the `n`-th use of a name. -/
def label (base : String) (n : Nat) (ending : String) : String :=
  ":" ++ numbered base n ++ ending

/-- The letters that tags end in. -/
def tagEnds : List Char := ['q', 'e', 't', 'n']

/-- A name that ends in the last letter of a tag. -/
def IsBase (base : String) : Prop := ∃ c ∈ tagEnds, base.toList.getLast? = some c

theorem getLast?_tag (p : Predicate) : ∃ c ∈ tagEnds, p.tag.toList.getLast? = some c := by
  cases p with
  | compare c op v =>
    cases op with
    | equals => exact ⟨'q', by decide, (by decide : "eq".toList.getLast? = some 'q')⟩
    | notEquals => exact ⟨'e', by decide, (by decide : "ne".toList.getLast? = some 'e')⟩
    | lessThan => exact ⟨'t', by decide, (by decide : "lt".toList.getLast? = some 't')⟩
    | greaterThan => exact ⟨'t', by decide, (by decide : "gt".toList.getLast? = some 't')⟩
    | lessOrEqual => exact ⟨'e', by decide, (by decide : "le".toList.getLast? = some 'e')⟩
    | greaterOrEqual => exact ⟨'e', by decide, (by decide : "ge".toList.getLast? = some 'e')⟩
    | like => exact ⟨'e', by decide, (by decide : "like".toList.getLast? = some 'e')⟩
  | between c lo hi => exact ⟨'n', by decide, (by decide : "between".toList.getLast? = some 'n')⟩

theorem isBase_placeholder (p : Predicate) : IsBase p.placeholder := by
  obtain ⟨c, hc, hlast⟩ := getLast?_tag p
  refine ⟨c, hc, ?_⟩
  simp only [placeholder, String.toList_append, List.getLast?_append, hlast, Option.some_or]

/-- What follows a sign for the last time does not depend on what came before. -/
theorem split_inj {α : Type} {a : α} {as bs cs ds : List α} (hb : a ∉ bs) (hd : a ∉ ds)
    (h : as ++ a :: bs = cs ++ a :: ds) : as = cs ∧ bs = ds := by
  rcases List.append_eq_append_iff.mp h with ⟨es, hes, hrest⟩ | ⟨es, hes, hrest⟩
  · cases es with
    | nil => simp_all
    | cons e es =>
      rw [(List.cons.inj hrest).2] at hb
      simp at hb
  · cases es with
    | nil => simp_all
    | cons e es =>
      rw [(List.cons.inj hrest).2] at hd
      simp at hd

variable {b b' : String} {n n' : Nat}

/-- A number that a name carries is told by its last sign. -/
theorem getLast?_numbered (hb : IsBase b) (n : Nat) :
    ∃ c, (numbered b n).toList.getLast? = some c ∧
      (n ≤ 1 ∧ c ∈ tagEnds ∨ 1 < n ∧ c.isDigit = true) := by
  unfold numbered
  split
  · next hn =>
    obtain ⟨c, hc, hlast⟩ := hb
    exact ⟨c, hlast, .inl ⟨hn, hc⟩⟩
  · next hn =>
    have hrepr : (toString n).toList = Nat.toDigits 10 n := Nat.toList_repr
    have hne : Nat.toDigits 10 n ≠ [] := Nat.toDigits_ne_nil
    refine ⟨(Nat.toDigits 10 n).getLast hne, ?_, .inr ⟨Nat.lt_of_not_le hn, ?_⟩⟩
    · simp only [String.toList_append, hrepr, List.getLast?_append,
        List.getLast?_eq_some_getLast hne, Option.some_or]
    · exact Nat.isDigit_of_mem_toDigits (by omega) (by omega) (List.getLast_mem hne)

theorem not_isDigit_of_mem_tagEnds {c : Char} (h : c ∈ tagEnds) : c.isDigit = false := by
  simp only [tagEnds, List.mem_cons, List.not_mem_nil, or_false] at h
  rcases h with rfl | rfl | rfl | rfl <;> rfl

theorem numbered_inj (hb : IsBase b) (hb' : IsBase b') (hn : 0 < n) (hn' : 0 < n')
    (h : numbered b n = numbered b' n') : b = b' ∧ n = n' := by
  obtain ⟨c, hc, hkind⟩ := getLast?_numbered hb n
  obtain ⟨c', hc', hkind'⟩ := getLast?_numbered hb' n'
  have hsame : c = c' := by
    rw [h, hc'] at hc
    exact (Option.some.inj hc).symm
  subst hsame
  rcases hkind with ⟨hle, hletter⟩ | ⟨hlt, hdigit⟩
  · rcases hkind' with ⟨hle', -⟩ | ⟨-, hdigit⟩
    · rw [numbered, numbered, if_pos hle, if_pos hle'] at h
      exact ⟨h, by omega⟩
    · rw [not_isDigit_of_mem_tagEnds hletter] at hdigit
      cases hdigit
  · rcases hkind' with ⟨-, hletter⟩ | ⟨hlt', -⟩
    · rw [not_isDigit_of_mem_tagEnds hletter] at hdigit
      cases hdigit
    · rw [numbered, numbered, if_neg (Nat.not_le_of_lt hlt), if_neg (Nat.not_le_of_lt hlt')] at h
      have hchars := congrArg String.toList h
      have hrepr : ∀ m : Nat, (toString m).toList = Nat.toDigits 10 m := fun _ => Nat.toList_repr
      simp only [String.toList_append, hrepr, List.append_assoc] at hchars
      -- No digit is an underscore, so the number starts after the last one.
      obtain ⟨hbase, hnumber⟩ := split_inj Nat.underscore_not_in_toDigits
        Nat.underscore_not_in_toDigits hchars
      have hvalue : ∀ m, Nat.ofDigitChars 10 (Nat.toDigits 10 m) 0 = m := fun _ =>
        Nat.ofDigitChars_toDigits (by omega) (by omega)
      rw [← hvalue n, ← hvalue n', hnumber]
      exact ⟨String.toList_inj.mp hbase, rfl⟩

variable {e e' : String}

/-- Which of two bounds a placeholder is for is told by its last letter. -/
theorem getLast?_label (hb : IsBase b) (n : Nat) (he : e ∈ endings) :
    ∃ c, (label b n e).toList.getLast? = some c ∧
      (e = "" ∧ c ≠ 'o' ∧ c ≠ 'i' ∨ e = "_lo" ∧ c = 'o' ∨ e = "_hi" ∧ c = 'i') := by
  have hlow : "_lo".toList.getLast? = some 'o' := by decide
  have hhigh : "_hi".toList.getLast? = some 'i' := by decide
  simp only [endings, List.mem_cons, List.not_mem_nil, or_false] at he
  rcases he with rfl | rfl | rfl
  · obtain ⟨c, hc, hkind⟩ := getLast?_numbered hb n
    have hlast : (label b n "").toList.getLast? = some c := by
      rw [label, String.append_empty, String.toList_append, List.getLast?_append, hc,
        Option.some_or]
    refine ⟨c, hlast, .inl ⟨rfl, ?_, ?_⟩⟩
    · rintro rfl
      revert hkind
      simp [tagEnds, Char.isDigit]
    · rintro rfl
      revert hkind
      simp [tagEnds, Char.isDigit]
  · refine ⟨'o', ?_, .inr (.inl ⟨rfl, rfl⟩)⟩
    simp only [label, String.toList_append, List.getLast?_append, hlow, Option.some_or]
  · refine ⟨'i', ?_, .inr (.inr ⟨rfl, rfl⟩)⟩
    simp only [label, String.toList_append, List.getLast?_append, hhigh, Option.some_or]

theorem label_inj (hb : IsBase b) (hb' : IsBase b') (hn : 0 < n) (hn' : 0 < n')
    (he : e ∈ endings) (he' : e' ∈ endings) (h : label b n e = label b' n' e') :
    b = b' ∧ n = n' ∧ e = e' := by
  obtain ⟨c, hc, hkind⟩ := getLast?_label hb n he
  obtain ⟨c', hc', hkind'⟩ := getLast?_label hb' n' he'
  have hlast : c = c' := by
    rw [h, hc'] at hc
    exact (Option.some.inj hc).symm
  have hend : e = e' := by
    subst hlast
    rcases hkind with ⟨rfl, ho, hi⟩ | ⟨rfl, rfl⟩ | ⟨rfl, rfl⟩ <;>
      rcases hkind' with ⟨rfl, ho', hi'⟩ | ⟨rfl, hc⟩ | ⟨rfl, hc⟩ <;> simp_all
  subst hend
  have hchars := congrArg String.toList h
  simp only [label, String.toList_append, List.append_cancel_right_eq,
    List.append_cancel_left_eq] at hchars
  obtain ⟨hbase, hnumber⟩ := numbered_inj hb hb' hn hn' (String.toList_inj.mp hchars)
  exact ⟨hbase, hnumber, rfl⟩

/-! ## Placeholders of a filter -/

/-- The names of the placeholders of some conditions. -/
def names (cs : List Term) : List String := (cs.flatMap Term.params).map (·.1)

/-- A placeholder whose number is larger than the names before it take up. -/
def IsFresh (used : List String) (name : String) : Prop :=
  ∃ b n e, IsBase b ∧ used.count b < n ∧ e ∈ endings ∧ name = label b n e

theorem IsFresh.of_cons {used : List String} {name base : String}
    (h : IsFresh (base :: used) name) : IsFresh used name := by
  obtain ⟨b, n, e, hb, hn, he, rfl⟩ := h
  exact ⟨b, n, e, hb, Nat.lt_of_le_of_lt (List.count_le_count_cons) hn, he, rfl⟩

/-- The placeholders of one condition are the next ones of the name asked for. -/
theorem names_term {p : Predicate} {used : List String} {c : Term} {named : Bool}
    (h : p.term used = .ok (c, named)) :
    (names [c]).Nodup ∧ ∀ name ∈ names [c], named = true ∧ ∃ e ∈ endings,
      name = label p.placeholder (used.count p.placeholder + 1) e := by
  rw [term_eq] at h
  split at h
  · cases h
  dsimp only at h
  split at h
  · cases h
    simp [names, Term.params]
  · cases h
    simp [names, Term.params]
  · cases h
  · cases h
    simp [names, Term.params, label, endings]
  · cases h
  · cases h
  · cases h
    refine ⟨?_, ?_⟩
    · simp [names, Term.params]
    · simp [names, Term.params, label, endings]

theorem names_cons (c : Term) (cs : List Term) : names (c :: cs) = names [c] ++ names cs := by
  simp [names]

/-- The placeholders of a filter are all different. -/
theorem names_terms {ps : List Predicate} {used : List String} {cs : List Term}
    (h : Filter.terms used ps = .ok cs) :
    (names cs).Nodup ∧ ∀ name ∈ names cs, IsFresh used name := by
  induction ps generalizing used cs with
  | nil =>
    cases h
    simp [names]
  | cons p ps ih =>
    unfold Filter.terms at h
    split at h
    · cases h
    next c named hterm =>
    split at h
    · cases h
    next rest hrest =>
    cases h
    obtain ⟨hnodup, hnext⟩ := names_term hterm
    obtain ⟨hnodup', hfresh⟩ := ih hrest
    rw [names_cons]
    constructor
    · rw [List.nodup_append]
      refine ⟨hnodup, hnodup', ?_⟩
      rintro name hname name' hname' rfl
      obtain ⟨rfl, e, he, hlabel⟩ := hnext name hname
      obtain ⟨b, n, e', hb, hn, he', hlabel'⟩ := hfresh name hname'
      rw [hlabel] at hlabel'
      obtain ⟨rfl, rfl, -⟩ := label_inj (isBase_placeholder p) hb (Nat.succ_pos _)
        (Nat.zero_lt_of_lt hn) he he' hlabel'
      simp at hn
    · intro name hname
      rcases List.mem_append.mp hname with hname | hname
      · obtain ⟨-, e, he, rfl⟩ := hnext name hname
        exact ⟨_, _, e, isBase_placeholder p, Nat.lt_succ_self _, he, rfl⟩
      · have h := hfresh name hname
        cases named with
        | true => exact h.of_cons
        | false => exact h

end Predicate

/-! ## Values that are bound by name -/

/-- A condition with the values that its placeholders are bound to. -/
def Term.rebind (bound : String → Option Value) : Term → Term
  | .isNull c => .isNull c
  | .isNotNull c => .isNotNull c
  | .compare c op p _ => .compare c op p ((bound p).getD .null)
  | .between c lp _ hp _ => .between c lp ((bound lp).getD .null) hp ((bound hp).getD .null)

namespace Clause

variable {k : Clause}

/-- What is bound to a placeholder: of several values under its name, the last. -/
def bound? (k : Clause) (name : String) : Option Value := k.params.reverse.lookup name

/-- The conditions with the values that are bound by name. -/
def rebound (k : Clause) : Clause := { k with terms := k.terms.map (Term.rebind k.bound?) }

theorem lookup_of_nodup {entries : List (String × Value)} (h : (entries.map (·.1)).Nodup)
    {name : String} {v : Value} (hv : (name, v) ∈ entries) : entries.lookup name = some v := by
  induction entries with
  | nil => simp at hv
  | cons a entries ih =>
    rw [List.map_cons, List.nodup_cons] at h
    rw [List.lookup_cons]
    rcases List.mem_cons.mp hv with rfl | hv
    · simp
    · have hne : (name == a.1) = false := by
        rw [beq_eq_false_iff_ne]
        rintro rfl
        exact h.1 (List.mem_map.mpr ⟨_, hv, rfl⟩)
      rw [hne]
      exact ih h.2 hv

/-- Each placeholder is bound to the operand it stands for. -/
theorem bound?_of_mem {f : Filter} (h : f.clause = .ok k) {name : String} {v : Value}
    (hv : (name, v) ∈ k.params) : k.bound? name = some v := by
  have hnodup : (k.params.map (·.1)).Nodup := by
    obtain ⟨cs, hterms, rfl⟩ := Filter.clause_eq_ok.mp h
    exact (Predicate.names_terms hterms).1
  apply lookup_of_nodup
  · rw [List.map_reverse]
    exact (List.reverse_perm _).nodup_iff.mpr hnodup
  · exact List.mem_reverse.mpr hv

/-- It makes no difference that operands are bound by name. -/
theorem rebound_eq {f : Filter} (h : f.clause = .ok k) : k.rebound = k := by
  have hterms : k.terms.map (Term.rebind k.bound?) = k.terms := by
    conv_rhs => rw [← List.map_id k.terms]
    apply List.map_congr_left
    intro c hc
    have hbound : ∀ entry ∈ c.params, k.bound? entry.1 = some entry.2 := fun entry hentry =>
      bound?_of_mem h (List.mem_flatMap.mpr ⟨c, hc, hentry⟩)
    cases c with
    | isNull column => rfl
    | isNotNull column => rfl
    | compare column op p v =>
      rw [Term.rebind, hbound (p, v) (by simp [Term.params])]
      rfl
    | between column lp lo hp hi =>
      rw [Term.rebind, hbound (lp, lo) (by simp [Term.params]),
        hbound (hp, hi) (by simp [Term.params])]
      rfl
  rw [rebound, hterms]

end Clause

end LiveRecords
