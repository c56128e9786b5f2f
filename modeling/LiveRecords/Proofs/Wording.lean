import LiveRecords.Proofs.Placeholders
import Mathlib.Data.List.TakeWhile

/-!
# The wording of filters

The text of a filter is words with one blank between them, and only placeholders have a
colon in them. So the placeholders that the text asks for can be read off it, and they are
the ones that values come with, in the same order. The names that a page asks for are none
of them: what follows the last underscore of a placeholder is a tag, a number or one of two
bounds.
-/

namespace LiveRecords

open Table.Token (isWordChar)

/-! ## Words -/

/-- The words of a condition. -/
def Term.words : Term → List String
  | .isNull c => [c, "IS", "NULL"]
  | .isNotNull c => [c, "IS", "NOT", "NULL"]
  | .compare c op p _ => [c, op.symbol, p]
  | .between c lo _ hi _ => [c, "BETWEEN", lo, "AND", hi]

theorem Term.words_ne_nil (t : Term) : t.words ≠ [] := by
  cases t <;> simp [words]

theorem Term.text_eq (t : Term) : t.text = String.intercalate " " t.words := by
  rw [← String.toList_inj]
  cases t <;> simp [text, tail, column, words, String.intercalate_cons_cons]

/-- The word between two conditions. -/
def Join.word : Join → String
  | .all => "AND"
  | .any => "OR"

theorem Join.separator_eq (j : Join) : j.separator = " " ++ j.word ++ " " := by
  cases j <;> rfl

/-- Conditions, each with the word that joins it to the one before. -/
def joinedWords (j : Join) (cs : List Term) : List String := cs.flatMap fun c => j.word :: c.words

/-- The words of a filter. -/
def Clause.words (k : Clause) : List String := (joinedWords k.join k.terms).tail

theorem Clause.fragment_eq (k : Clause) : k.fragment = String.intercalate " " k.words := by
  obtain ⟨cs, j⟩ := k
  cases cs with
  | nil => rfl
  | cons c cs =>
    induction cs generalizing c with
    | nil => simp [fragment, words, joinedWords, Term.text_eq]
    | cons d cs ih =>
      have hrest : fragment ⟨d :: cs, j⟩ = String.intercalate " " (d.words ++ joinedWords j cs) :=
        ih d
      calc fragment ⟨c :: d :: cs, j⟩
          = c.text ++ j.separator ++ fragment ⟨d :: cs, j⟩ := String.intercalate_cons_cons
        _ = String.intercalate " " c.words ++ " " ++
              (j.word ++ " " ++ String.intercalate " " (d.words ++ joinedWords j cs)) := by
            rw [Term.text_eq, Join.separator_eq, hrest]
            simp only [String.append_assoc]
        _ = String.intercalate " " (c.words ++ j.word :: (d.words ++ joinedWords j cs)) := by
            rw [String.intercalate_append_of_ne_nil c.words_ne_nil (by simp),
              String.intercalate_cons_of_ne_nil (by simp [d.words_ne_nil])]

/-! ## Placeholders in a text -/

/-- The placeholders in a text from left to right: a colon with all the letters, digits and
underscores that follow it. -/
def placeholdersIn : List Char → List String
  | [] => []
  | c :: cs =>
    if c = ':' then String.ofList (c :: cs.takeWhile isWordChar) :: placeholdersIn cs
    else placeholdersIn cs

theorem placeholdersIn_eq_nil {cs : List Char} (h : ':' ∉ cs) : placeholdersIn cs = [] := by
  induction cs with
  | nil => rfl
  | cons c cs ih =>
    rw [List.mem_cons, not_or] at h
    rw [placeholdersIn, if_neg (Ne.symm h.1), ih h.2]

theorem takeWhile_isWordChar_blank (as bs : List Char) :
    (as ++ ' ' :: bs).takeWhile isWordChar = as.takeWhile isWordChar := by
  have hblank : (' ' :: bs).takeWhile isWordChar = [] := by simp [isWordChar]
  induction as with
  | nil => exact hblank
  | cons a as ih => rw [List.cons_append, List.takeWhile_cons, List.takeWhile_cons, ih]

/-- A blank ends a placeholder. -/
theorem placeholdersIn_blank (as bs : List Char) :
    placeholdersIn (as ++ ' ' :: bs) = placeholdersIn as ++ placeholdersIn bs := by
  induction as with
  | nil => rfl
  | cons a as ih =>
    rw [List.cons_append, placeholdersIn, placeholdersIn, takeWhile_isWordChar_blank, ih]
    split <;> rfl

theorem placeholdersIn_words (ws : List String) :
    placeholdersIn (String.intercalate " " ws).toList =
      ws.flatMap fun w => placeholdersIn w.toList := by
  induction ws with
  | nil => rfl
  | cons w ws ih =>
    cases ws with
    | nil => simp
    | cons w' ws =>
      have hblank : " ".toList = [' '] := by decide
      rw [String.intercalate_cons_cons, String.toList_append, String.toList_append, hblank,
        List.append_assoc, List.singleton_append, placeholdersIn_blank, ih]
      rfl

/-- A colon and a word. -/
def IsPlaceholder (name : String) : Prop :=
  ∃ cs : List Char, name.toList = ':' :: cs ∧ cs.all isWordChar = true

theorem placeholdersIn_placeholder {name : String} (h : IsPlaceholder name) :
    placeholdersIn name.toList = [name] := by
  obtain ⟨cs, hname, hcs⟩ := h
  have hcolon : ':' ∉ cs := fun hmem => by
    have := List.all_eq_true.mp hcs ':' hmem
    simp [isWordChar] at this
  have htake : cs.takeWhile isWordChar = cs := List.takeWhile_eq_self_iff.mpr (by simpa using hcs)
  rw [hname, placeholdersIn, if_pos rfl, htake, placeholdersIn_eq_nil hcolon, ← hname,
    String.ofList_toList]

/-! ## Placeholders of conditions -/

theorem isWordChar_of_isNameRest {c : Char} (h : isNameRest c = true) : isWordChar c = true := by
  simp only [isNameRest, Bool.or_eq_true] at h
  simp only [isWordChar, Bool.or_eq_true]
  exact .inl (.inl h)

theorem all_isWordChar_of_isName {s : String} (h : isName s = true) :
    s.toList.all isWordChar = true := by
  unfold isName at h
  split at h
  · cases h
  next c cs hs =>
  simp only [Bool.and_eq_true, List.all_eq_true] at h
  rw [hs, List.all_cons, Bool.and_eq_true, List.all_eq_true]
  refine ⟨isWordChar_of_isNameRest ?_, fun c hc => isWordChar_of_isNameRest (h.2 c hc)⟩
  have hstart := h.1.2
  simp only [isNameStart, Bool.or_eq_true] at hstart
  simp only [isNameRest, Char.isAlphanum, Bool.or_eq_true]
  exact hstart.imp .inl id

namespace Predicate

def tags : List String := ["eq", "ne", "lt", "gt", "le", "ge", "like", "between"]

theorem tag_mem (p : Predicate) : p.tag ∈ tags := by
  cases p with
  | compare c op v => cases op <;> simp [tag, Comparison.tag, tags]
  | between c lo hi => simp [tag, tags]

theorem all_isWordChar_tag (p : Predicate) : p.tag.toList.all isWordChar = true :=
  (by decide : ∀ t ∈ tags, t.toList.all isWordChar = true) _ p.tag_mem

theorem all_isWordChar_numbered {base : String} (h : base.toList.all isWordChar = true) (n : Nat) :
    (numbered base n).toList.all isWordChar = true := by
  unfold numbered
  split
  · exact h
  · have hrepr : (toString n).toList = Nat.toDigits 10 n := Nat.toList_repr
    have hdigits : (Nat.toDigits 10 n).all isWordChar = true := by
      rw [List.all_eq_true]
      intro c hc
      simp [isWordChar, Char.isAlphanum, Nat.isDigit_of_mem_toDigits (by omega) (by omega) hc]
    have hunderscore : "_".toList.all isWordChar = true := by decide
    simp only [String.toList_append, List.all_append, h, hunderscore, hrepr, hdigits,
      Bool.and_true]

theorem isPlaceholder_label {p : Predicate} (h : isName p.column = true) (n : Nat) {e : String}
    (he : e ∈ endings) : IsPlaceholder (label p.placeholder n e) := by
  have hunderscore : "_".toList.all isWordChar = true := by decide
  have hbase : p.placeholder.toList.all isWordChar = true := by
    simp only [placeholder, String.toList_append, List.all_append, all_isWordChar_of_isName h,
      hunderscore, all_isWordChar_tag, Bool.and_true]
  have hend : e.toList.all isWordChar = true := by
    simp only [endings, List.mem_cons, List.not_mem_nil, or_false] at he
    rcases he with rfl | rfl | rfl <;> decide
  refine ⟨(numbered p.placeholder n).toList ++ e.toList, ?_, ?_⟩
  · simp [label]
  · rw [List.all_append, all_isWordChar_numbered hbase, hend, Bool.and_true]

/-- What stands behind the last underscore of a placeholder. -/
theorem exists_label_end (p : Predicate) (n : Nat) {e : String} (he : e ∈ endings) :
    ∃ as bs, (label p.placeholder n e).toList = as ++ '_' :: bs ∧ '_' ∉ bs ∧
      (bs = p.tag.toList ∨ bs.all Char.isDigit = true ∨ bs = ['l', 'o'] ∨ bs = ['h', 'i']) := by
  have hlow : "_lo".toList = ['_', 'l', 'o'] := by decide
  have hhigh : "_hi".toList = ['_', 'h', 'i'] := by decide
  have hunderscore : "_".toList = ['_'] := by decide
  simp only [endings, List.mem_cons, List.not_mem_nil, or_false] at he
  rcases he with rfl | rfl | rfl
  · by_cases hn : n ≤ 1
    · refine ⟨":".toList ++ p.column.toList, p.tag.toList, ?_, ?_, .inl rfl⟩
      · simp [label, numbered, hn, placeholder]
      · exact (by decide : ∀ t ∈ tags, '_' ∉ t.toList) _ p.tag_mem
    · refine ⟨":".toList ++ p.placeholder.toList, Nat.toDigits 10 n, ?_,
        Nat.underscore_not_in_toDigits, .inr (.inl ?_)⟩
      · simp [label, numbered, hn]
      · exact List.all_eq_true.mpr fun c hc => Nat.isDigit_of_mem_toDigits (by omega) (by omega) hc
  · refine ⟨":".toList ++ (numbered p.placeholder n).toList, ['l', 'o'], ?_, by decide,
      .inr (.inr (.inl rfl))⟩
    simp only [label, String.toList_append, hlow]
  · refine ⟨":".toList ++ (numbered p.placeholder n).toList, ['h', 'i'], ?_, by decide,
      .inr (.inr (.inr rfl))⟩
    simp only [label, String.toList_append, hhigh]

/-- The names of what a page is cut by. -/
def pageNames : List String := [":page_limit", ":page_offset"]

theorem label_not_mem_pageNames (p : Predicate) (n : Nat) {e : String} (he : e ∈ endings) :
    label p.placeholder n e ∉ pageNames := by
  intro hmem
  obtain ⟨as, bs, hlabel, hbs, hkind⟩ := exists_label_end p n he
  have hpage : bs = "limit".toList ∨ bs = "offset".toList := by
    simp only [pageNames, List.mem_cons, List.not_mem_nil, or_false] at hmem
    rcases hmem with hmem | hmem
    · have hsplit : ":page_limit".toList = ":page".toList ++ '_' :: "limit".toList := by decide
      rw [hmem, hsplit] at hlabel
      exact .inl (split_inj (by decide) hbs hlabel).2.symm
    · have hsplit : ":page_offset".toList = ":page".toList ++ '_' :: "offset".toList := by decide
      rw [hmem, hsplit] at hlabel
      exact .inr (split_inj (by decide) hbs hlabel).2.symm
  rcases hkind with htag | hrest
  · have hnone : ∀ t ∈ tags, t.toList ≠ "limit".toList ∧ t.toList ≠ "offset".toList := by decide
    obtain ⟨hlimit, hoffset⟩ := hnone _ p.tag_mem
    rcases hpage with hpage | hpage
    · exact hlimit (htag ▸ hpage)
    · exact hoffset (htag ▸ hpage)
  · rcases hpage with rfl | rfl
    · exact absurd hrest (by decide)
    · exact absurd hrest (by decide)

end Predicate

/-! ## Conditions as they are written -/

/-- A condition on a column that has a name, with placeholders for its values. -/
structure Term.IsSpelled (c : Term) : Prop where
  column : isName c.column = true
  params : ∀ entry ∈ c.params, IsPlaceholder entry.1

theorem Predicate.Renders.exists_label {p : Predicate} {c : Term} (h : p.Renders c)
    {entry : String × Value} (hentry : entry ∈ c.params) :
    ∃ n, ∃ e ∈ endings, entry.1 = label p.placeholder n e := by
  obtain ⟨used, named, h⟩ := h
  have hname : entry.1 ∈ names [c] := by
    simp only [names, List.flatMap_cons, List.flatMap_nil, List.append_nil]
    exact List.mem_map_of_mem hentry
  obtain ⟨-, e, he, hlabel⟩ := (names_term h).2 entry.1 hname
  exact ⟨_, e, he, hlabel⟩

theorem Predicate.Renders.isSpelled {p : Predicate} {c : Term} (h : p.Renders c) :
    c.IsSpelled := by
  have hname : isName p.column = true := by
    obtain ⟨used, named, h⟩ := h
    exact (term_cases h).1
  refine ⟨h.column ▸ hname, fun entry hentry => ?_⟩
  obtain ⟨n, e, he, hlabel⟩ := h.exists_label hentry
  rw [hlabel]
  exact isPlaceholder_label hname n he

theorem colon_not_mem_of_isName {s : String} (h : isName s = true) : ':' ∉ s.toList := by
  intro hmem
  have := List.all_eq_true.mp (all_isWordChar_of_isName h) _ hmem
  simp [isWordChar] at this

/-- The placeholders in a condition are those that its values come with. -/
theorem Term.IsSpelled.placeholders {c : Term} (h : c.IsSpelled) :
    (c.words.flatMap fun w => placeholdersIn w.toList) = c.params.map (·.1) := by
  have hcolumn := placeholdersIn_eq_nil (colon_not_mem_of_isName h.column)
  have hfixed : ∀ w ∈ ["IS", "NULL", "NOT", "BETWEEN", "AND"], placeholdersIn w.toList = [] := by
    decide
  have hparams := fun entry hentry => placeholdersIn_placeholder (h.params entry hentry)
  cases c with
  | isNull n => simp_all [Term.words, Term.params, Term.column]
  | isNotNull n => simp_all [Term.words, Term.params, Term.column]
  | compare n op p v =>
    have hsymbol : placeholdersIn op.symbol.toList = [] := by cases op <;> rfl
    simp_all [Term.words, Term.params, Term.column]
  | between n low lo high hi => simp_all [Term.words, Term.params, Term.column]

theorem placeholdersIn_joinedWords {cs : List Term} (h : ∀ c ∈ cs, c.IsSpelled) (j : Join) :
    ((joinedWords j cs).flatMap fun w => placeholdersIn w.toList) =
      (cs.flatMap Term.params).map (·.1) := by
  have hword : placeholdersIn j.word.toList = [] := by cases j <;> rfl
  induction cs with
  | nil => rfl
  | cons c cs ih =>
    have hrest := ih fun d hd => h d (List.mem_cons_of_mem _ hd)
    simp only [joinedWords] at hrest ⊢
    simp only [List.flatMap_cons, List.flatMap_append, List.map_append, hword, List.nil_append,
      (h c (by simp)).placeholders, hrest]

theorem Clause.placeholdersIn_fragment {k : Clause} (h : ∀ c ∈ k.terms, c.IsSpelled) :
    placeholdersIn k.fragment.toList = k.params.map (·.1) := by
  have hword : placeholdersIn k.join.word.toList = [] := by cases k.join <;> rfl
  have hall := placeholdersIn_joinedWords h k.join
  rw [fragment_eq, placeholdersIn_words, words]
  cases hterms : k.terms with
  | nil => simp [joinedWords, params, hterms]
  | cons c cs =>
    rw [hterms] at hall
    simp only [joinedWords, List.flatMap_cons, List.cons_append, hword, List.nil_append,
      List.tail_cons, params, hterms] at hall ⊢
    exact hall

/-! ## Operands -/

/-- The operands that are bound to placeholders. -/
def Predicate.bound (p : Predicate) : List Value := p.operands.filter (· ≠ .null)

theorem Predicate.Renders.values {p : Predicate} {c : Term} (h : p.Renders c) :
    c.params.map (·.2) = p.bound := by
  obtain ⟨used, named, h⟩ := h
  obtain ⟨-, ⟨n, rfl, rfl⟩ | ⟨n, rfl, rfl⟩ | ⟨n, op, v, param, hv, rfl, rfl⟩ |
    ⟨n, lo, hi, low, high, hlo, hhi, rfl, rfl⟩⟩ := term_cases h
  · rfl
  · rfl
  · simp [bound, operands, Term.params, hv]
  · simp [bound, operands, Term.params, hlo, hhi]

theorem values_of_forall₂ {ps : List Predicate} {cs : List Term}
    (h : List.Forall₂ Predicate.Renders ps cs) :
    (cs.flatMap Term.params).map (·.2) = ps.flatMap Predicate.bound := by
  induction h with
  | nil => rfl
  | cons hp _ ih => rw [List.flatMap_cons, List.flatMap_cons, List.map_append, hp.values, ih]

/-! ## Filters as they are written -/

/-- How the values of a filter stand to its text. -/
structure Clause.Binds (k : Clause) (ps : List Predicate) : Prop where
  distinct : (k.params.map (·.1)).Nodup
  free : ∀ name ∈ Predicate.pageNames, name ∉ k.params.map (·.1)
  aligned : placeholdersIn k.fragment.toList = k.params.map (·.1)
  values : k.values = ps.flatMap Predicate.bound

/-- Placeholders are all different, none has a name that a page asks for, the text has them
in the order of their values, and the values are the operands. -/
theorem Filter.clause_binds {f : Filter} {k : Clause} (h : f.clause = .ok k) :
    k.Binds f.predicates := by
  obtain ⟨cs, hterms, rfl⟩ := clause_eq_ok.mp h
  have hrender := terms_render hterms
  obtain ⟨hnodup, -⟩ := Predicate.names_terms hterms
  refine ⟨hnodup, ?_, ?_, values_of_forall₂ hrender⟩
  · intro name hpage hname
    obtain ⟨entry, hentry, rfl⟩ := List.mem_map.mp hname
    obtain ⟨c, hc, hentry⟩ := List.mem_flatMap.mp hentry
    obtain ⟨p, -, hp⟩ := Predicate.exists_predicate hrender hc
    obtain ⟨n, e, he, hlabel⟩ := hp.exists_label hentry
    exact Predicate.label_not_mem_pageNames p n he (hlabel ▸ hpage)
  · refine Clause.placeholdersIn_fragment fun c hc => ?_
    obtain ⟨p, -, hp⟩ := Predicate.exists_predicate hrender hc
    exact hp.isSpelled

/-- A name that is used twice, bounds, a null, and columns named like placeholders. -/
def tangledFilter : Filter :=
  .any [.compare "x" .equals (.integer 1), .compare "x" .equals (.integer 2),
    .compare "x_eq" .equals .null, .compare "x_eq" .lessThan (.text "2"),
    .between "page_limit" (.integer 3) (.integer 4)]

def tangledClause : Clause :=
  ⟨[.compare "x" .equals ":x_eq" (.integer 1), .compare "x" .equals ":x_eq_2" (.integer 2),
    .isNull "x_eq", .compare "x_eq" .lessThan ":x_eq_lt" (.text "2"),
    .between "page_limit" ":page_limit_between_lo" (.integer 3) ":page_limit_between_hi"
      (.integer 4)], .any⟩

theorem clause_tangledFilter : tangledFilter.clause = .ok tangledClause := by
  decide +kernel

theorem tangledClause_binds :
    tangledFilter.clause = .ok tangledClause ∧ tangledClause.Binds tangledFilter.predicates :=
  ⟨clause_tangledFilter, Filter.clause_binds clause_tangledFilter⟩

end LiveRecords
