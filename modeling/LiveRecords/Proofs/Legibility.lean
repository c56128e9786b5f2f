import LiveRecords.Proofs.Wording

/-!
# Reading filters back

A filter is refused for its first predicate that has no name for a column or a null where
none is asked for. One that is accepted can be read back from its text and its values,
whatever its columns are called: a condition starts with its column, the words behind it
stand at fixed places, and so each condition says by itself where it ends. Only the join of
fewer than two predicates leaves no trace.
-/

namespace LiveRecords

/-! ## Filters that are refused -/

namespace Predicate

/-- What a predicate is refused for, if for anything. -/
def fault? (p : Predicate) : Option PredicateError :=
  if isName p.column = false then some (.invalidColumn p.column)
  else if .null ∈ p.operands ∧ p.operator ≠ .comparison .equals ∧
      p.operator ≠ .comparison .notEquals then some (.nullOperand p.column)
  else none

theorem fault?_eq_none {p : Predicate} :
    p.fault? = none ↔ isName p.column = true ∧ (.null ∈ p.operands →
      p.operator = .comparison .equals ∨ p.operator = .comparison .notEquals) := by
  unfold fault?
  split
  · next hname => simp [hname]
  next hname =>
  rw [Bool.not_eq_false] at hname
  split
  · next hnull => simp only [hname, reduceCtorEq, true_and, false_iff]; tauto
  · next hnull => simp only [hname, true_and, true_iff]; tauto

theorem fault?_ne_operandShape (p : Predicate) (c : String) :
    p.fault? ≠ some (.operandShape c) := by
  unfold fault?
  split
  · simp
  · split <;> simp

theorem term_error_iff {p : Predicate} {used : List String} {e : PredicateError} :
    p.term used = .error e ↔ p.fault? = some e := by
  by_cases hname : isName p.column = true
  · cases p with
    | compare c op v =>
      have hc : isName c = true := hname
      cases v <;> cases op <;> simp [term_eq, fault?, column, operands, operator, hc]
    | between c lo hi =>
      have hc : isName c = true := hname
      cases lo <;> cases hi <;> simp [term_eq, fault?, column, operands, operator, hc]
  · simp [term_eq, fault?, hname]

end Predicate

namespace Filter

/-- The first offending predicate decides. -/
theorem terms_error_iff {ps : List Predicate} {e : PredicateError} (used : List String) :
    terms used ps = .error e ↔ ps.findSome? Predicate.fault? = some e := by
  induction ps generalizing used with
  | nil => simp [terms]
  | cons p ps ih =>
    rw [terms, List.findSome?_cons]
    split
    · next e' hterm =>
      rw [Predicate.term_error_iff.mp hterm, Except.error.injEq, Option.some.injEq]
    · next c named hterm =>
      have hnone : p.fault? = none := by
        cases hfault : p.fault? with
        | none => rfl
        | some e' =>
          rw [Predicate.term_error_iff.mpr hfault] at hterm
          cases hterm
      rw [hnone]
      simp only
      rw [← ih (if named then p.placeholder :: used else used)]
      split <;> simp_all

theorem clause_error_iff {f : Filter} {e : PredicateError} :
    f.clause = .error e ↔ f.predicates.findSome? Predicate.fault? = some e := by
  rw [← terms_error_iff [], clause]
  split <;> simp_all

theorem clause_ok_iff {f : Filter} :
    (∃ k, f.clause = .ok k) ↔ ∀ p ∈ f.predicates, p.fault? = none := by
  rw [← List.findSome?_eq_none_iff]
  constructor
  · rintro ⟨k, hk⟩
    cases hfault : f.predicates.findSome? Predicate.fault? with
    | none => rfl
    | some e =>
      rw [clause_error_iff.mpr hfault] at hk
      cases hk
  · intro hnone
    cases hclause : f.clause with
    | ok k => exact ⟨k, rfl⟩
    | error e =>
      rw [clause_error_iff.mp hclause] at hnone
      cases hnone

end Filter

/-! ## Reading words -/

def Comparison.ofSymbol? (w : String) : Option Comparison :=
  [equals, notEquals, lessThan, greaterThan, lessOrEqual, greaterOrEqual, like].find?
    (·.symbol == w)

theorem Comparison.ofSymbol?_symbol (op : Comparison) : ofSymbol? op.symbol = some op := by
  cases op <;> decide

def Join.ofWord? (w : String) : Option Join := [all, any].find? (·.word == w)

theorem Join.ofWord?_word (j : Join) : ofWord? j.word = some j := by
  cases j <;> decide

/-- The predicates that words spell, each with the word before it; operands are what is
bound to the placeholders. -/
def readWords (bound : String → Option Value) :
    List String → Option (List (String × Predicate))
  | [] => some []
  | j :: c :: "IS" :: "NULL" :: ws =>
    (readWords bound ws).map ((j, .compare c .equals .null) :: ·)
  | j :: c :: "IS" :: "NOT" :: "NULL" :: ws =>
    (readWords bound ws).map ((j, .compare c .notEquals .null) :: ·)
  | j :: c :: "BETWEEN" :: low :: "AND" :: high :: ws => do
    let lo ← bound low
    let hi ← bound high
    (readWords bound ws).map ((j, .between c lo hi) :: ·)
  | j :: c :: symbol :: param :: ws => do
    let op ← Comparison.ofSymbol? symbol
    let v ← bound param
    (readWords bound ws).map ((j, .compare c op v) :: ·)
  | _ => none

/-- The predicate that a condition says. -/
def Term.predicate : Term → Predicate
  | .isNull c => .compare c .equals .null
  | .isNotNull c => .compare c .notEquals .null
  | .compare c op _ v => .compare c op v
  | .between c _ lo _ hi => .between c lo hi

theorem Predicate.Renders.predicate_eq {p : Predicate} {c : Term} (h : p.Renders c) :
    c.predicate = p := by
  obtain ⟨used, named, h⟩ := h
  obtain ⟨-, ⟨n, rfl, rfl⟩ | ⟨n, rfl, rfl⟩ | ⟨n, op, v, param, -, rfl, rfl⟩ |
    ⟨n, lo, hi, low, high, -, -, rfl, rfl⟩⟩ := term_cases h <;> rfl

variable {bound : String → Option Value}

/-- A condition says by itself where it ends. -/
theorem readWords_term {c : Term} (h : ∀ entry ∈ c.params, bound entry.1 = some entry.2)
    (j : String) (ws : List String) :
    readWords bound (j :: (c.words ++ ws)) =
      (readWords bound ws).map ((j, c.predicate) :: ·) := by
  cases c with
  | isNull n => simp [Term.words, Term.predicate, readWords]
  | isNotNull n => simp [Term.words, Term.predicate, readWords]
  | compare n op p v =>
    have hv : bound p = some v := h (p, v) (by simp [Term.params])
    have hop := op.ofSymbol?_symbol
    cases op <;> simp_all [Term.words, Term.predicate, readWords, Comparison.symbol]
  | between n low lo high hi =>
    have hlo : bound low = some lo := h (low, lo) (by simp [Term.params])
    have hhi : bound high = some hi := h (high, hi) (by simp [Term.params])
    simp [Term.words, Term.predicate, readWords, hlo, hhi]

theorem readWords_joinedWords {cs : List Term}
    (h : ∀ c ∈ cs, ∀ entry ∈ c.params, bound entry.1 = some entry.2) (j : Join) :
    readWords bound (joinedWords j cs) = some (cs.map fun c => (j.word, c.predicate)) := by
  induction cs with
  | nil => rfl
  | cons c cs ih =>
    have hrest := ih fun d hd => h d (List.mem_cons_of_mem _ hd)
    rw [joinedWords] at hrest ⊢
    rw [List.flatMap_cons, List.cons_append, readWords_term (h c (by simp)), hrest]
    rfl

/-! ## Reading a text -/

theorem blank_not_mem_of_all {cs : List Char} (h : cs.all Table.Token.isWordChar = true) :
    ' ' ∉ cs := by
  intro hmem
  have := List.all_eq_true.mp h _ hmem
  simp [Table.Token.isWordChar] at this

theorem IsPlaceholder.blank_not_mem {name : String} (h : IsPlaceholder name) :
    ' ' ∉ name.toList := by
  obtain ⟨cs, hname, hcs⟩ := h
  rw [hname, List.mem_cons, not_or]
  exact ⟨by decide, blank_not_mem_of_all hcs⟩

theorem Term.IsSpelled.blank_not_mem {c : Term} (h : c.IsSpelled) :
    ∀ w ∈ c.words, ' ' ∉ w.toList := by
  have hcolumn := blank_not_mem_of_all (all_isWordChar_of_isName h.column)
  have hfixed : ∀ w ∈ ["IS", "NULL", "NOT", "BETWEEN", "AND"], ' ' ∉ w.toList := by decide
  have hparams := fun entry hentry => (h.params entry hentry).blank_not_mem
  cases c with
  | isNull n => simp_all [Term.words, Term.params, Term.column]
  | isNotNull n => simp_all [Term.words, Term.params, Term.column]
  | compare n op p v =>
    have hsymbol : ' ' ∉ op.symbol.toList := by cases op <;> decide
    simp_all [Term.words, Term.params, Term.column]
  | between n low lo high hi => simp_all [Term.words, Term.params, Term.column]

/-- The words of a text, with an empty one before them. -/
def wordsOf (text : String) : List String :=
  if text.isEmpty then [] else "" :: (text.toList.splitOn ' ').map String.ofList

/-- A text of words is parted where the blanks are. -/
theorem wordsOf_intercalate {ws : List String} (h : ∀ w ∈ ws, ' ' ∉ w.toList)
    (hne : String.intercalate " " ws ≠ "") : wordsOf (String.intercalate " " ws) = "" :: ws := by
  have hblank : " ".toList = [' '] := by decide
  have hws : ws ≠ [] := by
    rintro rfl
    exact hne rfl
  have hempty : (String.intercalate " " ws).isEmpty = false := by simpa using hne
  rw [wordsOf, if_neg (by simp [hempty]), String.toList_intercalate, hblank,
    List.splitOn_intercalate]
  · simp
  · simpa using h
  · simpa using hws

theorem Clause.fragment_ne_empty {k : Clause} (h : k.terms ≠ []) : k.fragment ≠ "" := by
  obtain ⟨cs, j⟩ := k
  cases cs with
  | nil => exact absurd rfl h
  | cons c cs =>
    intro hempty
    have htail : c.tail ≠ "" := by cases c <;> simp [Term.tail]
    have htext : c.text ≠ "" := by simp [Term.text, htail]
    cases cs with
    | nil => simp [fragment, htext] at hempty
    | cons d cs => simp [fragment, String.intercalate_cons_cons, htext] at hempty

/-- The join of the second predicate to the first. -/
def joinOf : List (String × Predicate) → Option Join
  | _ :: (j, _) :: _ => Join.ofWord? j
  | _ => none

/-- The predicates that a text with values says, and their join if there are two. -/
def readBack (fragment : String) (params : List (String × Value)) :
    Option (List Predicate × Option Join) :=
  (readWords (fun name => params.lookup name) (wordsOf fragment)).map fun read =>
    (read.map (·.2), joinOf read)

/-- A clause whose conditions have placeholders of their own is read back. -/
theorem Clause.readBack_fragment {k : Clause} (h : ∀ c ∈ k.terms, c.IsSpelled)
    (hnodup : (k.params.map (·.1)).Nodup) :
    readBack k.fragment k.params =
      some (k.terms.map Term.predicate, if 2 ≤ k.terms.length then some k.join else none) := by
  have hbound : ∀ c ∈ k.terms, ∀ entry ∈ c.params, k.params.lookup entry.1 = some entry.2 :=
    fun c hc entry hentry => lookup_of_nodup hnodup (List.mem_flatMap.mpr ⟨c, hc, hentry⟩)
  obtain ⟨cs, j⟩ := k
  cases cs with
  | nil => rfl
  | cons c cs =>
    have hne := fragment_ne_empty (k := ⟨c :: cs, j⟩) (by simp)
    have hwords : words ⟨c :: cs, j⟩ = c.words ++ joinedWords j cs := rfl
    have hclear : ∀ w ∈ c.words ++ joinedWords j cs, ' ' ∉ w.toList := by
      intro w hw
      rcases List.mem_append.mp hw with hw | hw
      · exact (h c (by simp)).blank_not_mem w hw
      · obtain ⟨d, hd, hw⟩ := List.mem_flatMap.mp hw
        rcases List.mem_cons.mp hw with rfl | hw
        · cases j <;> decide
        · exact (h d (by simp [hd])).blank_not_mem w hw
    rw [fragment_eq, hwords] at hne
    rw [readBack, fragment_eq, hwords, wordsOf_intercalate hclear hne,
      readWords_term (hbound c (by simp)),
      readWords_joinedWords fun d hd => hbound d (List.mem_cons_of_mem _ hd)]
    cases cs with
    | nil => rfl
    | cons d cs => simp [joinOf, Join.ofWord?_word, Function.comp_def]

/-! ## Filters that are read back -/

theorem predicates_of_forall₂ {ps : List Predicate} {cs : List Term}
    (h : List.Forall₂ Predicate.Renders ps cs) : cs.map Term.predicate = ps := by
  induction h with
  | nil => rfl
  | cons hp _ ih => rw [List.map_cons, hp.predicate_eq, ih]

namespace Filter

variable {f g : Filter} {k k' : Clause}

theorem readBack_clause (h : f.clause = .ok k) :
    readBack k.fragment k.params =
      some (f.predicates, if 2 ≤ f.predicates.length then some f.join else none) := by
  have hbinds := clause_binds h
  obtain ⟨cs, hterms, rfl⟩ := clause_eq_ok.mp h
  have hrender := terms_render hterms
  have hspelled : ∀ c ∈ cs, c.IsSpelled := by
    intro c hc
    obtain ⟨p, -, hp⟩ := Predicate.exists_predicate hrender hc
    exact hp.isSpelled
  rw [Clause.readBack_fragment hspelled hbinds.distinct, predicates_of_forall₂ hrender,
    hrender.length_eq]

/-- What is told about a filter by whether and how it is rendered. -/
structure Legible (f : Filter) : Prop where
  accepted : (∃ k, f.clause = .ok k) ↔ ∀ p ∈ f.predicates, isName p.column = true ∧
    (.null ∈ p.operands → p.operator = .comparison .equals ∨ p.operator = .comparison .notEquals)
  refused : ∀ e, f.clause = .error e ↔ f.predicates.findSome? Predicate.fault? = some e
  shaped : ∀ column, f.clause ≠ .error (.operandShape column)
  readable : ∀ k, f.clause = .ok k → readBack k.fragment k.params =
    some (f.predicates, if 2 ≤ f.predicates.length then some f.join else none)
  determined : ∀ (g : Filter) (k k' : Clause), f.clause = .ok k → g.clause = .ok k' →
    k.fragment = k'.fragment → k.params = k'.params →
      f.predicates = g.predicates ∧ (2 ≤ f.predicates.length → f.join = g.join)

theorem legible (f : Filter) : f.Legible where
  accepted := by
    rw [clause_ok_iff]
    exact forall₂_congr fun p _ => Predicate.fault?_eq_none
  refused := fun _ => clause_error_iff
  shaped := by
    intro column hclause
    obtain ⟨p, -, hp⟩ := List.exists_of_findSome?_eq_some (clause_error_iff.mp hclause)
    exact p.fault?_ne_operandShape column hp
  readable := fun _ => readBack_clause
  determined := by
    intro g k k' hf hg hfragment hparams
    have hread := readBack_clause hf
    rw [hfragment, hparams, readBack_clause hg, Option.some.injEq, Prod.mk.injEq] at hread
    obtain ⟨hpredicates, hjoin⟩ := hread
    refine ⟨hpredicates.symm, fun htwo => ?_⟩
    rw [hpredicates, if_pos htwo, if_pos htwo] at hjoin
    exact (Option.some.inj hjoin).symm

/-- Columns may be called like the words between them. -/
example : (Filter.any [.between "BETWEEN" (.integer 1) (.integer 2), .equals "AND" .null,
    .compare "IS" .notEquals .null, .compare "OR" .like (.text "AND")]).clause.toOption.map
      Clause.fragment =
    some ("BETWEEN BETWEEN :BETWEEN_between_lo AND :BETWEEN_between_hi OR AND IS NULL OR " ++
      "IS IS NOT NULL OR OR LIKE :OR_like") := by
  decide +kernel

end Filter

end LiveRecords
