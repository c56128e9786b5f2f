import LiveRecords.Proofs.Keying
import Mathlib.Data.List.Forall2

/-!
# What conditions say

A condition is about one word. Its truth is told by what the word is compared as,
which is a cell with an affinity and a collation, and not by how its placeholders
are called. So a predicate has one meaning in a row, wherever it stands in a filter,
and a filter means that all its predicates are satisfied, or one of them.
-/

namespace LiveRecords

open Table (Binding Cell Expression Refusal Row Scope)
open Table.Plan (Conjunct)

namespace Table

variable {t : Table} {s s' : Scope} {r : Row} {c : Term} {ks : List Conjunct}

/-! ## Words -/

/-- What a word is compared as. -/
def Expression.seen (s : Scope) (word : String) : Binding :=
  match clock? word with
  | some c => ⟨.text (Text.Utf8.bytes c.text), .none, .binary⟩
  | none => (lookUp s word false).getD ⟨.null, .none, .binary⟩

open Expression (seen)

/-- A name without a meaning in a row is a truth value or nothing, and lends nothing. -/
theorem lookUp_none {word : String} (h : s word = none) :
    ((Expression.lookUp s word false).getD ⟨.null, .none, .binary⟩).affinity = .none ∧
      ((Expression.lookUp s word false).getD ⟨.null, .none, .binary⟩).collation = .binary := by
  unfold Expression.lookUp
  rw [h]
  dsimp only
  rw [if_neg (by simp)]
  split
  · simp
  · split <;> simp

theorem eval_seen (s : Scope) (word : String) :
    (Expression.ofWord word).eval s = .ok (seen s word).cell := by
  cases hclock : Expression.clock? word with
  | some c => simp [Expression.ofWord, seen, hclock, Expression.eval]
  | none =>
    cases h : Expression.lookUp s word false <;>
      simp [Expression.ofWord, seen, hclock, Expression.eval, h]

theorem affinity_seen (s : Scope) (word : String) :
    comparisonAffinity ((Expression.ofWord word).affinity? s) none = (seen s word).affinity := by
  cases hclock : Expression.clock? word with
  | some c => simp [Expression.ofWord, seen, hclock, Expression.affinity?, comparisonAffinity]
  | none =>
    cases h : s word with
    | some b =>
      simp [Expression.ofWord, seen, hclock, Expression.affinity?, Expression.lookUp, h,
        comparisonAffinity]
    | none =>
      simp [Expression.ofWord, seen, hclock, Expression.affinity?, h, comparisonAffinity,
        (lookUp_none h).1]

theorem collation_seen (s : Scope) (word : String) (x : Cell) :
    Expression.collation s (.ofWord word) (.literal x) = (seen s word).collation := by
  cases hclock : Expression.clock? word with
  | some c =>
    simp [Expression.ofWord, seen, hclock, Expression.collation, Expression.spelledOut?,
      Expression.ofColumn?]
  | none =>
    cases h : s word with
    | some b =>
      simp [Expression.ofWord, seen, hclock, Expression.collation, Expression.spelledOut?,
        Expression.ofColumn?, Expression.lookUp, h]
    | none =>
      simp [Expression.ofWord, seen, hclock, Expression.collation, Expression.spelledOut?,
        Expression.ofColumn?, h, (lookUp_none h).2]

/-! ## Conditions -/

theorem eval_compare_seen (s : Scope) (op : Comparison) (word : String) (v : Value) :
    (Expression.compare op (.ofWord word) (.literal (.ofValue v))).eval s =
      .ok (.ofTruth (compareCells (seen s word).affinity (seen s word).collation op
        (seen s word).cell (.ofValue v))) := by
  simp only [Expression.compare, Expression.eval, eval_seen, BinaryOp.isDecided, BinaryOp.apply,
    Bool.false_eq_true, if_false, collation_seen]
  rw [show Expression.affinity? s (.literal (.ofValue v)) = none from rfl, affinity_seen]

theorem truth_compare (s : Scope) (op : Comparison) (word : String) (v : Value) :
    (Expression.compare op (.ofWord word) (.literal (.ofValue v))).truth s =
      .ok (compareCells (seen s word).affinity (seen s word).collation op
        (seen s word).cell (.ofValue v)) := by
  simp [Expression.truth, eval_compare_seen, Except.map, truth_ofTruth]

theorem truth_between (s : Scope) (word : String) (low high : Value) :
    (Expression.between (.ofWord word) (.literal (.ofValue low))
      (.literal (.ofValue high))).truth s =
      .ok (bothTrue
        (compareCells (seen s word).affinity (seen s word).collation .greaterOrEqual
          (seen s word).cell (.ofValue low))
        (compareCells (seen s word).affinity (seen s word).collation .lessOrEqual
          (seen s word).cell (.ofValue high))) := by
  simp only [Expression.between, Expression.truth, Expression.eval, eval_compare_seen,
    BinaryOp.isDecided, BinaryOp.apply, truth_ofTruth]
  generalize compareCells _ _ .greaterOrEqual _ _ = above
  generalize compareCells _ _ .lessOrEqual _ _ = below
  -- A lower bound that is missed decides before the upper one is tried.
  rcases above with _ | _ | _ <;> simp [Except.map, bothTrue, truth_ofTruth]

theorem truth_isNull (s : Scope) (word : String) :
    (Expression.isNull (.ofWord word)).truth s = .ok (some (seen s word).cell.isNull) := by
  have hbool : ∀ b, (Cell.ofBool b).truth = some b := fun b => truth_ofTruth (some b)
  simp [Expression.truth, Expression.eval_isNull s _ _ (eval_seen s word), Except.map, hbool]

theorem truth_isNotNull (s : Scope) (word : String) :
    (Expression.isNotNull (.ofWord word)).truth s = .ok (some !(seen s word).cell.isNull) := by
  have hbool : ∀ b, (Cell.ofBool b).truth = some b := fun b => truth_ofTruth (some b)
  simp [Expression.truth, Expression.isNotNull, Expression.null, Expression.eval, eval_seen,
    BinaryOp.isDecided, BinaryOp.apply, sameCell, Cell.isNull, Except.map, hbool]

theorem truth_like (s : Scope) (word : String) (v : Value) :
    (Expression.like (.ofWord word) (.literal (.ofValue v))).truth s =
      (Function.like (.ofValue v) (seen s word).cell none).map Cell.truth := by
  simp [Expression.truth, Expression.like, Expression.invoke, Arguments.ofList, Expression.eval,
    Arguments.eval, eval_seen, apply_like]

/-- A condition is as true where its word is compared as the same. -/
theorem truth_congr (h : seen s c.column = seen s' c.column) :
    (Expression.ofTerm c).truth s = (Expression.ofTerm c).truth s' := by
  cases c with
  | isNull word =>
    simp only [Expression.ofTerm, truth_isNull, Term.column] at h ⊢
    rw [h]
  | isNotNull word =>
    simp only [Expression.ofTerm, truth_isNotNull, Term.column] at h ⊢
    rw [h]
  | between word p lo q hi =>
    simp only [Expression.ofTerm, truth_between, Term.column] at h ⊢
    rw [h]
  | compare word op p v =>
    cases op with
    | like =>
      simp only [Expression.ofTerm, truth_like, Term.column] at h ⊢
      rw [h]
    | _ =>
      simp only [Expression.ofTerm, truth_compare, Term.column] at h ⊢
      rw [h]

/-- A word that a table has a column for is compared as the entry of that column. -/
theorem seen_scope {name : String} (hclock : Expression.clock? name = none)
    (h : t.resolves name = true) :
    seen (t.scope r) name = ⟨t.cell r name, t.affinity name, t.collation name⟩ := by
  simp [seen, hclock, Expression.lookUp, scope, h]

end Table

/-! ## Predicates -/

namespace Predicate

/-- The condition that a predicate asks for, whatever its placeholders are called. -/
def condition : Predicate → Expression
  | .compare c .equals .null => .isNull (.ofWord c)
  | .compare c .notEquals .null => .isNotNull (.ofWord c)
  | .compare c .like v => .like (.ofWord c) (.literal (.ofValue v))
  | .compare c op v => .compare op (.ofWord c) (.literal (.ofValue v))
  | .between c lo hi => .between (.ofWord c) (.literal (.ofValue lo)) (.literal (.ofValue hi))

/-- A predicate is written as a condition, somewhere in a filter. -/
def Renders (p : Predicate) (c : Term) : Prop := ∃ used named, p.term used = .ok (c, named)

theorem term_cases {p : Predicate} {used : List String} {c : Term} {named : Bool}
    (h : p.term used = .ok (c, named)) :
    isName p.column = true ∧
      ((∃ n, p = .compare n .equals .null ∧ c = .isNull n) ∨
        (∃ n, p = .compare n .notEquals .null ∧ c = .isNotNull n) ∨
        (∃ n op v param, v ≠ .null ∧ p = .compare n op v ∧ c = .compare n op param v) ∨
        ∃ n lo hi low high, lo ≠ .null ∧ hi ≠ .null ∧ p = .between n lo hi ∧
          c = .between n low lo high hi) := by
  rw [term_eq] at h
  split at h
  · cases h
  next hname =>
  refine ⟨by simpa using hname, ?_⟩
  dsimp only at h
  split at h
  · cases h
    exact .inl ⟨_, rfl, rfl⟩
  · cases h
    exact .inr (.inl ⟨_, rfl, rfl⟩)
  · cases h
  · next n op v hequals hnot hnull =>
    cases h
    refine .inr (.inr (.inl ⟨n, op, v, _, ?_, rfl, rfl⟩))
    rintro rfl
    exact hnull rfl
  · cases h
  · cases h
  · next n lo hi hlow hhigh =>
    cases h
    refine .inr (.inr (.inr ⟨n, lo, hi, _, _, ?_, ?_, rfl, rfl⟩))
    · rintro rfl
      exact hlow rfl
    · rintro rfl
      exact hhigh rfl

variable {p : Predicate} {c : Term}

theorem Renders.condition (h : p.Renders c) : Expression.ofTerm c = p.condition := by
  obtain ⟨used, named, h⟩ := h
  obtain ⟨-, ⟨n, rfl, rfl⟩ | ⟨n, rfl, rfl⟩ | ⟨n, op, v, param, hv, rfl, rfl⟩ |
    ⟨n, lo, hi, low, high, -, -, rfl, rfl⟩⟩ := term_cases h
  · rfl
  · rfl
  · cases op <;> cases v <;> first | rfl | exact absurd rfl hv
  · rfl

theorem Renders.column (h : p.Renders c) : c.column = p.column := by
  obtain ⟨used, named, h⟩ := h
  obtain ⟨-, ⟨n, rfl, rfl⟩ | ⟨n, rfl, rfl⟩ | ⟨n, op, v, param, hv, rfl, rfl⟩ |
    ⟨n, lo, hi, low, high, -, -, rfl, rfl⟩⟩ := term_cases h <;> rfl

end Predicate

theorem Filter.clause_eq_ok {f : Filter} {k : Clause} :
    f.clause = .ok k ↔ ∃ cs, terms [] f.predicates = .ok cs ∧ k = ⟨cs, f.join⟩ := by
  unfold clause
  split
  · next cs hterms => simp [hterms, eq_comm]
  · next e hterms => simp [hterms]

/-- The predicates of a filter and its conditions go in pairs. -/
theorem Filter.terms_render {used : List String} {ps : List Predicate} {cs : List Term}
    (h : terms used ps = .ok cs) : List.Forall₂ Predicate.Renders ps cs := by
  induction ps generalizing used cs with
  | nil =>
    cases h
    exact .nil
  | cons p ps ih =>
    unfold terms at h
    split at h
    · cases h
    next c named hterm =>
    split at h
    · cases h
    next rest hrest =>
    cases h
    exact .cons ⟨used, named, hterm⟩ (ih hrest)

namespace Predicate

variable {ps : List Predicate} {cs : List Term}

theorem exists_term (h : List.Forall₂ Renders ps cs) {p : Predicate} (hp : p ∈ ps) :
    ∃ c ∈ cs, p.Renders c := by
  induction h with
  | nil => simp at hp
  | @cons q c ps cs hq _ ih =>
    rcases List.mem_cons.mp hp with rfl | hp
    · exact ⟨c, by simp, hq⟩
    · obtain ⟨d, hd, hrender⟩ := ih hp
      exact ⟨d, List.mem_cons_of_mem _ hd, hrender⟩

theorem exists_predicate (h : List.Forall₂ Renders ps cs) {c : Term} (hc : c ∈ cs) :
    ∃ p ∈ ps, p.Renders c := by
  induction h with
  | nil => simp at hc
  | @cons q d ps cs hq _ ih =>
    rcases List.mem_cons.mp hc with rfl | hc
    · exact ⟨q, by simp, hq⟩
    · obtain ⟨p, hp, hrender⟩ := ih hc
      exact ⟨p, List.mem_cons_of_mem _ hp, hrender⟩

end Predicate

/-! ## Rows that satisfy them -/

namespace Table

variable {t : Table} {k : Clause} {ks : List Conjunct} {f : Filter} {r : Row}

/-- A predicate is true in a row. -/
def Satisfies (t : Table) (p : Predicate) (r : Row) : Prop :=
  p.condition.truth (t.scope r) = .ok (some true)

/-- All conjuncts are true in a row. -/
def Passes (t : Table) (ks : List Conjunct) (r : Row) : Prop :=
  ∀ k ∈ ks, holdsConjunct (t.scope r) k = .ok true

theorem holdsConjunct_one_iff {s : Scope} {c : Term} :
    holdsConjunct s (.one c) = .ok true ↔ (Expression.ofTerm c).truth s = .ok (some true) := by
  cases h : (Expression.ofTerm c).truth s with
  | error e => simp [holdsConjunct, h, bind, Except.bind]
  | ok b => simp [holdsConjunct, h, bind, Except.bind, pure, Except.pure]

theorem holdsAll_iff {s : Scope} :
    holdsAll s ks = .ok true ↔ ∀ k ∈ ks, holdsConjunct s k = .ok true := by
  induction ks with
  | nil => simp [holdsAll]
  | cons k ks ih =>
    cases h : holdsConjunct s k with
    | error e => simp [holdsAll, h, bind, Except.bind]
    | ok b => cases b <;> simp [holdsAll, h, bind, Except.bind, ih, pure, Except.pure]

theorem allTrue_iff {s : Scope} :
    allTrue s ks = true ↔ ∀ k ∈ ks, holdsConjunct s k = .ok true := by
  rw [← holdsAll_iff]
  unfold allTrue
  split
  · next b h => simp [h]
  · next e h => simp [h]

theorem exists_of_holdsAny {s : Scope} {cs : List Term} (h : holdsAny s cs = .ok true) :
    ∃ c ∈ cs, (Expression.ofTerm c).truth s = .ok (some true) := by
  induction cs with
  | nil => cases h
  | cons c cs ih =>
    obtain ⟨b, hb, h⟩ := bind_eq_ok.mp h
    split at h
    · next htrue => exact ⟨c, by simp, by rw [hb, htrue]⟩
    · obtain ⟨d, hd, hdtrue⟩ := ih h
      exact ⟨d, List.mem_cons_of_mem _ hd, hdtrue⟩

/-- One true condition is enough, where none before it is refused. -/
theorem holdsAny_of_exists {s : Scope} {cs : List Term} (hs : Sure s cs) {c : Term}
    (hc : c ∈ cs) (h : (Expression.ofTerm c).truth s = .ok (some true)) :
    holdsAny s cs = .ok true := by
  induction cs with
  | nil => simp at hc
  | cons d cs ih =>
    obtain ⟨b, hb⟩ := hs d (by simp)
    simp only [holdsAny, hb, bind, Except.bind]
    split
    · rfl
    · next hfalse =>
      rcases List.mem_cons.mp hc with rfl | hc
      · rw [hb] at h
        simp at h
        exact absurd h hfalse
      · exact ih (fun e he => hs e (by simp [he])) hc

/-- What is true of some conditions stays true with more after them. -/
theorem holdsAny_append {s : Scope} {cs ds : List Term} (h : holdsAny s cs = .ok true) :
    holdsAny s (cs ++ ds) = .ok true := by
  induction cs with
  | nil => cases h
  | cons c cs ih =>
    obtain ⟨b, hb, h⟩ := bind_eq_ok.mp h
    simp only [List.cons_append, holdsAny, hb, bind, Except.bind]
    split
    · rfl
    · next hfalse =>
      rw [if_neg hfalse] at h
      exact ih h

theorem conjuncts_all (cs : List Term) : (⟨cs, .all⟩ : Clause).conjuncts = cs.map .one := rfl

theorem conjuncts_any {c : Term} {cs : List Term} :
    (⟨c :: cs, .any⟩ : Clause).conjuncts =
      if cs.isEmpty then [.one c] else [.any (c :: cs)] := by
  cases cs <;> rfl

theorem passes_all {ps : List Predicate} {cs : List Term}
    (h : List.Forall₂ Predicate.Renders ps cs) :
    t.Passes (⟨cs, .all⟩ : Clause).conjuncts r ↔ ∀ p ∈ ps, t.Satisfies p r := by
  rw [conjuncts_all]
  induction h with
  | nil => simp [Passes]
  | cons hp _ ih =>
    simp only [Passes, List.map_cons, List.forall_mem_cons, holdsConjunct_one_iff,
      hp.condition] at ih ⊢
    rw [ih]
    rfl

/-- Where a choice of conditions is true, one of them is. -/
theorem satisfies_of_passes_any {ps : List Predicate} {cs : List Term} (hne : ps ≠ [])
    (h : List.Forall₂ Predicate.Renders ps cs)
    (hr : t.Passes (⟨cs, .any⟩ : Clause).conjuncts r) : ∃ p ∈ ps, t.Satisfies p r := by
  have hterm : ∃ c ∈ cs, (Expression.ofTerm c).truth (t.scope r) = .ok (some true) := by
    cases h with
    | nil => exact absurd rfl hne
    | @cons p c ps cs hp hrest =>
      rw [conjuncts_any] at hr
      split at hr
      · refine ⟨c, by simp, ?_⟩
        rw [← holdsConjunct_one_iff]
        exact hr _ (by simp)
      · exact exists_of_holdsAny (hr (.any (c :: cs)) (by simp))
  obtain ⟨c, hc, htrue⟩ := hterm
  obtain ⟨p, hp, hrender⟩ := Predicate.exists_predicate h hc
  refine ⟨p, hp, ?_⟩
  rw [Satisfies, ← hrender.condition]
  exact htrue

/-- Where one of some conditions is true and none is refused, their choice is true. -/
theorem passes_any_of_satisfies {ps : List Predicate} {cs : List Term}
    (h : List.Forall₂ Predicate.Renders ps cs) (hs : Sure (t.scope r) cs) {p : Predicate}
    (hp : p ∈ ps) (htrue : t.Satisfies p r) : t.Passes (⟨cs, .any⟩ : Clause).conjuncts r := by
  obtain ⟨d, hd, hrender⟩ := Predicate.exists_term h hp
  have hterm : (Expression.ofTerm d).truth (t.scope r) = .ok (some true) := by
    rw [hrender.condition]
    exact htrue
  cases cs with
  | nil => simp at hd
  | cons c cs =>
    rw [conjuncts_any]
    intro k hk
    split at hk
    · next hempty =>
      have hsame : d = c := by simpa [List.isEmpty_iff.mp hempty] using hd
      subst hsame
      rw [List.mem_singleton.mp hk]
      exact holdsConjunct_one_iff.mpr hterm
    · rw [List.mem_singleton.mp hk]
      exact holdsAny_of_exists hs hd hterm

end Table

end LiveRecords
