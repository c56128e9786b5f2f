import LiveRecords.Proofs.Settling

/-!
# Hints and routes

Whatever route leads to rows, they are the rows in which the conjuncts are true. A
hint that a route uses is said by one of the conjuncts, so that no row is missed, and
a conjunct that is not tried is said by hints, so that no row is found that should not
be. The stem of a pattern says it only in part; it is of no use where no key ignores
case.
-/

namespace LiveRecords

open Table (Binding Cell Expression Refusal Row Scope)
open Table.Plan (Anchor Conjunct Fact Hint Question Route Source Stem)

namespace Table

variable {t : Table} {ks : List Conjunct} {r : Row} {s : Scope} {h : Hint} {k : Conjunct}
  {i : Nat}

/-! ## Choices between conditions -/

theorem eitherTrue_eq_true {a b : Option Bool} :
    eitherTrue a b = some true ↔ a = some true ∨ b = some true := by
  rcases a with _ | _ | _ <;> rcases b with _ | _ | _ <;> simp [eitherTrue, bothTrue]

theorem bothTrue_eq_true {a b : Option Bool} :
    bothTrue a b = some true ↔ a = some true ∧ b = some true := by
  rcases a with _ | _ | _ <;> rcases b with _ | _ | _ <;> simp [bothTrue]

theorem truth_or {e e' : Expression} {a b : Option Bool} (h : e.truth s = .ok a)
    (h' : e'.truth s = .ok b) : (Expression.binary .or e e').truth s = .ok (eitherTrue a b) := by
  obtain ⟨x, hx, rfl⟩ : ∃ x, e.eval s = .ok x ∧ x.truth = a := by
    cases hx : e.eval s with
    | error r => simp [Expression.truth, hx, Except.map] at h
    | ok x => exact ⟨x, rfl, by simpa [Expression.truth, hx, Except.map] using h⟩
  obtain ⟨y, hy, rfl⟩ : ∃ y, e'.eval s = .ok y ∧ y.truth = b := by
    cases hy : e'.eval s with
    | error r => simp [Expression.truth, hy, Except.map] at h'
    | ok y => exact ⟨y, rfl, by simpa [Expression.truth, hy, Except.map] using h'⟩
  simp only [Expression.truth, Expression.eval, hx, hy, BinaryOp.isDecided, BinaryOp.apply]
  split
  · next hdecided =>
    have htrue : x.truth = some true := by simpa using hdecided
    simp [Except.map, truth_ofTruth, htrue, eitherTrue_true]
  · simp [Except.map, truth_ofTruth]

/-- The condition that says one of some conditions is true if one is. -/
theorem truth_choice {cs : List Term} (hs : Sure s cs) {e : Expression} {b : Option Bool}
    (he : e.truth s = .ok b) :
    ∃ b', (cs.foldl (fun e c => .binary .or e (Expression.ofTerm c)) e).truth s = .ok b' ∧
      (b' = some true ↔
        b = some true ∨ ∃ c ∈ cs, (Expression.ofTerm c).truth s = .ok (some true)) := by
  induction cs generalizing e b with
  | nil => exact ⟨b, he, by simp⟩
  | cons c cs ih =>
    obtain ⟨d, hd⟩ := hs c (by simp)
    obtain ⟨b', hb', hiff⟩ := ih (fun c' hc' => hs c' (by simp [hc'])) (truth_or he hd)
    refine ⟨b', hb', ?_⟩
    rw [hiff, eitherTrue_eq_true, or_assoc, List.exists_mem_cons_iff, hd]
    simp

namespace Plan

/-! ## Hints -/

/-- Whether a hint comes from the stem of a pattern. -/
def Hint.IsStem (h : Hint) : Prop := h.bound = .stem ∨ h.bound = .stemEnd

theorem mem_hints : h ∈ hints t ks ↔ ∃ k i, (k, i) ∈ ks.zipIdx ∧ h ∈ hintsOfConjunct t i k := by
  simp only [hints, List.mem_append, List.mem_flatMap, List.mem_reverse, List.mem_map,
    List.mem_filter, Bool.not_eq_true']
  constructor
  · rintro (⟨hs, ⟨⟨k, i⟩, hk, rfl⟩, hmem, -⟩ | ⟨hs, ⟨⟨k, i⟩, hk, rfl⟩, hmem, -⟩)
    · exact ⟨k, i, hk, hmem⟩
    · exact ⟨k, i, hk, hmem⟩
  · rintro ⟨k, i, hk, hmem⟩
    cases hwhole : h.whole with
    | true => exact .inl ⟨_, ⟨(k, i), hk, rfl⟩, hmem, rfl⟩
    | false => exact .inr ⟨_, ⟨(k, i), hk, rfl⟩, hmem, rfl⟩

theorem mem_stemHints {p : Place} {c : Term} {v : Value} (hh : h ∈ stemHints t i p c v) :
    h.IsStem ∧ h.place = p ∧ h.collation = .noCase ∧
      (h.conjunct = some i ∨ h.conjunct = none) := by
  unfold stemHints at hh
  split at hh
  · simp at hh
  · next stem _ =>
    have hconjunct : (if stem.isAll = true then some i else none) = some i ∨
        (if stem.isAll = true then some i else none) = none := by
      split <;> simp
    simp only [List.mem_cons, List.not_mem_nil, or_false] at hh
    rcases hh with rfl | rfl
    · exact ⟨.inl rfl, rfl, rfl, hconjunct⟩
    · exact ⟨.inr rfl, rfl, rfl, hconjunct⟩

/-- All that a condition can give hints of. -/
theorem hintsOf_cases {c : Term} (hh : h ∈ hintsOf t i c) :
    ∃ p, t.place? c.column = some p ∧
      ((h.IsStem ∧ h.place = p ∧ h.collation = .noCase ∧
          (h.conjunct = some i ∨ h.conjunct = none)) ∨
        (¬h.IsStem ∧ h.conjunct = some i ∧
          (h.condition = Expression.ofTerm c ∨ ∃ n low lo high hi,
            c = .between n low lo high hi ∧
              (h.condition = Expression.ofTerm (.compare n .greaterOrEqual low lo) ∨
                h.condition = Expression.ofTerm (.compare n .lessOrEqual high hi))))) := by
  unfold hintsOf at hh
  split at hh
  · simp at hh
  next p hp =>
  refine ⟨p, hp, ?_⟩
  cases c with
  | compare n op param v =>
    cases op with
    | like => exact .inl (mem_stemHints hh)
    | notEquals => simp at hh
    | _ =>
      rw [List.mem_singleton.mp hh]
      exact .inr ⟨by simp [Hint.IsStem], rfl, .inl rfl⟩
  | between n low lo high hi =>
    right
    dsimp only at hh
    simp only [List.mem_cons, List.not_mem_nil, or_false] at hh
    rcases hh with rfl | rfl
    · exact ⟨by simp [Hint.IsStem], rfl, .inr ⟨n, low, lo, high, hi, rfl, .inl rfl⟩⟩
    · exact ⟨by simp [Hint.IsStem], rfl, .inr ⟨n, low, lo, high, hi, rfl, .inr rfl⟩⟩
  | isNull n =>
    dsimp only at hh
    split at hh
    · rw [List.mem_singleton.mp hh]
      exact .inr ⟨by simp [Hint.IsStem], rfl, .inl rfl⟩
    · simp at hh
  | isNotNull n =>
    dsimp only at hh
    split at hh
    · rw [List.mem_singleton.mp hh]
      exact .inr ⟨by simp [Hint.IsStem], rfl, .inl rfl⟩
    · simp at hh

/-- Conditions that all hold one place at a value each are not refused. -/
theorem sure_of_sharedPlace? {cs : List Term} {p : Place} (hp : sharedPlace? t cs = some p)
    (s : Scope) : Sure s cs := by
  intro c hc
  apply truth_ofTerm
  rintro column param v rfl
  unfold sharedPlace? at hp
  dsimp only at hp
  split at hp
  · next q qs hqs =>
    have hnone : none ∈ q :: qs := by
      rw [← hqs, List.mem_map]
      exact ⟨_, hc, rfl⟩
    split at hp
    · next hall =>
      subst hp
      rcases List.mem_cons.mp hnone with h | h
      · cases h
      · simpa using List.all_eq_true.mp hall _ h
    · cases hp
  · cases hp

/-- A choice gives a hint if all its conditions hold one place at a value each. -/
theorem mem_hintsOf_any {cs : List Term} (hh : h ∈ hintsOfConjunct t i (.any cs)) :
    ∃ p, sharedPlace? t cs = some p ∧
      h = ⟨some i, p, t.collationAt p, .among cs.length,
        cs.foldl (fun e c => .binary .or e (Expression.ofTerm c)) (.ofBool false), false⟩ := by
  cases hp : sharedPlace? t cs with
  | none => simp [hintsOfConjunct, hp] at hh
  | some p =>
    refine ⟨p, rfl, ?_⟩
    simpa [hintsOfConjunct, hp] using hh

/-- All that a conjunct can give hints of. -/
theorem conjunct_of_mem (hh : h ∈ hintsOfConjunct t i k) :
    h.conjunct = some i ∨ h.IsStem ∧ h.conjunct = none := by
  cases k with
  | one c =>
    obtain ⟨p, -, ⟨hstem, -, -, hc | hc⟩ | ⟨-, hc, -⟩⟩ := hintsOf_cases hh
    · exact .inl hc
    · exact .inr ⟨hstem, hc⟩
    · exact .inl hc
  | any cs =>
    obtain ⟨p, -, rfl⟩ := mem_hintsOf_any hh
    exact .inl rfl

end Plan

theorem meets_iff : t.meets r h = true ↔ h.condition.truth (t.scope r) = .ok (some true) := by
  unfold meets
  split
  · next b hb => simp [hb]
  · next e he => simp [he]

/-- A hint is met where the conjunct is true that gives it. -/
theorem meets_of_holds (hh : h ∈ Plan.hintsOfConjunct t i k) (hstem : ¬h.IsStem)
    (hk : holdsConjunct (t.scope r) k = .ok true) : t.meets r h = true := by
  rw [meets_iff]
  cases k with
  | one c =>
    have htrue := holdsConjunct_one_iff.mp hk
    obtain ⟨p, -, ⟨h', -⟩ | ⟨-, -, hcond | ⟨n, low, lo, high, hi, rfl, hcond⟩⟩⟩ :=
      Plan.hintsOf_cases hh
    · exact absurd h' hstem
    · rw [hcond]
      exact htrue
    · simp only [Expression.ofTerm, truth_between, Except.ok.injEq, bothTrue_eq_true] at htrue
      rcases hcond with hcond | hcond
      · rw [hcond]
        simp only [Expression.ofTerm, truth_compare]
        rw [htrue.1]
      · rw [hcond]
        simp only [Expression.ofTerm, truth_compare]
        rw [htrue.2]
  | any cs =>
    obtain ⟨p, hp, rfl⟩ := Plan.mem_hintsOf_any hh
    have hfalse : (Expression.ofBool false).truth (t.scope r) = .ok (some false) := rfl
    obtain ⟨b, hb, hiff⟩ := truth_choice (Plan.sure_of_sharedPlace? hp (t.scope r)) hfalse
    have hchoice : b = some true := hiff.mpr (.inr (exists_of_holdsAny hk))
    rw [← hchoice]
    exact hb

/-- A conjunct is true where all hints are met that say it, if there are any. -/
theorem holds_of_meets (hsome : ∃ h ∈ Plan.hintsOfConjunct t i k, h.conjunct = some i)
    (hall : ∀ h ∈ Plan.hintsOfConjunct t i k, h.conjunct = some i →
      ¬h.IsStem ∧ t.meets r h = true) :
    holdsConjunct (t.scope r) k = .ok true := by
  obtain ⟨h, hh, hi⟩ := hsome
  obtain ⟨hstem, hmeets⟩ := hall h hh hi
  rw [meets_iff] at hmeets
  cases k with
  | one c =>
    rw [holdsConjunct_one_iff]
    obtain ⟨p, hp, ⟨h', -⟩ | ⟨-, -, hcond | ⟨n, low, lo, high, hi', rfl, hcond⟩⟩⟩ :=
      Plan.hintsOf_cases hh
    · exact absurd h' hstem
    · rw [← hcond]
      exact hmeets
    · -- Both bounds are given as hints, whichever of them was picked.
      have hbounds : ∀ c, c = Term.compare n .greaterOrEqual low lo ∨
          c = Term.compare n .lessOrEqual high hi' →
          (Expression.ofTerm c).truth (t.scope r) = .ok (some true) := by
        rintro c (rfl | rfl)
        · have hmem : (⟨some i, p, t.collationAt p, .above,
              Expression.ofTerm (.compare n .greaterOrEqual low lo), false⟩ : Hint) ∈
              Plan.hintsOfConjunct t i (.one (.between n low lo high hi')) := by
            simp [Plan.hintsOfConjunct, Plan.hintsOf, hp]
          exact meets_iff.mp (hall _ hmem rfl).2
        · have hmem : (⟨some i, p, t.collationAt p, .below,
              Expression.ofTerm (.compare n .lessOrEqual high hi'), false⟩ : Hint) ∈
              Plan.hintsOfConjunct t i (.one (.between n low lo high hi')) := by
            simp [Plan.hintsOfConjunct, Plan.hintsOf, hp]
          exact meets_iff.mp (hall _ hmem rfl).2
      have habove := hbounds _ (.inl rfl)
      have hbelow := hbounds _ (.inr rfl)
      simp only [Expression.ofTerm, truth_compare, Except.ok.injEq] at habove hbelow
      simp only [Expression.ofTerm, truth_between, Except.ok.injEq, bothTrue_eq_true]
      exact ⟨habove, hbelow⟩
  | any cs =>
    obtain ⟨p, hp, rfl⟩ := Plan.mem_hintsOf_any hh
    have hsure := Plan.sure_of_sharedPlace? hp (t.scope r)
    have hfalse : (Expression.ofBool false).truth (t.scope r) = .ok (some false) := rfl
    obtain ⟨b, hb, hiff⟩ := truth_choice hsure hfalse
    rw [hb, Except.ok.injEq, hiff] at hmeets
    obtain ⟨c, hc, htrue⟩ := hmeets.resolve_left (by simp)
    exact holdsAny_of_exists hsure hc htrue

/-! ## Routes -/

namespace Plan

variable {q : Question} {p : Route}

/-- The parts of the rows by their numbers and of the indexes in question. -/
def Question.HasPart (q : Question) (part : Place × Collation) : Prop :=
  part ∈ numbers.parts ∨ ∃ ix ∈ q.indexes, part ∈ ix.parts

/-- A question about conjuncts of which no stem bears on a part of an index. -/
structure Question.About (q : Question) (t : Table) (ks : List Conjunct) (as : List Anchor) :
    Prop where
  table : q.table = t
  hints : q.hints = Plan.hints t ks
  facts : q.facts = ks.zipIdx.map fun (k, i) => factOf t as i k
  unstemmed : ∀ h ∈ q.hints, h.IsStem → ∀ part, q.HasPart part → h.bears part = false

/-- A route uses hints that there are, and none that comes from a stem. -/
def Route.Stemless (q : Question) (p : Route) : Prop :=
  ∀ u ∈ p.used, ∃ h, q.hints[u]? = some h ∧ ¬h.IsStem

theorem Route.Stemless.grow {p' : Route} {u : Nat} (hp : p.Stemless q)
    (hu : q.hints[u]? = some h) (hstem : ¬h.IsStem)
    (hused : ∀ v ∈ p'.used, v ∈ p.used ∨ v = u) : p'.Stemless q := by
  intro v hv
  rcases hused v hv with hv | rfl
  · exact hp v hv
  · exact ⟨h, hu, hstem⟩

/-- Where no stem bears on an index, a route goes on along it without stems. -/
theorem Route.Stemless.goesOn {p' : Route} {as : List Anchor} (hq : q.About t ks as) {ix : Index}
    (hix : ∀ part ∈ ix.parts, q.HasPart part) (hp : p.Stemless q) (h : q.GoesOn ix p p') :
    p'.Stemless q := by
  have hgrow : ∀ {u hint}, q.Offers ix p u hint → (∀ v ∈ p'.used, v ∈ p.used ∨ v = u) →
      p'.Stemless q := by
    intro u hint hoffers hused
    obtain ⟨part, hpart, hbears⟩ := hoffers.bears
    refine hp.grow hoffers.hint (fun hstem => ?_) hused
    rw [hq.unstemmed hint (List.mem_of_getElem? hoffers.hint) hstem part
      (hix part (List.mem_of_getElem? hpart))] at hbears
    cases hbears
  cases h with
  | hold single hoffers =>
    refine hgrow hoffers fun v hv => ?_
    simp only [Route.used, List.mem_append, List.mem_singleton] at hv ⊢
    tauto
  | low hoffers =>
    refine hgrow hoffers fun v hv => ?_
    simp only [Route.used, List.mem_append, Option.toList_some, List.mem_singleton,
      Option.toList_none, List.not_mem_nil, or_false] at hv ⊢
    tauto
  | high hoffers =>
    refine hgrow hoffers fun v hv => ?_
    simp only [Route.used, List.mem_append, Option.toList_some, List.mem_singleton] at hv ⊢
    tauto
  | stem hoffers hbound =>
    obtain ⟨part, hpart, hbears⟩ := hoffers.bears
    rw [hq.unstemmed _ (List.mem_of_getElem? hoffers.hint) (.inl hbound) part
      (hix part (List.mem_of_getElem? hpart))] at hbears
    cases hbears

theorem stemless_extend {as : List Anchor} (hq : q.About t ks as) {ix : Index}
    (hix : ∀ part ∈ ix.parts, q.HasPart part) {fuel : Nat} {count times : Magnitude} {s : Route}
    (hp : p.Stemless q) (h : s ∈ q.extend ix fuel p count times) : s.Stemless q :=
  Question.extend_induction id (fun ho hgoes => ho.goesOn hq hix hgoes) hp h

theorem stemless_scanIndex {ix : Index} {helps : Bool} {s : Route} (hp : p.Stemless q)
    (h : s ∈ q.scanIndex p ix helps) : s.Stemless q := by
  unfold Question.scanIndex at h
  split at h
  · rw [List.mem_singleton.mp h]
    exact hp
  · simp at h

theorem stemless_routes {as : List Anchor} (hq : q.About t ks as) :
    ∀ p ∈ q.routes, p.Stemless q := by
  have hnone : ∀ p : Route, p.used = [] → p.Stemless q := by
    intro p hp u hu
    simp [hp] at hu
  intro p hp
  simp only [Question.routes, List.mem_append, List.mem_cons, List.mem_flatMap] at hp
  rcases hp with (rfl | hp) | ⟨⟨ix, i⟩, hix, hp | hp⟩
  · exact hnone _ rfl
  · exact stemless_extend hq (fun part hpart => .inl hpart) (hnone _ rfl) hp
  · exact stemless_scanIndex (hnone _ rfl) hp
  · have hmem : ix ∈ q.indexes := List.fst_mem_of_mem_zipIdx hix
    exact stemless_extend hq (fun part hpart => .inr ⟨ix, hmem, hpart⟩) (hnone _ rfl) hp

theorem stemless_gather {ps : List Route} (h : ∀ p ∈ ps, p.Stemless q) :
    ∀ p ∈ Route.gather ps, p.Stemless q := by
  intro p hp
  obtain ⟨o, ho, cost, count, rfl⟩ := Route.mem_gather hp
  exact h o ho

/-- Of what is found for all of some things, each is found for one of them. -/
theorem exists_of_mapM {α β : Type} {f : α → Option β} {as : List α} {bs : List β}
    (h : as.mapM f = some bs) {b : β} (hb : b ∈ bs) : ∃ a ∈ as, f a = some b := by
  induction as generalizing bs with
  | nil =>
    cases h
    simp at hb
  | cons a as ih =>
    simp only [List.mapM_cons, Option.bind_eq_bind, Option.bind_eq_some_iff,
      Option.pure_def, Option.some.injEq] at h
    obtain ⟨c, hc, cs, hcs, rfl⟩ := h
    rcases List.mem_cons.mp hb with rfl | hb
    · exact ⟨a, by simp, hc⟩
    · obtain ⟨a', ha', hfound⟩ := ih hcs hb
      exact ⟨a', List.mem_cons_of_mem _ ha', hfound⟩

theorem stemless_of_equal {part : Place × Collation} {u : Nat}
    (hu : (q.hints.zipIdx.find? fun (h, _) => h.bound == .equal && h.bears part).map (·.2) =
      some u) : ∃ h, q.hints[u]? = some h ∧ ¬h.IsStem := by
  obtain ⟨⟨hint, v⟩, hfind, rfl⟩ := Option.map_eq_some_iff.mp hu
  have hbound := List.find?_some hfind
  simp only [Bool.and_eq_true, beq_iff_eq] at hbound
  refine ⟨hint, List.mem_zipIdx_iff_getElem?.mp (List.mem_of_find?_eq_some hfind), ?_⟩
  simp [Hint.IsStem, hbound.1]

theorem stemless_shortCut? (h : q.shortCut? = some p) : p.Stemless q := by
  unfold Question.shortCut? at h
  dsimp only at h
  split at h
  · next u hu =>
    cases h
    intro v hv
    have hvu : v = u := by simpa [Route.used] using hv
    rw [hvu]
    exact stemless_of_equal hu
  · obtain ⟨⟨ix, i⟩, -, h⟩ := List.exists_of_findSome?_eq_some h
    obtain ⟨held, hheld, rfl⟩ := Option.map_eq_some_iff.mp h
    intro v hv
    have hmem : v ∈ held := by simpa [Route.used] using hv
    obtain ⟨part, -, hpart⟩ := exists_of_mapM hheld hmem
    exact stemless_of_equal hpart

/-! ## Rows that a route finds -/

theorem isSaid_iff : isSaid q p i = true ↔
    (∃ h ∈ q.hints, h.conjunct = some i) ∧
      ∀ u h, q.hints[u]? = some h → h.conjunct = some i → u ∈ p.used := by
  have hmem : ∀ h u, (h, u) ∈ q.hints.zipIdx ↔ q.hints[u]? = some h := fun h u =>
    List.mem_zipIdx_iff_getElem?
  simp only [isSaid, Bool.and_eq_true, Bool.not_eq_true', List.isEmpty_eq_false_iff,
    List.all_eq_true, List.contains_iff_mem, List.mem_filter, beq_iff_eq, Prod.forall, hmem]
  constructor
  · rintro ⟨hsome, hall⟩
    obtain ⟨⟨h, u⟩, hown⟩ := List.exists_mem_of_ne_nil _ hsome
    rw [List.mem_filter, hmem] at hown
    refine ⟨⟨h, List.mem_of_getElem? hown.1, by simpa using hown.2⟩, ?_⟩
    intro u h hu hi
    exact hall h u ⟨hu, hi⟩
  · rintro ⟨⟨h, hh, hi⟩, hall⟩
    obtain ⟨u, hu⟩ := List.mem_iff_getElem?.mp hh
    constructor
    · apply List.ne_nil_of_mem (a := (h, u))
      rw [List.mem_filter, hmem]
      exact ⟨hu, by simpa using hi⟩
    · rintro h u ⟨hu, hi⟩
      exact hall u h hu hi

theorem mem_rowsOf : r ∈ rowsOf q p ↔
    r ∈ q.table.rows ∧ ∀ u ∈ p.used, ∀ h, q.hints[u]? = some h → q.table.meets r h = true := by
  have hfound : r ∈ rowsOf q p ↔ r ∈ q.table.rows.filter fun row =>
      (p.used.filterMap fun u => q.hints[u]?).all (q.table.meets row) := by
    unfold rowsOf
    dsimp only
    split
    · rfl
    · rfl
    · exact (ordered_perm _ _).mem_iff
  rw [hfound, List.mem_filter, List.all_eq_true]
  simp only [List.mem_filterMap]
  constructor
  · rintro ⟨hr, hall⟩
    exact ⟨hr, fun u hu h hh => hall h ⟨u, hu, hh⟩⟩
  · rintro ⟨hr, hall⟩
    refine ⟨hr, ?_⟩
    rintro h ⟨u, hu, hh⟩
    exact hall u hu h hh

/-- The conjuncts, with their facts, that are not settled and that no hints say. -/
theorem mem_left {e : Conjunct × Fact} :
    e ∈ ((ks.zip q.facts).zipIdx.filterMap fun ((k, f), i) =>
      if f.settled || isSaid q p i then none else some (k, f)) ↔
      ∃ i, (e, i) ∈ (ks.zip q.facts).zipIdx ∧ e.2.settled = false ∧ isSaid q p i = false := by
  rw [List.mem_filterMap]
  constructor
  · rintro ⟨⟨⟨k, f⟩, i⟩, hmem, h⟩
    dsimp only at h
    split at h
    · cases h
    next htried =>
    cases h
    rw [Bool.or_eq_true, not_or, Bool.not_eq_true, Bool.not_eq_true] at htried
    exact ⟨i, hmem, htried⟩
  · rintro ⟨i, hmem, hsettled, hsaid⟩
    exact ⟨(e, i), hmem, by simp [hsettled, hsaid]⟩

theorem mem_map_left {es : List (Conjunct × Fact)} (h : ∀ e, e ∈ es ↔
      ∃ i, (e, i) ∈ (ks.zip q.facts).zipIdx ∧ e.2.settled = false ∧ isSaid q p i = false) :
    k ∈ es.map (·.1) ↔ ∃ f i, ((k, f), i) ∈ (ks.zip q.facts).zipIdx ∧ f.settled = false ∧
      isSaid q p i = false := by
  rw [List.mem_map]
  constructor
  · rintro ⟨⟨k, f⟩, he, rfl⟩
    exact ⟨f, (h _).mp he⟩
  · rintro ⟨f, hf⟩
    exact ⟨(k, f), (h _).mpr hf, rfl⟩

/-- Whichever conjuncts are tried first, they are those that are left. -/
theorem mem_remaining_iff (hp : p.IsSimple) : k ∈ remaining q p ks ↔
    ∃ f i, ((k, f), i) ∈ (ks.zip q.facts).zipIdx ∧ f.settled = false ∧ isSaid q p i = false := by
  unfold remaining
  dsimp only
  split
  · exact mem_map_left fun e => mem_left
  · next hunion => exact absurd hunion hp
  · rw [← List.map_append]
    apply mem_map_left
    intro e
    rw [List.mem_append, List.mem_filter, List.mem_filter, mem_left]
    cases e.2.places.all (q.index p.source).holds <;> simp

theorem mem_zipIdx_facts {as : List Anchor} (hq : q.About t ks as) {f : Fact} {i : Nat} :
    ((k, f), i) ∈ (ks.zip q.facts).zipIdx ↔ (k, i) ∈ ks.zipIdx ∧ f = factOf t as i k := by
  simp only [List.mem_zipIdx_iff_getElem?, hq.facts, List.getElem?_zip_eq_some,
    List.getElem?_map, List.getElem?_zipIdx]
  constructor
  · rintro ⟨hk, hf⟩
    refine ⟨hk, ?_⟩
    simp only [hk, Option.map_some, Option.some.injEq] at hf
    simpa using hf.symm
  · rintro ⟨hk, rfl⟩
    exact ⟨hk, by simp [hk]⟩

/-- The conjuncts that are tried are those that are not settled and that no hints say. -/
theorem mem_remaining {as : List Anchor} (hq : q.About t ks as) (hp : p.IsSimple) :
    k ∈ remaining q p ks ↔ ∃ i, (k, i) ∈ ks.zipIdx ∧ (factOf t as i k).settled = false ∧
      isSaid q p i = false := by
  rw [mem_remaining_iff hp]
  constructor
  · rintro ⟨f, i, hmem, hf⟩
    obtain ⟨hk, rfl⟩ := (mem_zipIdx_facts hq).mp hmem
    exact ⟨i, hk, hf⟩
  · rintro ⟨i, hk, hf⟩
    exact ⟨_, i, (mem_zipIdx_facts hq).mpr ⟨hk, rfl⟩, hf⟩

/-- In a row that a route finds, every conjunct is true that is not settled before. -/
theorem holds_of_found {as : List Anchor} (hq : q.About t ks as) (hp : p.IsSimple)
    (hstem : p.Stemless q) (hr : r ∈ rowsOf q p)
    (hall : holdsAll (t.scope r) (remaining q p ks) = .ok true) (hk : (k, i) ∈ ks.zipIdx)
    (hopen : (factOf t as i k).settled = false) : holdsConjunct (t.scope r) k = .ok true := by
  cases hsaid : isSaid q p i with
  | false => exact holdsAll_iff.mp hall k ((mem_remaining hq hp).mpr ⟨i, hk, hopen, hsaid⟩)
  | true =>
    obtain ⟨⟨h, hh, hi⟩, hused⟩ := isSaid_iff.mp hsaid
    refine holds_of_meets (i := i) ?_ ?_
    · rw [hq.hints, mem_hints] at hh
      obtain ⟨k', j, hk', hmem⟩ := hh
      have hij : j = i := by
        rcases conjunct_of_mem hmem with hj | ⟨-, hj⟩
        · rw [hj] at hi
          exact Option.some.inj hi
        · rw [hj] at hi
          cases hi
      subst hij
      rw [eq_of_mem_zipIdx hk hk']
      exact ⟨h, hmem, hi⟩
    · intro h' hmem hi'
      have hin : h' ∈ q.hints := by
        rw [hq.hints, mem_hints]
        exact ⟨k, i, hk, hmem⟩
      obtain ⟨u, hu⟩ := List.mem_iff_getElem?.mp hin
      have hu' := hused u h' hu hi'
      constructor
      · obtain ⟨h'', hget, hno⟩ := hstem u hu'
        rw [hu, Option.some.injEq] at hget
        rw [hget]
        exact hno
      · have hmeets := (mem_rowsOf.mp hr).2 u hu' h' hu
        rw [hq.table] at hmeets
        exact hmeets

/-- Every route finds the rows in which all conjuncts are true. -/
theorem found_of_passes {as : List Anchor} (hq : q.About t ks as) (hp : p.IsSimple)
    (hstem : p.Stemless q) (hr : r ∈ t.rows) (hpasses : t.Passes ks r) :
    r ∈ rowsOf q p ∧ holdsAll (t.scope r) (remaining q p ks) = .ok true := by
  constructor
  · rw [mem_rowsOf, hq.table]
    refine ⟨hr, ?_⟩
    intro u hu h hget
    obtain ⟨h', hget', hno⟩ := hstem u hu
    rw [hget, Option.some.injEq] at hget'
    subst hget'
    have hmem := List.mem_of_getElem? hget
    rw [hq.hints, mem_hints] at hmem
    obtain ⟨k, i, hk, hmem⟩ := hmem
    exact meets_of_holds hmem hno (hpasses k (List.fst_mem_of_mem_zipIdx hk))
  · rw [holdsAll_iff]
    intro k hk
    obtain ⟨i, hk, -⟩ := (mem_remaining hq hp).mp hk
    exact hpasses k (List.fst_mem_of_mem_zipIdx hk)

/-! ## Questions about conjuncts -/

/-- The conditions of a conjunct. -/
def Conjunct.terms : Conjunct → List Term
  | .one c => [c]
  | .any cs => cs

end Plan

/-- No key of the table ignores case. -/
def Plain (t : Table) : Prop := ∀ k ∈ t.keys, ∀ part ∈ k.parts, part.2 ≠ .noCase

/-- No condition is about the number of a row. -/
def Unnumbered (t : Table) (cs : List Term) : Prop := ∀ c ∈ cs, t.place? c.column ≠ some .number

namespace Plan

variable {q : Question} {p : Route}

theorem mem_parts {ix : Index} (hix : ix ∈ indexesOf t) {part : Place × Collation}
    (hpart : part ∈ ix.parts) :
    part = (.number, .binary) ∨ ∃ key ∈ t.keys, ∃ e ∈ key.parts, e.2 = part.2 := by
  obtain ⟨key, hkey, rfl⟩ := List.mem_map.mp hix
  rcases List.mem_append.mp hpart with hpart | hpart
  · right
    obtain ⟨⟨i, collation⟩, hcolumn, rfl⟩ := List.mem_map.mp hpart
    obtain ⟨⟨name, collation'⟩, he, hindex⟩ := List.mem_filterMap.mp hcolumn
    obtain ⟨j, -, hpair⟩ := Option.map_eq_some_iff.mp hindex
    cases hpair
    refine ⟨key, ?_, _, he, rfl⟩
    simp only [keysInOrder, List.mem_append, List.mem_filter, List.mem_reverse] at hkey
    rcases hkey with hkey | hkey
    · exact hkey.1
    · exact hkey.1
  · exact .inl (List.mem_singleton.mp hpart)

/-- Where no key ignores case, no stem bears on a part of an index. -/
theorem Question.about_of {as : List Anchor} (ht : t.Plain)
    (hks : ∀ k ∈ ks, t.Unnumbered k.terms) (htable : q.table = t)
    (hindexes : q.indexes = indexesOf t) (hhints : q.hints = Plan.hints t ks)
    (hfacts : q.facts = ks.zipIdx.map fun (k, i) => factOf t as i k) : q.About t ks as where
  table := htable
  hints := hhints
  facts := hfacts
  unstemmed := by
    intro h hh hstem part hpart
    rw [hhints, mem_hints] at hh
    obtain ⟨k, i, hk, hmem⟩ := hh
    have hcolumn : h.place ≠ .number ∧ h.collation = .noCase := by
      cases k with
      | one c =>
        obtain ⟨p, hp, ⟨-, rfl, hcollation, -⟩ | ⟨hno, -⟩⟩ := hintsOf_cases hmem
        · have hc := hks _ (List.fst_mem_of_mem_zipIdx hk) c (by simp [Conjunct.terms])
          rw [hp] at hc
          exact ⟨by simpa using hc, hcollation⟩
        · exact absurd hstem hno
      | any cs =>
        obtain ⟨p, -, rfl⟩ := mem_hintsOf_any hmem
        rcases hstem with hstem | hstem <;> cases hstem
    have hnull : (h.bound == .null) = false := by
      rcases hstem with hstem | hstem <;> rw [hstem] <;> rfl
    have hparts : part = (.number, .binary) ∨ part.2 ≠ .noCase := by
      rcases hpart with hpart | ⟨ix, hix, hpart⟩
      · exact .inl (List.mem_singleton.mp hpart)
      · rw [hindexes] at hix
        rcases mem_parts hix hpart with hnumber | ⟨key, hkey, e, he, hcollation⟩
        · exact .inl hnumber
        · right
          rw [← hcollation]
          exact ht key hkey e he
    unfold Hint.bears
    rw [hnull, hcolumn.2]
    rcases hparts with rfl | hcollation
    · simp [hcolumn.1]
    · by_cases hplace : h.place = part.1
      · have hnumber : (part.1 == .number) = false := by
          rw [← hplace]
          simpa using hcolumn.1
        rw [hnumber]
        simp [hcollation]
      · simp [hplace]

theorem about_question (ht : t.Plain) (hks : ∀ k ∈ ks, t.Unnumbered k.terms)
    (columns : List Nat) : (t.question ks columns).About t ks (anchors t ks) :=
  Question.about_of ht hks rfl rfl rfl rfl

theorem about_subQuestion (ht : t.Plain) (htable : q.table = t)
    (hindexes : q.indexes = indexesOf t) {c : Term} (hc : t.Unnumbered [c]) :
    (subQuestion q c).About t [.one c] [] := by
  apply Question.about_of ht
  · intro k hk
    rw [List.mem_singleton.mp hk]
    exact hc
  · exact htable
  · exact hindexes
  · simp [subQuestion, htable]
  · simp [subQuestion, htable]

/-! ## Routes for a choice -/

theorem exists_of_leastCost {ps : List Route} {least : Magnitude × Magnitude}
    (h : leastCost ps = some least) : ∃ p ∈ ps, p.used ≠ [] := by
  unfold leastCost at h
  cases hps : ps.filter (!·.used.isEmpty) with
  | nil => simp [hps] at h
  | cons p rest =>
    have hp : p ∈ ps.filter (!·.used.isEmpty) := by simp [hps]
    obtain ⟨hmem, hused⟩ := List.mem_filter.mp hp
    exact ⟨p, hmem, by simpa using hused⟩

/-- A choice is looked up part by part only if each condition can use an index. -/
theorem unionRoute?_eq_some {cs : List Term} (h : unionRoute? q cs = some p) :
    p.source = .union ∧ p.single = false ∧
      ∀ c ∈ cs, ∃ o ∈ (subQuestion q c).routes, o.used ≠ [] := by
  unfold unionRoute? at h
  obtain ⟨parts, hparts, h⟩ := Option.bind_eq_some_iff.mp h
  have hall : ∀ {cs : List Term} {parts : List (Magnitude × Magnitude)},
      (cs.mapM fun c => if (hintsOf q.table 0 c).isEmpty then none
        else leastCost (subQuestion q c).routes) = some parts →
      ∀ c ∈ cs, ∃ o ∈ (subQuestion q c).routes, o.used ≠ [] := by
    intro cs
    induction cs with
    | nil => simp
    | cons c cs ih =>
      intro parts hparts d hd
      simp only [List.mapM_cons, Option.bind_eq_bind, Option.bind_eq_some_iff] at hparts
      obtain ⟨least, hleast, rest, hrest, -⟩ := hparts
      rcases List.mem_cons.mp hd with rfl | hd
      · split at hleast
        · cases hleast
        · exact exists_of_leastCost hleast
      · exact ih hrest d hd
  split at h
  · cases h
  · cases h
    exact ⟨rfl, rfl, hall hparts⟩

/-- A route goes along the rows or one index, or looks a choice up part by part. -/
theorem route_cases {as : List Anchor} (hq : q.About t ks as) (columns : Nat) :
    ((route q columns ks).IsSimple ∧ (route q columns ks).Stemless q) ∨
      ((route q columns ks).source = .union ∧ (route q columns ks).single = false ∧
        ∃ cs, .any cs ∈ ks ∧ ∀ c ∈ cs, ∃ o ∈ (subQuestion q c).routes, o.used ≠ []) := by
  unfold route
  split
  · next p hp => exact .inl ⟨Question.simple_shortCut? hp, stemless_shortCut? hp⟩
  · dsimp only
    generalize hunions : List.filterMap _ ks = unions
    cases hp : q.choice columns (Route.gather (q.routes ++ unions)) with
    | none =>
      left
      constructor
      · simp [Route.IsSimple]
      · intro u hu
        simp [Route.used] at hu
    | some p =>
      obtain ⟨o, ho, cost, count, rfl⟩ := Route.mem_gather (Question.mem_choice hp)
      rcases List.mem_append.mp ho with ho | ho
      · exact .inl ⟨Question.simple_routes q o ho, stemless_routes hq o ho⟩
      · rw [← hunions] at ho
        obtain ⟨k, hk, hunion⟩ := List.mem_filterMap.mp ho
        cases k with
        | one c => cases hunion
        | any cs =>
          obtain ⟨hsource, hsingle, hall⟩ := unionRoute?_eq_some hunion
          exact .inr ⟨hsource, hsingle, cs, hk, hall⟩

theorem subRoute_cases {c : Term} {as : List Anchor}
    (hq : (subQuestion q c).About t [.one c] as) :
    (subRoute q c).IsSimple ∧ (subRoute q c).Stemless (subQuestion q c) := by
  unfold subRoute
  dsimp only
  cases hp : Question.firstChoice (Route.gather (subQuestion q c).routes) with
  | none =>
    constructor
    · simp [Route.IsSimple]
    · intro u hu
      simp [Route.used] at hu
  | some p =>
    have hmem := Question.mem_cheapest hp
    exact ⟨Route.simple_gather (Question.simple_routes _) p hmem,
      stemless_gather (stemless_routes hq) p hmem⟩

end Plan

end Table

end LiveRecords
