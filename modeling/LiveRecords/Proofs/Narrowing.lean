import LiveRecords.Proofs.Combining

/-!
# Filters with one predicate more

One predicate more on a filter that asks for all of them adds no rows, and one more on
a filter that asks for some takes none away, unless that filter had none: then it gave
every row.
-/

namespace LiveRecords

open Table (Row)

/-! ## Conditions with more after them -/

namespace Filter

variable {f : Filter} {p : Predicate} {k k' : Clause}

/-- The conditions for the first predicates do not depend on those after them. -/
theorem terms_append {used : List String} {ps qs : List Predicate} {cs : List Term}
    (h : terms used (ps ++ qs) = .ok cs) :
    ∃ ds es, terms used ps = .ok ds ∧ cs = ds ++ es := by
  induction ps generalizing used cs with
  | nil => exact ⟨[], cs, rfl, rfl⟩
  | cons p ps ih =>
    rw [List.cons_append, terms] at h
    split at h
    · cases h
    next c named hterm =>
    split at h
    · cases h
    next rest hrest =>
    cases h
    obtain ⟨ds, es, hds, rfl⟩ := ih hrest
    exact ⟨c :: ds, es, by simp [terms, hterm, hds], rfl⟩

/-- The conditions of a filter come first in that of a longer one. -/
theorem clause_push (hk : f.clause = .ok k) (hk' : (f.push p).clause = .ok k') :
    ∃ es, k' = ⟨k.terms ++ es, k.join⟩ := by
  unfold clause at hk hk'
  split at hk'
  · next cs hcs =>
    obtain ⟨ds, es, hds, rfl⟩ := terms_append hcs
    rw [hds] at hk
    cases hk
    cases hk'
    exact ⟨es, rfl⟩
  · cases hk'

end Filter

namespace Table

variable {t : Table} {k : Clause} {r : Row} {cs es : List Term}

theorem passes_any_iff {c : Term} :
    t.Passes (⟨c :: cs, .any⟩ : Clause).conjuncts r ↔
      holdsAny (t.scope r) (c :: cs) = .ok true := by
  cases cs with
  | nil =>
    have hone : (⟨[c], .any⟩ : Clause).conjuncts = [.one c] := rfl
    rw [hone, Passes, List.forall_mem_singleton, holdsConjunct_one_iff]
    cases h : (Expression.ofTerm c).truth (t.scope r) with
    | error e => simp [holdsAny, h, bind, Except.bind]
    | ok b =>
      by_cases hb : b = some true
      · simp [holdsAny, h, hb, bind, Except.bind, pure, Except.pure]
      · simp [holdsAny, h, hb, bind, Except.bind]
  | cons d cs =>
    have hany : (⟨c :: d :: cs, .any⟩ : Clause).conjuncts = [.any (c :: d :: cs)] := rfl
    rw [hany, Passes, List.forall_mem_singleton]
    rfl

/-- A choice of conditions stays true with more of them. -/
theorem passes_any_append (hne : cs ≠ []) (h : t.Passes (⟨cs, .any⟩ : Clause).conjuncts r) :
    t.Passes (⟨cs ++ es, .any⟩ : Clause).conjuncts r := by
  cases cs with
  | nil => exact absurd rfl hne
  | cons c cs =>
    rw [passes_any_iff] at h
    rw [List.cons_append, passes_any_iff]
    exact holdsAny_append h

theorem passes_of_all_append (h : t.Passes (⟨cs ++ es, .all⟩ : Clause).conjuncts r) :
    t.Passes (⟨cs, .all⟩ : Clause).conjuncts r := by
  intro c hc
  rw [conjuncts_all] at hc
  apply h c
  rw [conjuncts_all, List.map_append]
  exact List.mem_append_left _ hc

/-- One condition alone is not both a value that is asked for and a pattern. -/
theorem sharp_any (h : k.join = .any) : t.Sharp k.conjuncts r := by
  intro c param v d param' u hc hd _
  obtain ⟨-, hterms⟩ := one_mem_conjuncts hc
  obtain ⟨hmem, -⟩ := one_mem_conjuncts hd
  rw [hterms h] at hmem
  cases List.mem_singleton.mp hmem

theorem sharp_of_all_append (h : t.Sharp (⟨cs ++ es, .all⟩ : Clause).conjuncts r) :
    t.Sharp (⟨cs, .all⟩ : Clause).conjuncts r := by
  intro c param v d param' u hc hd
  rw [conjuncts_all] at hc hd
  apply h c param v d param' u
  · rw [conjuncts_all, List.map_append]
    exact List.mem_append_left _ hc
  · rw [conjuncts_all, List.map_append]
    exact List.mem_append_left _ hd

end Table

/-! ## Rows with one predicate more -/

namespace Link

variable {l : Link} {s : Schema} {f g : Filter} {t : Table} {p : Predicate}
  {xs ys : List RowImage}

/-- A filter gives no row that another one does not give. -/
def Within (l : Link) (s : Schema) (f g : Filter) : Prop :=
  ∀ {xs ys}, (l.selectWhere s f).1 = .ok xs → (l.selectWhere s g).1 = .ok ys → xs ⊆ ys

theorem Gives.mem_images {k : Clause} {rows : List Row} (h : Gives s f t k rows xs)
    {x : RowImage} : x ∈ xs ↔ ∃ r ∈ rows, RowImage.ofRow s t r = .ok x := by
  rw [← RowImage.images_eq h.read, RowImage.mem_images]

/-- A filter gives no more rows than one that has the same rows pass or more. -/
theorem Gives.subset {k k' : Clause} {rows rows' : List Row} (h : Gives s f t k rows xs)
    (h' : Gives s g t k' rows' ys)
    (hrows : ∀ r ∈ t.rows, t.Sharp k.conjuncts r ∧ t.Sharp k'.conjuncts r ∧
      (t.Passes k.conjuncts r → t.Passes k'.conjuncts r)) : xs ⊆ ys := by
  intro x hx
  obtain ⟨r, hr, hrx⟩ := h.mem_images.mp hx
  have hmem := h.picks.mem r hr
  obtain ⟨hsharp, hsharp', hpasses⟩ := hrows r hmem
  apply h'.mem_images.mpr
  exact ⟨r, (h'.mem hsharp').mpr ⟨hmem, hpasses ((h.mem hsharp).mp hr).2⟩, hrx⟩

/-- One predicate more takes no row away from those that satisfy some of them. -/
theorem within_push (ht : l.database.table? s.table = some t) (hkeeps : t.Keeps s)
    (hjoin : f.join = .any) (hne : f.predicates ≠ []) : l.Within s f (f.push p) := by
  intro xs ys hx hy
  obtain ⟨⟨cs, j⟩, rows, h⟩ := gives_of_selectWhere ht hkeeps hx
  obtain ⟨k', rows', h'⟩ := gives_of_selectWhere ht hkeeps hy
  obtain ⟨-, hj, hrender⟩ := clauseFor_eq_ok h.clause
  have hclause := clause_of_clauseFor h.clause
  obtain ⟨es, rfl⟩ := Filter.clause_push hclause (clause_of_clauseFor h'.clause)
  obtain rfl : j = .any := hj.trans hjoin
  have hterms : cs ≠ [] := by
    intro hnil
    rw [hnil] at hrender
    exact hne (List.forall₂_nil_right_iff.mp hrender)
  apply h.subset h'
  intro r _
  exact ⟨Table.sharp_any rfl, Table.sharp_any rfl, Table.passes_any_append hterms⟩

/-- One predicate more adds no row to those that satisfy them all. -/
theorem push_within (ht : l.database.table? s.table = some t) (hkeeps : t.Keeps s)
    (hjoin : f.join = .all) (hsharp : ∀ r ∈ t.rows, (f.push p).Sharp t r) :
    l.Within s (f.push p) f := by
  intro ys xs hy hx
  obtain ⟨⟨cs, j⟩, rows, h⟩ := gives_of_selectWhere ht hkeeps hx
  obtain ⟨k', rows', h'⟩ := gives_of_selectWhere ht hkeeps hy
  obtain ⟨-, hj, -⟩ := clauseFor_eq_ok h.clause
  have hclause := clause_of_clauseFor h.clause
  obtain ⟨es, rfl⟩ := Filter.clause_push hclause (clause_of_clauseFor h'.clause)
  obtain rfl : j = .all := hj.trans hjoin
  apply h'.subset h
  intro r hr
  have hboth := Table.sharp_conjuncts h'.clause (hsharp r hr)
  exact ⟨hboth, Table.sharp_of_all_append hboth, Table.passes_of_all_append⟩

/-- A filter that can be asked with one predicate more can be asked without it. -/
theorem Handles.of_push (h : Handles s t (f.push p)) : Handles s t f where
  table := h.table
  few := by
    have hfew := h.few
    rw [Filter.push, List.length_append] at hfew
    omega
  columns q hq := h.columns q (List.mem_append_left _ hq)
  written q hq := h.written q (List.mem_append_left _ hq)

/-- Where all rows can be read, a filter with one predicate more is answered if the one
without it is, as long as it is accepted and there are not too many. -/
theorem answered_push (ht : l.database.table? s.table = some t) (hkeeps : t.Keeps s)
    (hread : ∀ r ∈ t.rows, ∃ x, RowImage.ofRow s t r = .ok x) (hf : (f.push p).isBrief = true)
    (hfew : f.predicates.length < Database.maxConditions) (hadmits : t.Admits p.column)
    {k : Clause} (hk : clauseFor s (f.push p) = .ok k) :
    (∃ xs, (l.selectWhere s f).1 = .ok xs) ↔ ∃ ys, (l.selectWhere s (f.push p)).1 = .ok ys := by
  constructor
  · rintro ⟨xs, h⟩
    obtain ⟨hl, hhandles⟩ := handles_of_selectWhere ht h
    apply answered_of_read ht hkeeps hread hl hf
    apply handles_of_clauseFor hk hhandles.table
    · rw [Filter.push, List.length_append]
      exact hfew
    · intro q hq
      rcases List.mem_append.mp hq with hq | hq
      · exact (hhandles.columns q hq).2
      · rw [List.mem_singleton.mp hq]
        exact hadmits
  · rintro ⟨ys, h⟩
    obtain ⟨hl, hhandles⟩ := handles_of_selectWhere ht h
    have hbrief : f.isBrief = true := by
      simp only [Filter.isBrief, Filter.push, List.all_append, Bool.and_eq_true] at hf
      exact hf.1
    exact answered_of_read ht hkeeps hread hl hbrief hhandles.of_push

/-- Filters grow and shrink as predicates are added, whatever plans lead to their rows:
one more takes nothing away where some are to be satisfied and adds nothing where all are. -/
theorem pushing_is_monotone (ht : l.database.table? s.table = some t) (hkeeps : t.Keeps s)
    (f : Filter) (p : Predicate) :
    (f.join = .any → f.predicates ≠ [] → l.Within s f (f.push p)) ∧
      (f.join = .all → (∀ r ∈ t.rows, (f.push p).Sharp t r) → l.Within s (f.push p) f) ∧
      ((∀ r ∈ t.rows, ∃ x, RowImage.ofRow s t r = .ok x) → (f.push p).isBrief = true →
        f.predicates.length < Database.maxConditions → t.Admits p.column →
        (∃ k, clauseFor s (f.push p) = .ok k) →
        ((∃ xs, (l.selectWhere s f).1 = .ok xs) ↔
          ∃ ys, (l.selectWhere s (f.push p)).1 = .ok ys)) := by
  refine ⟨within_push ht hkeeps, push_within ht hkeeps, ?_⟩
  rintro hread hf hfew hadmits ⟨k, hk⟩
  exact answered_push ht hkeeps hread hf hfew hadmits hk

/-- A second title that is asked for as well takes no task away; one that is asked for
besides a rank adds none. -/
theorem monotone_of_titles :
    overTasks.database.table? tasks.table = some (tableOf tasks threeTasks) ∧
      (tableOf tasks threeTasks).Keeps tasks ∧
      overTasks.Within tasks (.any [firstRank])
        ((Filter.any [firstRank]).push (.compare "TITLE" .like (.text "B%"))) ∧
      overTasks.Within tasks
        ((Filter.all [firstRank]).push (.compare "TITLE" .like (.text "B%")))
        (.all [firstRank]) ∧
      ∃ ys, (overTasks.selectWhere tasks
        ((Filter.any [firstRank]).push (.compare "TITLE" .like (.text "B%")))).1 = .ok ys := by
  have htable : overTasks.database.table? tasks.table = some (tableOf tasks threeTasks) := rfl
  obtain ⟨hany, -, hanswered⟩ := pushing_is_monotone (l := overTasks) htable keeps_threeTasks
    (.any [firstRank]) (.compare "TITLE" .like (.text "B%"))
  obtain ⟨-, hall, -⟩ := pushing_is_monotone (l := overTasks) htable keeps_threeTasks
    (.all [firstRank]) (.compare "TITLE" .like (.text "B%"))
  refine ⟨htable, keeps_threeTasks, hany rfl (by simp [Filter.any]), hall rfl ?_, ?_⟩
  · intro r _ _ c v d u hc hd hplace
    simp only [Filter.push, Filter.all, firstRank, List.cons_append, List.nil_append,
      List.mem_cons, Predicate.compare.injEq, List.not_mem_nil, or_false, reduceCtorEq, false_and,
      and_false, false_or] at hc hd
    rw [hc.1, hd.1] at hplace
    exact absurd hplace (by decide)
  · apply (hanswered read_threeTasks (by decide +kernel) (by decide) ?_ ⟨_, rfl⟩).mp
    · exact ⟨[milk], by decide +kernel⟩
    · exact ⟨by decide, by decide +kernel⟩

/-- A filter that asks for some of no predicates gives every task, and fewer with one
predicate more; and one more makes a task be given that was not, where a pattern meets
a rank that is asked to be a double. -/
theorem pushing_misses :
    (∃ xs ys, (overTasks.selectWhere tasks (.any [])).1 = .ok xs ∧
      (overTasks.selectWhere tasks ((Filter.any []).push firstRank)).1 = .ok ys ∧ ¬ xs ⊆ ys) ∧
    ∃ xs ys, (overLowest.selectWhere tasks
        (.all [.compare "RANK" .like (.text "-9.22%")])).1 = .ok xs ∧
      (overLowest.selectWhere tasks ((Filter.all
        [.compare "RANK" .like (.text "-9.22%")]).push atLowest)).1 = .ok ys ∧ ¬ ys ⊆ xs := by
  constructor
  · exact ⟨threeTasks.map Shelved.image, [milk], by decide +kernel, by decide +kernel, by decide⟩
  · exact ⟨[], [lowest], by decide +kernel, by decide +kernel, by decide⟩

end Link

end LiveRecords
