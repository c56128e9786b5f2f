import LiveRecords.Proofs.Selecting

/-!
# Reading by key

A row that is read under a key has that key, whatever the table is and however
the row is reached: either the condition on the key is tried in the row, or an
index leads to the row that says the same.
-/

namespace LiveRecords

open Table (Binding Cell Expression Refusal Row Scope)
open Table.Plan (Conjunct Fact Hint Question Route Source)

namespace Table

variable {t : Table} {ks : List Conjunct} {rows found : List Row} {r : Row}

/-! ## Routes for one condition -/

namespace Plan

variable {q : Question} {p : Route}

/-- A route along the rows or along one index. -/
def Route.IsSimple (p : Route) : Prop := p.source ≠ .union

/-- Only what is guessed of a route is changed when it is put among others. -/
theorem Route.reconciled_eq (kept : List Route) (p : Route) :
    ∃ cost count, reconciled kept p = { p with cost, count } := by
  unfold reconciled
  split
  · exact ⟨p.cost, p.count, rfl⟩
  · generalize kept.filter usesIndex = ps
    refine List.foldlRecOn ps _
      (motive := fun s : Route => ∃ cost count, s = { p with cost, count })
      ⟨p.cost, p.count, rfl⟩ ?_
    rintro s ⟨cost, count, rfl⟩ a _
    split
    · exact ⟨_, _, rfl⟩
    · split
      · exact ⟨_, _, rfl⟩
      · exact ⟨_, _, rfl⟩

theorem Route.mem_dropBeaten {p s : Route} {ps : List Route}
    (h : s ∈ insert.dropBeaten p ps) : s ∈ ps := by
  induction ps with
  | nil => simp [insert.dropBeaten] at h
  | cons a ps ih =>
    unfold insert.dropBeaten at h
    split at h
    · exact h
    · split at h
      · exact List.mem_cons_of_mem _ (ih h)
      · rcases List.mem_cons.mp h with rfl | h
        · simp
        · exact List.mem_cons_of_mem _ (ih h)

theorem Route.mem_insert {p s : Route} {ps : List Route} (h : s ∈ insert p ps) :
    s = p ∨ s ∈ ps := by
  induction ps with
  | nil => simpa [insert] using h
  | cons a ps ih =>
    unfold insert at h
    split at h
    · exact .inr h
    · split at h
      · rcases List.mem_cons.mp h with rfl | h
        · exact .inl rfl
        · exact .inr (List.mem_cons_of_mem _ (mem_dropBeaten h))
      · rcases List.mem_cons.mp h with rfl | h
        · simp
        · exact (ih h).imp_right (List.mem_cons_of_mem _)

/-- The routes that are kept are some of those there were, up to what is guessed. -/
theorem Route.mem_gather {ps : List Route} (h : p ∈ gather ps) :
    ∃ o ∈ ps, ∃ cost count, p = { o with cost, count } := by
  unfold gather at h
  revert p
  refine List.foldlRecOn ps _
    (motive := fun kept : List Route =>
      ∀ {p}, p ∈ kept → ∃ o ∈ ps, ∃ cost count, p = { o with cost, count }) (by simp) ?_
  intro kept hkept a ha p hp
  rcases mem_insert hp with rfl | hp
  · obtain ⟨cost, count, h⟩ := reconciled_eq kept a
    exact ⟨a, ha, cost, count, h⟩
  · exact hkept hp

theorem Route.simple_gather {ps : List Route} (h : ∀ p ∈ ps, p.IsSimple) :
    ∀ p ∈ gather ps, p.IsSimple := by
  intro p hp
  obtain ⟨o, ho, cost, count, rfl⟩ := mem_gather hp
  exact h o ho

namespace Question

/-- A hint bears on the part of an index that comes after those that a route holds. -/
structure Offers (q : Question) (ix : Index) (p : Route) (u : Nat) (h : Hint) : Prop where
  hint : q.hints[u]? = some h
  bears : ∃ part, ix.parts[p.held.length]? = some part ∧ h.bears part = true

/-- A route goes on by one hint: it holds one more part of its index, or bounds it. -/
inductive GoesOn (q : Question) (ix : Index) (p : Route) : Route → Prop
  | hold {u : Nat} {h : Hint} (single : Bool) : q.Offers ix p u h →
      h.bound ∉ [.stem, .stemEnd] → (single = true → h.bound = .equal) →
      GoesOn q ix p { p with held := p.held ++ [u], single := p.single || single }
  | low {u : Nat} {h : Hint} : q.Offers ix p u h → h.bound ∉ [.stem, .stemEnd] →
      GoesOn q ix p { p with low := some u, high := none }
  | high {u : Nat} {h : Hint} : q.Offers ix p u h → h.bound ∉ [.stem, .stemEnd] →
      GoesOn q ix p { p with high := some u }
  | stem {u : Nat} {h : Hint} : q.Offers ix p u h → h.bound = .stem →
      GoesOn q ix p { p with low := some u, high := some (u + 1) }

/-- What each hint leaves true of a route, and what is guessed of it does not touch, is true
of all routes that go on from one. -/
theorem extend_induction {ix : Index} {P : Route → Prop}
    (hguess : ∀ {o : Route} {cost count : Magnitude}, P o → P { o with cost, count })
    (hstep : ∀ {o o' : Route}, P o → q.GoesOn ix o o' → P o') {fuel : Nat}
    {count times : Magnitude} {s : Route} (hp : P p) (h : s ∈ q.extend ix fuel p count times) :
    P s := by
  induction fuel generalizing p count times with
  | zero => simp [extend] at h
  | succ fuel ih =>
    unfold extend at h
    split at h
    · simp at h
    next part hpart =>
    obtain ⟨⟨hint, u⟩, hmem, h⟩ := List.mem_flatMap.mp h
    obtain ⟨hzip, hbears⟩ := List.mem_filter.mp hmem
    have hoffers : q.Offers ix p u hint :=
      ⟨List.mem_zipIdx_iff_getElem?.mp hzip, part, hpart, hbears⟩
    -- The route with one more hint, and where that leads to.
    have hgo : ∀ {first longer : Route} {entries values : Magnitude},
        s ∈ first :: (if isOpen ix longer then q.extend ix fuel longer entries values else []) →
        P first → P longer → P s := by
      intro first longer entries values hs hfirst hlonger
      rcases List.mem_cons.mp hs with rfl | hs
      · exact hfirst
      split at hs
      · exact ih hlonger hs
      · simp at hs
    dsimp only at h
    split at h
    · simp at h
    split at h
    · next hbound =>
      have hlonger := hstep hp (.hold (q.isSingle ix part.1 p.held.length times) hoffers
        (by simp [hbound]) fun _ => hbound)
      exact hgo h (hguess hlonger) hlonger
    · next hbound =>
      have hlonger := hstep hp (.hold false hoffers (by simp [hbound]) (by simp))
      exact hgo h (hguess hlonger) hlonger
    · next hbound =>
      have hlonger := hstep hp (.hold false hoffers (by simp [hbound]) (by simp))
      exact hgo h (hguess hlonger) hlonger
    · next hbound =>
      have hlonger := hstep hp (.low hoffers (by simp [hbound]))
      exact hgo h (hguess hlonger) hlonger
    · next hbound =>
      have hlonger := hstep hp (.low hoffers (by simp [hbound]))
      exact hgo h (hguess hlonger) hlonger
    · next hbound =>
      rw [List.mem_singleton.mp h]
      exact hguess (hstep hp (.high hoffers (by simp [hbound])))
    · next hbound =>
      rw [List.mem_singleton.mp h]
      exact hguess (hstep hp (.stem hoffers hbound))
    · simp at h

/-- Further hints keep a route on its index. -/
theorem source_extend {ix : Index} {fuel : Nat} {count times : Magnitude} {s : Route}
    (h : s ∈ q.extend ix fuel p count times) : s.source = p.source := by
  refine extend_induction (P := fun o => o.source = p.source) id (fun ho hgoes => ?_) rfl h
  cases hgoes <;> exact ho

theorem source_scanIndex {ix : Index} {helps : Bool} {s : Route}
    (h : s ∈ q.scanIndex p ix helps) : s.source = p.source := by
  unfold scanIndex at h
  split at h
  · rcases List.mem_singleton.mp h with rfl
    rfl
  · simp at h

theorem simple_routes (q : Question) : ∀ p ∈ q.routes, p.IsSimple := by
  intro p hp
  simp only [routes, List.mem_append, List.mem_cons, List.mem_flatMap] at hp
  rcases hp with (rfl | hp) | ⟨⟨ix, i⟩, -, hp | hp⟩
  · simp [Route.IsSimple]
  · rw [Route.IsSimple, source_extend hp]
    simp
  · rw [Route.IsSimple, source_scanIndex hp]
    simp
  · rw [Route.IsSimple, source_extend hp]
    simp

/-- What chooses one of two all along a list chooses one of all. -/
theorem foldl_mem {α : Type} {f : α → α → α} (hf : ∀ a b, f a b = a ∨ f a b = b) (a : α)
    (as : List α) : as.foldl f a ∈ a :: as := by
  induction as generalizing a with
  | nil => simp
  | cons b as ih =>
    rw [List.foldl_cons]
    rcases hf a b with hab | hab
    · rw [hab]
      rcases List.mem_cons.mp (ih a) with h | h
      · simp [h]
      · exact List.mem_cons_of_mem _ (List.mem_cons_of_mem _ h)
    · rw [hab]
      exact List.mem_cons_of_mem _ (ih b)

theorem mem_cheapest {price : Route → Magnitude × Magnitude × Magnitude} {ps : List Route}
    (h : cheapest price ps = some p) : p ∈ ps := by
  cases ps with
  | nil => simp [cheapest] at h
  | cons a ps =>
    rw [← Option.some.inj h]
    apply foldl_mem
    intro best r
    dsimp only
    split
    · exact .inr rfl
    · exact .inl rfl

theorem mem_choice {columns : Nat} {ps : List Route} (h : q.choice columns ps = some p) :
    p ∈ ps := by
  unfold choice at h
  split at h
  · exact mem_cheapest h
  · obtain ⟨first, -, h⟩ := Option.bind_eq_some_iff.mp h
    exact mem_cheapest h

theorem simple_shortCut? (h : q.shortCut? = some p) : p.IsSimple := by
  unfold shortCut? at h
  dsimp only at h
  split at h
  · cases h
    simp [Route.IsSimple]
  · obtain ⟨⟨ix, i⟩, -, h⟩ := List.exists_of_findSome?_eq_some h
    obtain ⟨held, -, rfl⟩ := Option.map_eq_some_iff.mp h
    simp [Route.IsSimple]

end Question

/-- One condition is not looked up part by part. -/
theorem simple_route (q : Question) (columns : Nat) (c : Term) :
    (route q columns [.one c]).IsSimple := by
  unfold route
  split
  · next p hp => exact Question.simple_shortCut? hp
  · simp only [List.filterMap_cons, List.filterMap_nil, List.append_nil]
    cases hp : q.choice columns (Route.gather q.routes) with
    | none => simp [Route.IsSimple]
    | some p => exact Route.simple_gather q.simple_routes p (Question.mem_choice hp)

end Plan

/-! ## Conditions that were tried -/

theorem mem_scan {limit offset : Nat} (h : r ∈ (t.scan ks limit offset rows).1) :
    r ∈ rows ∧ holdsAll (t.scope r) ks = .ok true := by
  induction rows generalizing limit offset with
  | nil => cases limit <;> simp [scan] at h
  | cons a rest ih =>
    cases limit with
    | zero => simp [scan] at h
    | succ limit =>
      unfold scan at h
      split at h
      · simp at h
      · have hrest := ih h
        exact ⟨List.mem_cons_of_mem _ hrest.1, hrest.2⟩
      · next htrue =>
        cases offset with
        | zero =>
          rcases List.mem_cons.mp h with rfl | h
          · exact ⟨by simp, htrue⟩
          · have hrest := ih h
            exact ⟨List.mem_cons_of_mem _ hrest.1, hrest.2⟩
        | succ offset =>
          have hrest := ih h
          exact ⟨List.mem_cons_of_mem _ hrest.1, hrest.2⟩

theorem mem_sift (h : t.sift ks rows = .ok found) (hr : r ∈ found) :
    r ∈ rows ∧ holdsAll (t.scope r) ks = .ok true := by
  induction rows generalizing found with
  | nil =>
    cases h
    simp at hr
  | cons a rest ih =>
    simp only [sift, bind_eq_ok] at h
    obtain ⟨b, hb, h⟩ := h
    cases b with
    | false =>
      have hrest := ih h hr
      exact ⟨List.mem_cons_of_mem _ hrest.1, hrest.2⟩
    | true =>
      obtain ⟨kept, hkept, h⟩ := bind_eq_ok.mp h
      cases h
      rcases List.mem_cons.mp hr with rfl | hr
      · exact ⟨by simp, hb⟩
      · have hrest := ih hkept hr
        exact ⟨List.mem_cons_of_mem _ hrest.1, hrest.2⟩

theorem meets_of_mem_rowsOf {q : Question} {p : Route} (h : r ∈ rowsOf q p) {u : Nat} {hint : Hint}
    (hu : p.used.contains u = true) (hq : q.hints[u]? = some hint) :
    q.table.meets r hint = true := by
  have hfound : r ∈ q.table.rows.filter fun row =>
      (p.used.filterMap fun u => q.hints[u]?).all (q.table.meets row) := by
    unfold rowsOf at h
    dsimp only at h
    split at h
    · exact h
    · exact h
    · exact (ordered_perm _ _).mem_iff.mp h
  have hall := List.all_eq_true.mp (List.mem_filter.mp hfound).2
  exact hall hint (List.mem_filterMap.mpr ⟨u, by simpa using hu, hq⟩)

/-- A condition is true in a row. -/
def Holds (t : Table) (c : Term) (r : Row) : Prop :=
  (Expression.ofTerm c).truth (t.scope r) = .ok (some true)

theorem holds_of_holdsAll {c : Term} (hc : .one c ∈ ks)
    (h : holdsAll (t.scope r) ks = .ok true) : t.Holds c r := by
  induction ks with
  | nil => simp at hc
  | cons k ks ih =>
    simp only [holdsAll, bind_eq_ok] at h
    obtain ⟨b, hb, h⟩ := h
    cases b with
    | false => cases h
    | true =>
      rcases List.mem_cons.mp hc with rfl | hc
      · obtain ⟨v, hv, hb⟩ := bind_eq_ok.mp hb
        have htrue : v = some true := by simpa [pure, Except.pure] using hb
        rw [Holds, hv, htrue]
      · exact ih hc h

/-- An equality with a column that is there is tried in each row, or hints say it. -/
theorem holds_of_remaining {q : Question} {p : Route} {c : Term} {hint : Hint} {f : Fact}
    (hhints : q.hints = [hint]) (hcond : hint.condition = Expression.ofTerm c)
    (hfacts : q.facts = [f]) (hf : f.settled = false) (hp : p.IsSimple)
    (hr : r ∈ rowsOf q p)
    (hrest : holdsAll (q.table.scope r) (remaining q p [.one c]) = .ok true) :
    q.table.Holds c r := by
  by_cases hsaid : isSaid q p 0 = true
  · have hu : p.used.contains 0 = true := by
      unfold isSaid at hsaid
      simp only [hhints, List.zipIdx_cons, List.zipIdx_nil, Bool.and_eq_true] at hsaid
      by_cases hown : hint.conjunct == some 0
      · simpa [hown] using hsaid.2
      · simp [hown] at hsaid
    have hmeets : q.table.meets r hint = true := meets_of_mem_rowsOf hr hu (by simp [hhints])
    unfold meets at hmeets
    rw [hcond] at hmeets
    unfold Holds
    split at hmeets
    · next b hb =>
      rw [hb]
      simpa using hmeets
    · cases hmeets
  · refine holds_of_holdsAll ?_ hrest
    unfold remaining
    simp only [hfacts, List.zip_cons_cons, List.zip_nil_right, List.zipIdx_cons, List.zipIdx_nil,
      List.filterMap_cons, List.filterMap_nil, hf, Bool.false_or]
    rw [if_neg hsaid]
    split
    · simp
    · next hunion => exact absurd hunion hp
    · simp only [List.mem_append, List.mem_map, List.mem_filter, List.mem_singleton,
        Bool.not_eq_true']
      cases hcover : f.places.all (q.index p.source).holds with
      | true => exact .inl ⟨(.one c, f), ⟨rfl, hcover⟩, rfl⟩
      | false => exact .inr ⟨(.one c, f), ⟨rfl, hcover⟩, rfl⟩

/-- Nothing settles an equality with a column that is there before rows are read. -/
theorem settled_of_equality {ks : List Conjunct} {name param : String} {v : Value}
    (hk : ks = [.one (.compare name .equals param v)]) {i : Nat}
    (hi : t.place? name = some (.column i)) :
    (Plan.factOf t (Plan.anchors t ks) 0 (.one (.compare name .equals param v))).settled =
      false := by
  have hconstant : Plan.isConstant t (.compare name .equals param v) = false := by
    simp [Plan.isConstant, Term.column, hi]
  have hanchors : ∀ a ∈ Plan.anchors t ks, a.conjunct = 0 := by
    intro a ha
    simp only [Plan.anchors, hk, List.zipIdx_cons, List.zipIdx_nil, List.reverse_cons,
      List.reverse_nil, List.nil_append, List.foldl_cons, List.foldl_nil, hi] at ha
    split at ha
    · rcases List.mem_singleton.mp ha with rfl
      rfl
    · simp at ha
  have hnone : Plan.anchorOf? t (Plan.anchors t ks) 0
      (.compare name .equals param v) = none := by
    have hfind : ∀ p, (Plan.anchors t ks).find?
        (fun a => a.place == p && a.conjunct != 0) = none := by
      intro p
      rw [List.find?_eq_none]
      intro a ha
      simp [hanchors a ha]
    simp [Plan.anchorOf?, Term.column, hi, hfind]
  simp [Plan.factOf, hconstant, hnone]

/-- An equality with a column that is there is tried in every row. -/
theorem conjunctsWhere_of_equality {ks : List Conjunct} {name param : String} {v : Value}
    (hk : ks = [.one (.compare name .equals param v)]) {i : Nat}
    (hi : t.place? name = some (.column i)) :
    t.conjunctsWhere ks true = [] ∧ t.conjunctsWhere ks false = ks := by
  have hsettled := settled_of_equality (t := t) hk hi
  subst hk
  simp [conjunctsWhere, hsettled]

/-- An equality with a column that is there is true in every row that is selected. -/
theorem holds_of_mem_page {k : Clause} {name param : String} {v : Value}
    (hk : k.conjuncts = [.one (.compare name .equals param v)]) {i : Nat}
    (hi : t.place? name = some (.column i)) {columns : List Nat} {limit offset : Nat}
    (hr : r ∈ (t.page k columns limit offset).1) :
    t.Holds (.compare name .equals param v) r := by
  have hsettled := settled_of_equality (t := t) hk hi
  have hhints : (t.question k.conjuncts columns).hints =
      [⟨some 0, .column i, t.collationAt (.column i), .equal,
        Expression.ofTerm (.compare name .equals param v), true⟩] := by
    simp [question, Plan.hints, hk, Plan.hintsOfConjunct, Plan.hintsOf, Term.column, hi]
  have hfacts : (t.question k.conjuncts columns).facts =
      [Plan.factOf t (Plan.anchors t k.conjuncts) 0 (.one (.compare name .equals param v))] := by
    simp [question, hk]
  have hsimple : (Plan.route (t.question k.conjuncts columns) columns.length
      k.conjuncts).IsSimple := by
    rw [hk]
    exact Plan.simple_route _ _ _
  have hrest : r ∈ rowsOf (t.question k.conjuncts columns)
        (Plan.route (t.question k.conjuncts columns) columns.length k.conjuncts) ∧
      holdsAll (t.scope r) (remaining (t.question k.conjuncts columns)
        (Plan.route (t.question k.conjuncts columns) columns.length k.conjuncts) k.conjuncts) =
        .ok true → t.Holds (.compare name .equals param v) r := by
    rintro ⟨hmem, hall⟩
    rw [hk] at hall hmem hsimple hhints hfacts hsettled
    exact holds_of_remaining hhints rfl hfacts hsettled hsimple hmem hall
  unfold page at hr
  dsimp only at hr
  split at hr
  · simp at hr
  split at hr
  · simp at hr
  · simp at hr
  split at hr
  · refine holds_of_holdsAll ?_ (mem_scan hr).2
    rw [(conjunctsWhere_of_equality hk hi).2, hk]
    exact List.mem_singleton_self _
  unfold plannedPage at hr
  dsimp only at hr
  split at hr
  · exact hrest (mem_scan hr)
  split at hr
  · simp at hr
  next rows hfound =>
  have hmem : r ∈ rows := by
    have hpage : r ∈ ((t.inOrder rows).drop offset).take limit := hr
    exact (ordered_perm _ _).mem_iff.mp (List.mem_of_mem_drop (List.mem_of_mem_take hpage))
  split at hfound
  · next hany => rw [hk] at hany; cases hany
  · exact hrest (mem_sift hfound hmem)

/-! ## Keys -/

theorem blob_of_numeric {c : Cell} {octets : List UInt8} (h : c.numeric = .blob octets) :
    c = .blob octets := by
  cases c with
  | text bs =>
    unfold Cell.numeric Cell.numberOf? at h
    cases hd : Number.Decimal.read? (asciiText bs) with
    | none => simp [hd] at h
    | some d =>
      simp only [hd, Option.map_some, Option.getD_some, Cell.ofDecimal] at h
      split at h <;> cases h
  | _ => exact h

theorem blob_of_textual {c : Cell} {octets : List UInt8} (h : c.textual = .blob octets) :
    c = .blob octets := by
  cases c <;> first | exact h | cases h

theorem blob_of_compareBy {collation : Collation} {c : Cell} {octets : List UInt8}
    (h : c.compareBy collation (.blob octets) = .eq) : c = .blob octets := by
  cases c with
  | blob bs => rw [compareOctets_eq h]
  | _ => cases h

/-- Only a cell that holds the octets is equal to them. -/
theorem blob_of_equal {a : Affinity} {collation : Collation} {c : Cell} {octets : List UInt8}
    (h : compareCells a collation .equals c (.blob octets) = some true) : c = .blob octets := by
  unfold compareCells at h
  split at h
  · cases h
  · have heq : (a.align c (.blob octets)).1.compareBy collation (a.align c (.blob octets)).2 =
        .eq := by simpa [verdict] using h
    cases a with
    | none => exact blob_of_compareBy heq
    | text =>
      simp only [Affinity.align] at heq
      split at heq
      · exact blob_of_textual (blob_of_compareBy heq)
      · exact blob_of_compareBy heq
    | _ =>
      simp only [Affinity.align] at heq
      split at heq
      · exact blob_of_numeric (blob_of_compareBy heq)
      · exact blob_of_compareBy heq

theorem truth_ofTruth (b : Option Bool) : (Cell.ofTruth b).truth = b := by
  rcases b with _ | _ | _ <;> rfl

/-- The condition that selects the row with a key. -/
def keyTerm (id : RecordId) : Term := .compare keyColumn .equals ":ID_eq" (.ofId id)

theorem truth_keyTerm (h : t.hasColumn keyColumn = true) (id : RecordId) :
    (Expression.ofTerm (keyTerm id)).truth (t.scope r) =
      .ok (compareCells (t.affinity keyColumn) (t.collation keyColumn) .equals
        (t.cell r keyColumn) (.blob id.bytes)) := by
  have hscope : t.scope r keyColumn =
      some ⟨t.cell r keyColumn, t.affinity keyColumn, t.collation keyColumn⟩ := by
    simp [scope, resolves, h]
  have hword : Expression.ofWord keyColumn = .name keyColumn false := by rfl
  simp only [keyTerm, Expression.ofTerm, hword, Expression.truth, Expression.compare,
    Expression.eval, Expression.lookUp, hscope, BinaryOp.isDecided, BinaryOp.apply]
  simp [Except.map, Expression.affinity?, Expression.collation, Expression.spelledOut?,
    Expression.ofColumn?, hscope, comparisonAffinity, Value.ofId, Cell.ofValue, truth_ofTruth]

theorem place?_key (h : t.hasColumn keyColumn = true) :
    ∃ i, t.place? keyColumn = some (.column i) := by
  obtain ⟨i, hi⟩ := columnIndex?_of_hasColumn h
  have hclock : Expression.clock? keyColumn = none := by decide
  exact ⟨i, by simp [place?, hclock, hi]⟩

/-- A row that the condition on a key selects has the key. -/
theorem cell_of_holds (h : t.hasColumn keyColumn = true) {id : RecordId}
    (hr : t.Holds (keyTerm id) r) : t.cell r keyColumn = .blob id.bytes := by
  rw [Holds, truth_keyTerm h, Except.ok.injEq] at hr
  exact blob_of_equal hr

end Table

namespace Link

variable {l : Link} {s : Schema} {id : RecordId}

theorem clauseFor_keyFilter (s : Schema) (id : RecordId) :
    clauseFor s (keyFilter id) = .ok ⟨[Table.keyTerm id], .all⟩ := by
  have hname : isName keyColumn = true := by decide
  have hparam : ":" ++ Predicate.numbered (keyColumn ++ "_" ++ "eq") 1 = ":ID_eq" := by decide
  have hclause : (keyFilter id).clause = .ok ⟨[Table.keyTerm id], .all⟩ := by
    simp [keyFilter, Filter.all, Predicate.equals, Filter.clause, Filter.terms, Predicate.term_eq,
      Predicate.column, Predicate.placeholder, Predicate.tag, Comparison.tag, hname, Value.ofId,
      Table.keyTerm, hparam]
  have hcolumns : (keyFilter id).columns = [keyColumn] := rfl
  simp [clauseFor, hcolumns, hclause, Schema.hasColumn]

theorem id_of_mem_page {t : Table} {r : Row} {columns : List Nat} {limit offset : Nat}
    (hr : r ∈ (t.page ⟨[Table.keyTerm id], .all⟩ columns limit offset).1) {image : RowImage}
    (himage : RowImage.ofRow s t r = .ok image) : image.id = id := by
  have hcolumn : t.hasColumn keyColumn = true := by
    obtain ⟨c, hc, -⟩ := bind_eq_ok.mp himage
    unfold RowImage.cellNamed at hc
    split at hc
    · assumption
    · cases hc
  obtain ⟨i, hplace⟩ := Table.place?_key hcolumn
  have hcell := Table.cell_of_holds hcolumn (Table.holds_of_mem_page rfl hplace hr)
  have hid := RowImage.idOfRow_of_ofRow himage
  simp only [RowImage.idOfRow, hcell, RowImage.idOfCell, RecordId.ofBytes_bytes,
    Except.ok.injEq] at hid
  exact hid.symm

/-- Whatever is read under a key has that key. -/
theorem selectOne_id {image : RowImage} (h : (l.selectOne s id).1 = .ok (some image)) :
    image.id = id := by
  unfold selectOne at h
  split at h
  · next images _ hs =>
    have hwhere : (l.selectWhere s (keyFilter id)).1 = .ok images := by rw [hs]
    have hhead : images.head? = some image := by simpa using h
    obtain ⟨rest, rfl⟩ := List.head?_eq_some_iff.mp hhead
    simp only [selectWhere, clauseFor_keyFilter] at hwhere
    have hread := read_of_query hwhere
    unfold read at hread
    split at hread
    · cases hread
    next t rows stop hquery =>
    have hasks := Database.asks_of_query hquery
    rw [Database.query_rows hasks] at hquery
    have hpage := (Prod.mk.inj (Except.ok.inj hquery)).2
    have hdecoded := decodeRows_eq_ok hread
    cases rows with
    | nil => simp at hdecoded
    | cons r rows =>
      simp only [List.map_cons, List.cons.injEq] at hdecoded
      exact id_of_mem_page (by rw [hpage]; simp) hdecoded.1
  · cases h

end Link

end LiveRecords
