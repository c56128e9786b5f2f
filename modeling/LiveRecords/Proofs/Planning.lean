import LiveRecords.Proofs.Routing
import Mathlib.Data.List.Nodup
import Mathlib.Data.List.Perm.Subperm

/-!
# Plans

Whatever plan leads to the rows that a filter selects, a page that is long enough
holds the rows in which all its conjuncts are true. A choice that is looked up part by
part finds a row for each condition that is true in it, and keeps it once.
-/

namespace LiveRecords

open Table (Cell Expression Refusal Row Scope)
open Table.Plan (Anchor Conjunct Hint Question Route Source)

namespace Table

variable {t : Table} {ks : List Conjunct} {rows found : List Row} {r : Row} {k : Clause}

/-! ## Rows that are tried -/

/-- A scan that is not cut short finds the rows that pass. -/
theorem mem_scan_iff {n : Nat} (h : t.scan ks n 0 rows = (found, none)) (hn : rows.length ≤ n) :
    r ∈ found ↔ r ∈ rows ∧ holdsAll (t.scope r) ks = .ok true := by
  induction rows generalizing n found with
  | nil =>
    obtain rfl : found = [] := by
      cases n <;> simpa [scan] using h.symm
    simp
  | cons a rest ih =>
    cases n with
    | zero => simp at hn
    | succ n =>
      have hlen : rest.length ≤ n := by simpa using hn
      unfold scan at h
      split at h
      · cases h
      · next hfalse =>
        rw [ih h (Nat.le_succ_of_le hlen), List.mem_cons, or_and_right]
        constructor
        · exact .inr
        · rintro (⟨rfl, htrue⟩ | hrest)
          · rw [hfalse] at htrue
            cases htrue
          · exact hrest
      · next htrue =>
        dsimp only at h
        obtain ⟨rfl, hstop⟩ := Prod.mk.inj h
        have hrest : t.scan ks n 0 rest = ((t.scan ks n 0 rest).1, none) := by rw [← hstop]
        rw [List.mem_cons, ih hrest hlen, List.mem_cons, or_and_right]
        constructor
        · rintro (rfl | hr)
          · exact .inl ⟨rfl, htrue⟩
          · exact .inr hr
        · rintro (⟨rfl, -⟩ | hr)
          · exact .inl rfl
          · exact .inr hr

theorem mem_sift_iff (h : t.sift ks rows = .ok found) :
    r ∈ found ↔ r ∈ rows ∧ holdsAll (t.scope r) ks = .ok true := by
  induction rows generalizing found with
  | nil =>
    cases h
    simp
  | cons a rest ih =>
    simp only [sift, bind_eq_ok] at h
    obtain ⟨b, hb, h⟩ := h
    cases b with
    | false =>
      rw [ih h, List.mem_cons, or_and_right]
      constructor
      · exact .inr
      · rintro (⟨rfl, htrue⟩ | hrest)
        · rw [hb] at htrue
          cases htrue
        · exact hrest
    | true =>
      obtain ⟨kept, hkept, h⟩ := bind_eq_ok.mp h
      cases h
      rw [List.mem_cons, ih hkept, List.mem_cons, or_and_right]
      constructor
      · rintro (rfl | hr)
        · exact .inl ⟨rfl, hb⟩
        · exact .inr hr
      · rintro (⟨rfl, -⟩ | hr)
        · exact .inl rfl
        · exact .inr hr

/-- Whatever a scan that is not cut short went over was tried. -/
theorem tried_of_scan {n : Nat} (h : t.scan ks n 0 rows = (found, none)) (hn : rows.length ≤ n) :
    ∀ r ∈ rows, ∃ b, holdsAll (t.scope r) ks = .ok b := by
  induction rows generalizing n found with
  | nil => simp
  | cons a rest ih =>
    cases n with
    | zero => simp at hn
    | succ n =>
      have hlen : rest.length ≤ n := by simpa using hn
      unfold scan at h
      split at h
      · cases h
      · next hfalse =>
        exact List.forall_mem_cons.mpr ⟨⟨false, hfalse⟩, ih h (Nat.le_succ_of_le hlen)⟩
      · next htrue =>
        dsimp only at h
        obtain ⟨-, hstop⟩ := Prod.mk.inj h
        have hrest : t.scan ks n 0 rest = ((t.scan ks n 0 rest).1, none) := by rw [← hstop]
        exact List.forall_mem_cons.mpr ⟨⟨true, htrue⟩, ih hrest hlen⟩

theorem tried_of_sift (h : t.sift ks rows = .ok found) :
    ∀ r ∈ rows, ∃ b, holdsAll (t.scope r) ks = .ok b := by
  induction rows generalizing found with
  | nil => simp
  | cons a rest ih =>
    simp only [sift, bind_eq_ok] at h
    obtain ⟨b, hb, h⟩ := h
    refine List.forall_mem_cons.mpr ⟨⟨b, hb⟩, ?_⟩
    cases b with
    | false => exact ih h
    | true =>
      obtain ⟨kept, hkept, -⟩ := bind_eq_ok.mp h
      exact ih hkept

theorem sift_ok (h : ∀ r ∈ rows, ∃ b, holdsAll (t.scope r) ks = .ok b) :
    ∃ found, t.sift ks rows = .ok found := by
  induction rows with
  | nil => exact ⟨[], rfl⟩
  | cons r rest ih =>
    obtain ⟨b, hb⟩ := h r (by simp)
    obtain ⟨found, hfound⟩ := ih fun q hq => h q (by simp [hq])
    simp only [sift, hb, hfound]
    cases b with
    | false => exact ⟨found, rfl⟩
    | true => exact ⟨r :: found, rfl⟩

namespace Picks

/-- Rows of one number are one row. -/
theorem eq_of_number (h : t.Picks rows) {r' : Row} (hr : r ∈ rows) (hr' : r' ∈ rows)
    (hnumber : r.number = r'.number) : r = r' :=
  List.inj_on_of_nodup_map h.distinct hr hr' hnumber

theorem length_le (h : t.Picks rows) : rows.length ≤ t.rows.length :=
  (List.subperm_of_subset (List.Nodup.of_map _ h.distinct) h.mem).length_le

end Picks

/-! ## Choices that are looked up part by part -/

/-- A route finds a row that passes what is left to be tried. -/
def Finds (q : Question) (p : Route) (ks : List Conjunct) (r : Row) : Prop :=
  r ∈ rowsOf q p ∧ holdsAll (q.table.scope r) (remaining q p ks) = .ok true

/-- What each of some things adds to what was there before is there at the end. -/
theorem mem_foldlM {α : Type} {step : List Row → α → Except Refusal (List Row)}
    {P : α → Row → Prop}
    (hstep : ∀ before a next, (∀ x ∈ before, x ∈ t.rows) → step before a = .ok next →
      (∀ x ∈ next, x ∈ t.rows) ∧ ∀ x, x ∈ next ↔ x ∈ before ∨ P a x)
    {as : List α} {before : List Row} (hbefore : ∀ x ∈ before, x ∈ t.rows)
    (h : as.foldlM step before = .ok found) :
    r ∈ found ↔ r ∈ before ∨ ∃ a ∈ as, P a r := by
  induction as generalizing before with
  | nil =>
    cases h
    simp
  | cons a as ih =>
    rw [List.foldlM_cons] at h
    obtain ⟨next, hnext, h⟩ := bind_eq_ok.mp h
    obtain ⟨htable, hmem⟩ := hstep before a next hbefore hnext
    rw [ih htable h, hmem, List.exists_mem_cons_iff, or_assoc]

theorem mem_unionRows (ht : t.Picks t.rows) {q : Question} (hq : q.table = t)
    {cs : List Term} (h : unionRows q cs = .ok found) :
    r ∈ found ↔ ∃ c ∈ cs, Finds (Plan.subQuestion q c) (Plan.subRoute q c) [.one c] r := by
  subst hq
  rw [mem_foldlM (t := q.table)
    (P := fun c r => Finds (Plan.subQuestion q c) (Plan.subRoute q c) [.one c] r) ?_ (by simp) h]
  · simp
  intro before c next hbefore hnext
  obtain ⟨more, hmore, hnext⟩ := bind_eq_ok.mp hnext
  cases hnext
  have hmem : ∀ x, x ∈ more ↔ Finds (Plan.subQuestion q c) (Plan.subRoute q c) [.one c] x :=
    fun x => mem_sift_iff hmore
  have htable : ∀ x ∈ more, x ∈ q.table.rows := by
    intro x hx
    exact (Plan.mem_rowsOf.mp ((hmem x).mp hx).1).1
  constructor
  · intro x hx
    rcases List.mem_append.mp hx with hx | hx
    · exact hbefore x hx
    · exact htable x (List.mem_filter.mp hx).1
  · intro x
    rw [List.mem_append, List.mem_filter, ← hmem]
    constructor
    · rintro (hx | ⟨hx, -⟩)
      · exact .inl hx
      · exact .inr hx
    · rintro (hx | hx)
      · exact .inl hx
      · by_cases hnew : before.all (·.number != x.number) = true
        · exact .inr ⟨hx, hnew⟩
        · -- A row of the same number was found before, and it is this one.
          left
          simp only [List.all_eq_true, bne_iff_ne, not_forall, not_not] at hnew
          obtain ⟨y, hy, hnumber⟩ := hnew
          rw [← ht.eq_of_number (hbefore y hy) (htable x hx) hnumber]
          exact hy

/-! ## Conditions of a choice that is looked up -/

namespace Plan

/-- A condition that gives a hint other than a stem is never refused, and it is not
known before rows are read. -/
theorem open_of_hint {h : Hint} {i : Nat} {c : Term} (hh : h ∈ hintsOf t i c)
    (hstem : ¬h.IsStem) (s : Scope) :
    (∃ b, (Expression.ofTerm c).truth s = .ok b) ∧ isConstant t c = false := by
  obtain ⟨p, hp, ⟨h', -⟩ | ⟨-, -, -⟩⟩ := hintsOf_cases hh
  · exact absurd h' hstem
  constructor
  · apply truth_ofTerm
    rintro column param v rfl
    unfold hintsOf at hh
    rw [hp] at hh
    exact absurd (mem_stemHints hh).1 hstem
  · unfold hintsOf at hh
    rw [hp] at hh
    unfold isConstant
    rw [hp]
    cases c with
    | compare word op param v => rfl
    | between word low lo high hi => rfl
    | isNull word =>
      dsimp only at hh ⊢
      split at hh
      · next hnull => simp [hnull]
      · simp at hh
    | isNotNull word =>
      dsimp only at hh ⊢
      split at hh
      · next hnull => simp [hnull]
      · simp at hh

variable {q : Question}

/-- A condition that can use an index is never refused, and it is tried in each row. -/
theorem open_of_used {c : Term} {as : List Anchor} (hq : (subQuestion q c).About t [.one c] as)
    (hused : ∃ o ∈ (subQuestion q c).routes, o.used ≠ []) (s : Scope) :
    (∃ b, (Expression.ofTerm c).truth s = .ok b) ∧ isConstant t c = false := by
  obtain ⟨o, ho, hne⟩ := hused
  obtain ⟨u, hu⟩ := List.exists_mem_of_ne_nil _ hne
  obtain ⟨h, hget, hstem⟩ := stemless_routes hq o ho u hu
  have hmem := List.mem_of_getElem? hget
  rw [hq.hints, mem_hints] at hmem
  obtain ⟨k, i, hk, hmem⟩ := hmem
  obtain rfl : k = .one c := List.mem_singleton.mp (List.fst_mem_of_mem_zipIdx hk)
  exact open_of_hint hmem hstem s

/-- A choice gives no hint that holds a place at one value. -/
theorem not_inOrder_of_choice {p : Route} {cs : List Term} {place : Place}
    (hhints : q.hints = hints t [.any cs]) (horder : q.order = some place)
    (hsource : p.source = .union) (hsingle : p.single = false) : q.inOrder p = false := by
  have hheld : q.isHeld place = false := by
    rw [Question.isHeld, List.any_eq_false]
    intro h hh
    rw [hhints, mem_hints] at hh
    obtain ⟨k, i, hk, hmem⟩ := hh
    obtain rfl : k = .any cs := List.mem_singleton.mp (List.fst_mem_of_mem_zipIdx hk)
    obtain ⟨p, -, rfl⟩ := mem_hintsOf_any hmem
    simp
  simp [Question.inOrder, horder, hheld, hsingle, hsource]

end Plan

theorem place?_rowid (t : Table) : ∃ p, t.place? "rowid" = some p := by
  have hclock : (Expression.clock? "rowid").isSome = false := by decide
  have hname : isRowNumberName "rowid" = true := by decide
  unfold place?
  rw [hclock, hname]
  cases t.columnIndex? "rowid" with
  | none => exact ⟨.number, rfl⟩
  | some i => exact ⟨.column i, rfl⟩

/-! ## Pages as plans lead to them -/

theorem length_rowsOf_le (q : Question) (p : Route) :
    (rowsOf q p).length ≤ q.table.rows.length := by
  unfold rowsOf
  dsimp only
  split
  · exact List.length_filter_le _ _
  · exact List.length_filter_le _ _
  · rw [(ordered_perm _ _).length_eq]
    exact List.length_filter_le _ _

/-- A page that all rows fit in holds what is found, in some order. -/
theorem mem_page_iff {n : Nat}
    (h : (((t.inOrder rows).drop 0).take n, none) = (found, (none : Option Refusal)))
    (hn : rows.length ≤ n) : r ∈ found ↔ r ∈ rows := by
  have hperm : (t.inOrder rows).Perm rows := ordered_perm _ _
  obtain ⟨rfl, -⟩ := Prod.mk.inj h
  rw [List.drop_zero, List.take_of_length_le (by rw [hperm.length_eq]; exact hn)]
  exact hperm.mem_iff

variable {columns : List Nat} {n : Nat}

theorem mem_plannedPage_simple
    (hsimple : (Plan.route (t.question ks columns) columns.length ks).IsSimple)
    (h : t.plannedPage ks columns n 0 = (rows, none)) (hn : t.rows.length ≤ n) :
    r ∈ rows ↔
      Finds (t.question ks columns) (Plan.route (t.question ks columns) columns.length ks) ks
        r := by
  have hlength := length_rowsOf_le (t.question ks columns)
    (Plan.route (t.question ks columns) columns.length ks)
  have hfit := hlength.trans hn
  unfold plannedPage at h
  dsimp only at h
  split at h
  · exact mem_scan_iff h hfit
  · split at h
    · cases h
    next found hfound =>
    split at hfound
    · next hunion => exact absurd hunion hsimple
    · rw [mem_page_iff h ((sift_sublist hfound).length_le.trans hfit)]
      exact mem_sift_iff hfound

/-- All rows to which a simple route leads were tried. -/
theorem tried_of_plannedPage
    (hsimple : (Plan.route (t.question ks columns) columns.length ks).IsSimple)
    (h : t.plannedPage ks columns n 0 = (rows, none)) (hn : t.rows.length ≤ n) :
    let q := t.question ks columns
    let p := Plan.route q columns.length ks
    ∀ r ∈ rowsOf q p, ∃ b, holdsAll (t.scope r) (remaining q p ks) = .ok b := by
  have hlength := length_rowsOf_le (t.question ks columns)
    (Plan.route (t.question ks columns) columns.length ks)
  unfold plannedPage at h
  dsimp only at h ⊢
  split at h
  · exact tried_of_scan h (hlength.trans hn)
  · split at h
    · cases h
    next found hfound =>
    split at hfound
    · next hunion => exact absurd hunion hsimple
    · exact tried_of_sift hfound

theorem mem_plannedPage_union (ht : t.Picks t.rows) {cs : List Term}
    (hsource : (Plan.route (t.question [.any cs] columns) columns.length [.any cs]).source = .union)
    (hsingle : (Plan.route (t.question [.any cs] columns) columns.length [.any cs]).single = false)
    (h : t.plannedPage [.any cs] columns n 0 = (rows, none)) (hn : t.rows.length ≤ n) :
    r ∈ rows ↔ ∃ c ∈ cs, Finds (Plan.subQuestion (t.question [.any cs] columns) c)
      (Plan.subRoute (t.question [.any cs] columns) c) [.one c] r := by
  obtain ⟨place, hplace⟩ := t.place?_rowid
  have horder := Plan.not_inOrder_of_choice (t := t) (q := t.question [.any cs] columns)
    rfl hplace hsource hsingle
  unfold plannedPage at h
  dsimp only at h
  rw [horder, if_neg (by simp)] at h
  split at h
  · cases h
  next found hfound =>
  rw [hsource] at hfound
  have hpicks := picks_unionRows ht rfl hfound
  rw [mem_page_iff h (hpicks.length_le.trans hn)]
  exact mem_unionRows ht rfl hfound

/-- A choice stands alone. -/
theorem conjuncts_eq_of_any {cs : List Term} (h : .any cs ∈ k.conjuncts) :
    k.conjuncts = [.any cs] := by
  unfold Clause.conjuncts at h ⊢
  split at h
  · rw [List.mem_singleton.mp h]
  · obtain ⟨c, -, hc⟩ := List.mem_map.mp h
    cases hc

/-- What is asked about can be looked up without stems. -/
structure Asked (t : Table) (k : Clause) : Prop where
  plain : t.Plain
  unnumbered : ∀ c ∈ k.conjuncts, t.Unnumbered c.terms

namespace Asked

theorem about (h : t.Asked k) (columns : List Nat) :
    (t.question k.conjuncts columns).About t k.conjuncts (Plan.anchors t k.conjuncts) :=
  Plan.about_question h.plain h.unnumbered columns

theorem about_sub (h : t.Asked k) {cs : List Term} (hcs : .any cs ∈ k.conjuncts) {c : Term}
    (hc : c ∈ cs) (columns : List Nat) :
    (Plan.subQuestion (t.question k.conjuncts columns) c).About t [.one c] [] := by
  apply Plan.about_subQuestion h.plain rfl rfl
  intro d hd
  rw [List.mem_singleton.mp hd]
  exact h.unnumbered _ hcs c hc

end Asked

theorem mem_of_mem_remaining {q : Question} {p : Route} {c : Conjunct}
    (h : c ∈ remaining q p ks) : c ∈ ks := by
  by_cases hp : p.IsSimple
  · obtain ⟨f, i, hmem, -⟩ := (Plan.mem_remaining_iff hp).mp h
    exact (List.of_mem_zip (List.fst_mem_of_mem_zipIdx hmem)).1
  · have hunion : p.source = .union := not_not.mp hp
    simp [remaining, hunion] at h

/-- In the rows of a page, every conjunct is true that is tried in rows. -/
theorem holds_of_mem_plannedPage (hk : t.Asked k) (ht : t.Picks t.rows)
    (h : t.plannedPage k.conjuncts columns n 0 = (rows, none)) (hn : t.rows.length ≤ n)
    (hr : r ∈ rows) :
    ∀ c ∈ t.conjunctsWhere k.conjuncts false, holdsConjunct (t.scope r) c = .ok true := by
  intro c hc
  obtain ⟨i, hi, hopen⟩ := mem_conjunctsWhere.mp hc
  rcases Plan.route_cases (hk.about columns) columns.length with
    ⟨hsimple, hstem⟩ | ⟨hsource, hsingle, cs, hcs, hused⟩
  · obtain ⟨hrow, hrest⟩ := (mem_plannedPage_simple hsimple h hn).mp hr
    exact Plan.holds_of_found (hk.about columns) hsimple hstem hrow hrest hi hopen
  · have hsub := fun d hd => hk.about_sub (c := d) hcs hd columns
    obtain rfl : c = .any cs := by
      have hmem := List.fst_mem_of_mem_zipIdx hi
      rw [conjuncts_eq_of_any hcs] at hmem
      exact List.mem_singleton.mp hmem
    rw [conjuncts_eq_of_any hcs] at h hsource hsingle hsub hused
    obtain ⟨d, hd, hrow, hrest⟩ := (mem_plannedPage_union ht hsource hsingle h hn).mp hr
    obtain ⟨hsimple, hstem⟩ := Plan.subRoute_cases (hsub d hd)
    have hsure : Sure (t.scope r) cs := fun e he =>
      (Plan.open_of_used (hsub e he) (hused e he) (t.scope r)).1
    have hopen' : (Plan.factOf t [] 0 (.one d)).settled = false := by
      have hconstant := (Plan.open_of_used (hsub d hd) (hused d hd) (t.scope r)).2
      cases hp : t.place? d.column <;> simp [Plan.factOf, hconstant, Plan.anchorOf?, hp]
    have htrue := Plan.holds_of_found (hsub d hd) hsimple hstem hrow hrest
      (i := 0) (k := .one d) (by simp) hopen'
    exact holdsAny_of_exists hsure hd (holdsConjunct_one_iff.mp htrue)

/-- A choice that is looked up part by part finds the rows in which one of its conditions
is true. -/
theorem mem_plannedPage_of_part (hk : t.Asked k) (ht : t.Picks t.rows)
    (h : t.plannedPage k.conjuncts columns n 0 = (rows, none)) (hn : t.rows.length ≤ n)
    (hr : r ∈ t.rows) {cs : List Term} (hcs : .any cs ∈ k.conjuncts)
    (hsource : (Plan.route (t.question k.conjuncts columns) columns.length k.conjuncts).source =
      .union)
    (hsingle : (Plan.route (t.question k.conjuncts columns) columns.length k.conjuncts).single =
      false)
    {d : Term} (hd : d ∈ cs) (htrue : (Expression.ofTerm d).truth (t.scope r) = .ok (some true)) :
    r ∈ rows := by
  have hsub := fun d hd => hk.about_sub (c := d) hcs hd columns
  rw [conjuncts_eq_of_any hcs] at h hsource hsingle hsub
  obtain ⟨hsimple, hstem⟩ := Plan.subRoute_cases (hsub d hd)
  apply (mem_plannedPage_union ht hsource hsingle h hn).mpr
  refine ⟨d, hd, Plan.found_of_passes (hsub d hd) hsimple hstem hr ?_⟩
  intro c hc
  rw [List.mem_singleton.mp hc]
  exact holdsConjunct_one_iff.mpr htrue

/-- A page that all rows fit in holds every row in which all conjuncts are true. -/
theorem mem_plannedPage_of_passes (hk : t.Asked k) (ht : t.Picks t.rows)
    (h : t.plannedPage k.conjuncts columns n 0 = (rows, none)) (hn : t.rows.length ≤ n)
    (hr : r ∈ t.rows) (hpasses : t.Passes k.conjuncts r) : r ∈ rows := by
  rcases Plan.route_cases (hk.about columns) columns.length with
    ⟨hsimple, hstem⟩ | ⟨hsource, hsingle, cs, hcs, -⟩
  · apply (mem_plannedPage_simple hsimple h hn).mpr
    exact Plan.found_of_passes (hk.about columns) hsimple hstem hr hpasses
  · obtain ⟨d, hd, htrue⟩ := exists_of_holdsAny (hpasses _ hcs)
    exact mem_plannedPage_of_part hk ht h hn hr hcs hsource hsingle hd htrue

/-- A choice that is tried to its end is true if one of its conditions is. -/
theorem holdsAll_of_choice {s : Scope} {cs : List Term} {d : Term} (hd : d ∈ cs)
    (htrue : (Expression.ofTerm d).truth s = .ok (some true)) (hks : ∀ c ∈ ks, c = .any cs)
    {b : Bool} (h : holdsAll s ks = .ok b) : b = true := by
  have hany : ∀ {cs : List Term} {b : Bool}, d ∈ cs → holdsAny s cs = .ok b → b = true := by
    intro cs
    induction cs with
    | nil => simp
    | cons c cs ih =>
      intro b hd h
      obtain ⟨a, ha, h⟩ := bind_eq_ok.mp h
      split at h
      · cases h
        rfl
      · next hfalse =>
        rcases List.mem_cons.mp hd with rfl | hd
        · rw [htrue, Except.ok.injEq] at ha
          exact absurd ha.symm hfalse
        · exact ih hd h
  induction ks with
  | nil =>
    cases h
    rfl
  | cons c ks ih =>
    obtain rfl := hks c List.mem_cons_self
    obtain ⟨a, ha, h⟩ := bind_eq_ok.mp h
    obtain rfl := hany hd ha
    exact ih (fun c hc => hks c (List.mem_cons_of_mem _ hc)) h

/-- A page that all rows fit in holds every row in which one condition of a choice is true,
though others be refused in it. -/
theorem mem_plannedPage_of_choice (hk : t.Asked k) (ht : t.Picks t.rows)
    (h : t.plannedPage k.conjuncts columns n 0 = (rows, none)) (hn : t.rows.length ≤ n)
    (hr : r ∈ t.rows) {cs : List Term} (hcs : .any cs ∈ k.conjuncts) {d : Term} (hd : d ∈ cs)
    (htrue : (Expression.ofTerm d).truth (t.scope r) = .ok (some true)) : r ∈ rows := by
  rcases Plan.route_cases (hk.about columns) columns.length with
    ⟨hsimple, hstem⟩ | ⟨hsource, hsingle, cs', hcs', -⟩
  · apply (mem_plannedPage_simple hsimple h hn).mpr
    have halone : ∀ c ∈ k.conjuncts, c = .any cs := by
      rw [conjuncts_eq_of_any hcs]
      simp
    -- A choice gives hints only if none of its conditions can be refused.
    have hrow : r ∈ rowsOf (t.question k.conjuncts columns)
        (Plan.route (t.question k.conjuncts columns) columns.length k.conjuncts) := by
      refine Plan.mem_rowsOf.mpr ⟨hr, fun u hu hint hget => ?_⟩
      obtain ⟨c, i, hc, hmem⟩ := Plan.mem_hints.mp (List.mem_of_getElem? hget)
      obtain rfl := halone c (List.fst_mem_of_mem_zipIdx hc)
      obtain ⟨p, hp, hhint⟩ := Plan.mem_hintsOf_any hmem
      refine meets_of_holds hmem (by rw [hhint]; simp [Hint.IsStem]) ?_
      exact holdsAny_of_exists (Plan.sure_of_sharedPlace? hp (t.scope r)) hd htrue
    obtain ⟨b, hb⟩ := tried_of_plannedPage hsimple h hn r hrow
    obtain rfl := holdsAll_of_choice hd htrue (fun c hc => halone c (mem_of_mem_remaining hc)) hb
    exact ⟨hrow, hb⟩
  · obtain rfl : cs' = cs := by
      rw [conjuncts_eq_of_any hcs, List.mem_singleton] at hcs'
      exact Conjunct.any.inj hcs'
    exact mem_plannedPage_of_part hk ht h hn hr hcs hsource hsingle hd htrue

/-! ## Pages that are given -/

theorem terms_of_any {cs : List Term} (h : .any cs ∈ k.conjuncts) : k.terms = cs := by
  unfold Clause.conjuncts at h
  split at h
  · next hterms =>
    rw [hterms]
    simpa using (List.mem_singleton.mp h).symm
  · obtain ⟨c, -, hc⟩ := List.mem_map.mp h
    cases hc

theorem exists_unionRows {q : Question} {cs : List Term} (hsure : ∀ s, Sure s cs) :
    ∃ found, unionRows q cs = .ok found := by
  unfold unionRows
  generalize ([] : List Row) = before
  induction cs generalizing before with
  | nil => exact ⟨before, rfl⟩
  | cons c cs ih =>
    have hrest := ih fun s d hd => hsure s d (by simp [hd])
    obtain ⟨more, hmore⟩ : ∃ more, q.table.sift
        (remaining (Plan.subQuestion q c) (Plan.subRoute q c) [.one c])
        (rowsOf (Plan.subQuestion q c) (Plan.subRoute q c)) = .ok more := by
      apply sift_ok
      intro r _
      apply holdsAll_ok
      intro d hd
      rw [List.mem_singleton.mp (mem_of_mem_remaining hd)]
      exact holdsConjunct_one fun e he => hsure _ e (by simp_all)
    simp only [List.foldlM_cons, hmore]
    exact hrest _

/-- Where no condition is refused, neither is a page. -/
theorem exists_plannedPage (hsure : ∀ s, Sure s k.terms) (columns : List Nat)
    (limit offset : Nat) :
    ∃ rows, t.plannedPage k.conjuncts columns limit offset = (rows, none) := by
  have hall : ∀ (q : Question) (p : Route) (r : Row),
      ∃ b, holdsAll (t.scope r) (remaining q p k.conjuncts) = .ok b := by
    intro q p r
    apply holdsAll_ok
    intro c hc
    exact holdsConjunct_ok (hsure _) (mem_of_mem_remaining hc)
  unfold plannedPage
  dsimp only
  split
  · rw [scan_eq fun r _ => hall _ _ r]
    exact ⟨_, rfl⟩
  · split
    · next e he =>
      exfalso
      split at he
      · next cs _ _ hks =>
        have hmem : .any cs ∈ k.conjuncts := by
          rw [hks]
          exact List.mem_cons_self
        have hcs : ∀ s, Sure s cs := by
          rw [← terms_of_any hmem]
          exact hsure
        obtain ⟨found, hfound⟩ := exists_unionRows (q := t.question k.conjuncts columns) hcs
        rw [hfound] at he
        cases he
      · have hsift : ∀ q p, ∃ found, t.sift (remaining q p k.conjuncts) (rowsOf q p) = .ok found :=
          fun q p => sift_ok fun r _ => hall q p r
        obtain ⟨found, hfound⟩ := hsift _ _
        rw [hfound] at he
        cases he
    · exact ⟨_, rfl⟩

/-- Where no condition is refused, a page is given. -/
theorem exists_page (hk : refusesNone k = true) (columns : List Nat) (limit offset : Nat) :
    ∃ rows, t.page k columns limit offset = (rows, none) := by
  have hsure := sure_of_refusesNone hk
  obtain ⟨b, hb⟩ := holdsAll_conjuncts
    (hsure (t.settledScope (Plan.anchors t k.conjuncts))) t true
  unfold page
  dsimp only
  split
  · exact ⟨[], rfl⟩
  rw [hb]
  cases b with
  | false => exact ⟨[], rfl⟩
  | true =>
    dsimp only
    split
    · rw [scan_eq fun r _ => holdsAll_conjuncts (hsure (t.scope r)) t false]
      exact ⟨_, rfl⟩
    · exact exists_plannedPage hsure columns limit offset

/-- A page that all rows fit in holds the rows in which one condition of a choice is true,
as far as they are kept. -/
theorem mem_page_of_choice (hk : t.Asked k) (ht : t.Picks t.rows) (he : t.Exact)
    (h : t.page k columns n 0 = (rows, none)) (hn : t.rows.length < n) (hkept : t.Kept r)
    (hr : r ∈ t.rows) {cs : List Term} (hcs : .any cs ∈ k.conjuncts) {d : Term} (hd : d ∈ cs)
    (htrue : (Expression.ofTerm d).truth (t.scope r) = .ok (some true)) : r ∈ rows := by
  have halone : ∀ c ∈ k.conjuncts, c = .any cs := by
    rw [conjuncts_eq_of_any hcs]
    simp
  unfold page at h
  dsimp only at h
  rw [if_neg (Nat.ne_zero_of_lt hn)] at h
  split at h
  · cases h
  · next hfalse =>
    have hanchored : t.Anchored k.conjuncts r := by
      rw [Anchored, conjuncts_eq_of_any hcs]
      simp [Plan.anchors]
    cases hsettled : t.conjunctsWhere k.conjuncts true with
    | nil =>
      rw [hsettled] at hfalse
      cases hfalse
    | cons c rest =>
      -- Only constants are settled before rows are read, and they are the same in the row.
      have hc : c ∈ t.conjunctsWhere k.conjuncts true := by
        rw [hsettled]
        exact List.mem_cons_self
      obtain ⟨i, hi, hconstant⟩ := mem_conjunctsWhere.mp hc
      obtain rfl := halone c (List.fst_mem_of_mem_zipIdx hi)
      have hsame := truth_of_isConstant he hkept hanchored (List.all_eq_true.mp hconstant d hd)
      have hmust := holdsAll_of_choice hd (hsame.trans htrue)
        (fun c hc => halone c (mem_of_mem_conjunctsWhere hc)) hfalse
      cases hmust
  · split at h
    · obtain ⟨b, hb⟩ := tried_of_scan h hn.le r hr
      obtain rfl := holdsAll_of_choice hd htrue
        (fun c hc => halone c (mem_of_mem_conjunctsWhere hc)) hb
      exact (mem_scan_iff h hn.le).mpr ⟨hr, hb⟩
    · exact mem_plannedPage_of_choice hk ht h hn.le hr hcs hd htrue

/-- A page that all rows fit in holds the rows in which all conjuncts are true, as far
as they are kept and sharp. -/
theorem mem_page (hk : t.Asked k) (ht : t.Picks t.rows) (he : t.Exact)
    (h : t.page k columns n 0 = (rows, none)) (hn : t.rows.length < n) (hkept : t.Kept r)
    (hs : t.Sharp k.conjuncts r) : r ∈ rows ↔ r ∈ t.rows ∧ t.Passes k.conjuncts r := by
  have hselects := selects_iff he hkept hs
  unfold page at h
  dsimp only at h
  rw [if_neg (Nat.ne_zero_of_lt hn)] at h
  split at h
  · cases h
  · next hfalse =>
    obtain ⟨rfl, -⟩ := Prod.mk.inj h
    constructor
    · simp
    · rintro ⟨-, hpasses⟩
      have htrue := hselects.mpr hpasses
      simp [selects, allTrue, hfalse] at htrue
  · next htrue =>
    have hopen : t.selects k r = true ↔
        holdsAll (t.scope r) (t.conjunctsWhere k.conjuncts false) = .ok true := by
      rw [selects, Bool.and_eq_true, allTrue_iff, allTrue_iff, holdsAll_iff]
      constructor
      · exact And.right
      · exact fun hall => ⟨holdsAll_iff.mp htrue, hall⟩
    split at h
    · rw [mem_scan_iff h hn.le, ← hopen, hselects]
    · constructor
      · intro hr
        have hpicks := picks_plannedPage ht k.conjuncts columns n 0
        rw [h] at hpicks
        refine ⟨hpicks.mem r hr, ?_⟩
        rw [← hselects, hopen, holdsAll_iff]
        exact holds_of_mem_plannedPage hk ht h hn.le hr
      · rintro ⟨hr, hpasses⟩
        exact mem_plannedPage_of_passes hk ht h hn.le hr hpasses

end Table

end LiveRecords
