import LiveRecords.Proofs.Conditions
import LiveRecords.Proofs.Equating

/-!
# What is settled before rows are read

A condition that holds a column at a value lets others on that column be settled
before any row is read, with the value in place of the cell. In a row that passes,
the cell is equal to the value, so that every comparison comes to the same. A
pattern does too unless the value is a double and the cell the integer it is equal
to, for which one number is written in two ways.
-/

namespace LiveRecords

open Table.Plan (Conjunct)

namespace Table

variable {t : Table} {ks : List Conjunct} {r : Row} {name : String} {i : Nat}

/-! ## Anchors -/

theorem place?_column (h : t.place? name = some (.column i)) :
    Expression.clock? name = none ∧ t.columnIndex? name = some i := by
  unfold place? at h
  split at h
  · cases h
  next hclock =>
  refine ⟨by simpa using hclock, ?_⟩
  split at h
  · next j hj =>
    cases h
    exact hj
  · split at h <;> cases h

theorem hasColumn_of_columnIndex? (h : t.columnIndex? name = some i) :
    t.hasColumn name = true := by
  obtain ⟨hlt, -⟩ := List.findIdx?_eq_some_iff_getElem.mp h
  rw [hasColumn, ← column?_of_columnIndex? h, List.getElem?_eq_getElem hlt]
  rfl

theorem affinityAt_column (h : t.columnIndex? name = some i) :
    t.affinityAt (.column i) = t.affinity name := by
  rw [affinityAt, columnAt?, column?_of_columnIndex? h, affinity]
  cases t.column? name <;> rfl

theorem collationAt_column (h : t.columnIndex? name = some i) :
    t.collationAt (.column i) = t.collation name := by
  rw [collationAt, columnAt?, column?_of_columnIndex? h, collation]
  cases t.column? name <;> rfl

namespace Plan

/-- An anchor is made by a conjunct that holds a column at a value. -/
def Anchor.MadeBy (t : Table) (ks : List (Conjunct × Nat)) (a : Anchor) : Prop :=
  ∃ c param v, (.one (.compare c .equals param v), a.conjunct) ∈ ks ∧
    t.place? c = some a.place ∧ t.collationAt a.place = .binary ∧
    a.value = (t.affinityAt a.place).store (.ofValue v)

theorem anchors_made (t : Table) (ks : List Conjunct) :
    (∀ a ∈ anchors t ks, a.MadeBy t ks.zipIdx) ∧
      (anchors t ks).Pairwise fun a b => a.place ≠ b.place := by
  unfold anchors
  -- What the anchors found so far keep while one more conjunct is looked at.
  refine List.foldlRecOn ks.zipIdx.reverse _
    (motive := fun found : List Anchor => (∀ a ∈ found, a.MadeBy t ks.zipIdx) ∧
      found.Pairwise fun a b => a.place ≠ b.place) ⟨by simp, .nil⟩ ?_
  rintro found h ⟨k, i⟩ he
  dsimp only
  split
  · next c param v =>
    split
    · next p hp =>
      split
      · next hfree =>
        simp only [Bool.and_eq_true, beq_iff_eq, Bool.not_eq_true', List.any_eq_false] at hfree
        constructor
        · intro a ha
          rcases List.mem_append.mp ha with ha | ha
          · exact h.1 a ha
          · rw [List.mem_singleton.mp ha]
            exact ⟨c, param, v, List.mem_reverse.mp he, hp, hfree.1, rfl⟩
        · rw [List.pairwise_append]
          refine ⟨h.2, by simp, ?_⟩
          intro a ha b hb
          rw [List.mem_singleton.mp hb]
          exact hfree.2 a ha
      · exact h
    · exact h
  · exact h

/-- There is one anchor at a place. -/
theorem find?_anchor {as : List Anchor} (h : as.Pairwise fun a b => a.place ≠ b.place)
    {a : Anchor} (ha : a ∈ as) : as.find? (·.place == a.place) = some a := by
  induction as with
  | nil => simp at ha
  | cons b as ih =>
    rw [List.pairwise_cons] at h
    rw [List.find?_cons]
    rcases List.mem_cons.mp ha with rfl | ha
    · simp
    · have hne : (b.place == a.place) = false := by simpa using h.1 a ha
      rw [hne]
      exact ih h.2 ha

end Plan

open Expression (seen)

/-! ## Rows and what is settled -/

/-- A row as a database keeps it: its cells are as their columns store them, and no
null stands where none can. -/
structure Kept (t : Table) (r : Row) : Prop where
  stored : ∀ name, t.hasColumn name = true →
    (t.affinity name).store (t.cell r name) = t.cell r name
  given : ∀ name c, t.column? name = some c → c.notNull.isSome = true →
    (t.cell r name).isNull = false

/-- No pattern is tried on a number that is written in another way in the row than
in the value that it is held at. -/
def Sharp (t : Table) (ks : List Conjunct) (r : Row) : Prop :=
  ∀ c param v d param' u, .one (.compare c .equals param v) ∈ ks →
    .one (.compare d .like param' u) ∈ ks → t.place? c = t.place? d →
    ¬(t.cell r c).Twofold ((t.affinity c).store (.ofValue v))

/-- No column turns integers into doubles. -/
def Exact (t : Table) : Prop := ∀ c ∈ t.columns, c.affinity ≠ .real

/-- The conjuncts that hold a place at a value are true in the row. -/
def Anchored (t : Table) (ks : List Conjunct) (r : Row) : Prop :=
  ∀ a ∈ Plan.anchors t ks, ∀ k, (k, a.conjunct) ∈ ks.zipIdx →
    holdsConjunct (t.scope r) k = .ok true

variable {as : List Plan.Anchor} {p : Place} {c : Term}

theorem place?_number (h : t.place? name = some .number) :
    Expression.clock? name = none ∧ t.columnIndex? name = none ∧ isRowNumberName name = true := by
  unfold place? at h
  split at h
  · cases h
  next hclock =>
  split at h
  · cases h
  next hindex =>
  split at h
  · next hname => exact ⟨by simpa using hclock, hindex, hname⟩
  · cases h

theorem column?_of_columnIndex?_none (h : t.columnIndex? name = none) :
    t.column? name = none := by
  rw [columnIndex?, List.findIdx?_eq_none_iff] at h
  rw [column?, List.find?_eq_none]
  simpa using h

/-- Two words for one place mean one entry of a row. -/
theorem cell_of_place? {name' : String} (h : t.place? name = some p)
    (h' : t.place? name' = some p) (r : Row) : t.cell r name = t.cell r name' := by
  cases p with
  | number =>
    obtain ⟨-, hi, hn⟩ := place?_number h
    obtain ⟨-, hj, hm⟩ := place?_number h'
    simp [cell, hi, hj, hn, hm]
  | column i =>
    obtain ⟨-, hi⟩ := place?_column h
    obtain ⟨-, hj⟩ := place?_column h'
    simp [cell, hi, hj]

theorem affinity_of_place? (h : t.place? name = some p) : t.affinity name = t.affinityAt p := by
  cases p with
  | number =>
    have hcolumn := column?_of_columnIndex?_none (place?_number h).2.1
    simp [affinity, hcolumn, affinityAt, columnAt?]
  | column i => exact (affinityAt_column (place?_column h).2).symm

/-- In a row, a word for a place is compared as the entry there. -/
theorem seen_row (h : t.place? name = some p) :
    seen (t.scope r) name = ⟨t.cell r name, t.affinityAt p, t.collationAt p⟩ := by
  cases p with
  | number =>
    obtain ⟨hclock, hindex, hname⟩ := place?_number h
    have hcolumn := column?_of_columnIndex?_none hindex
    rw [seen_scope hclock (by simp [resolves, hname])]
    simp [affinity, collation, hcolumn, affinityAt, collationAt, columnAt?]
  | column i =>
    obtain ⟨hclock, hindex⟩ := place?_column h
    rw [seen_scope hclock (by simp [resolves, hasColumn_of_columnIndex? hindex]),
      affinityAt_column hindex, collationAt_column hindex]

theorem seen_settled (h : t.place? name = some p) :
    seen (t.settledScope as) name =
      (((as.find? (·.place == p)).map fun a =>
        (⟨a.value, t.affinityAt p, t.collationAt p⟩ : Binding)).getD
          ⟨.integer 0, t.affinityAt p, t.collationAt p⟩) := by
  have hclock : Expression.clock? name = none := by
    cases p with
    | number => exact (place?_number h).1
    | column i => exact (place?_column h).1
  simp [seen, hclock, Expression.lookUp, settledScope, Plan.anchoredScope, h]

/-- A word for no place means the same in every row and before all of them. -/
theorem seen_constant (h : t.place? name = none) :
    seen (t.settledScope as) name = seen (t.scope r) name := by
  cases hclock : Expression.clock? name with
  | some c => simp [seen, hclock]
  | none =>
    have hrow : t.scope r name = none := by
      unfold place? at h
      rw [hclock, if_neg (by simp)] at h
      split at h
      · cases h
      next hindex =>
      split at h
      · cases h
      next hname =>
      simp [scope, resolves, hasColumn, column?_of_columnIndex?_none hindex, hname]
    have hsettled : t.settledScope as name = none := by simp [settledScope, h]
    simp [seen, hclock, Expression.lookUp, hrow, hsettled]

theorem Kept.stored_at (hr : t.Kept r) (h : t.place? name = some p) :
    (t.affinityAt p).store (t.cell r name) = t.cell r name := by
  cases p with
  | number =>
    obtain ⟨-, hindex, hname⟩ := place?_number h
    simp [cell, hindex, hname, affinityAt, columnAt?, Affinity.store, Cell.numeric,
      Cell.integral]
  | column i =>
    obtain ⟨-, hindex⟩ := place?_column h
    rw [affinityAt_column hindex]
    exact hr.stored name (hasColumn_of_columnIndex? hindex)

theorem Kept.given_at (hr : t.Kept r) (h : t.place? name = some p)
    (hp : t.isNullable p = false) : (t.cell r name).isNull = false := by
  cases p with
  | number =>
    obtain ⟨-, hindex, hname⟩ := place?_number h
    simp [cell, hindex, hname, Cell.isNull]
  | column i =>
    obtain ⟨-, hindex⟩ := place?_column h
    obtain ⟨hlt, -⟩ := List.findIdx?_eq_some_iff_getElem.mp hindex
    have hcolumn := column?_of_columnIndex? hindex
    rw [List.getElem?_eq_getElem hlt] at hcolumn
    apply hr.given name _ hcolumn.symm
    simp only [isNullable, columnAt?, List.getElem?_eq_getElem hlt, Option.any_some] at hp
    cases hnull : t.columns[i].notNull with
    | none => simp [hnull] at hp
    | some e => rfl

theorem Exact.affinityAt (he : t.Exact) (p : Place) : t.affinityAt p ≠ .real := by
  unfold Table.affinityAt
  cases hp : t.columnAt? p with
  | none => simp
  | some c =>
    cases p with
    | number => cases hp
    | column i => exact he c (List.mem_of_getElem? hp)

/-- The value that a place is held at is equal to the entry of a row that passes. -/
theorem equal_anchor (he : t.Exact) (hr : t.Kept r) (ha : t.Anchored ks r)
    {a : Plan.Anchor} (hmem : a ∈ Plan.anchors t ks) (h : t.place? name = some a.place) :
    (t.cell r name).Equal a.value := by
  obtain ⟨c, param, v, hk, hplace, hbinary, hvalue⟩ := (Plan.anchors_made t ks).1 a hmem
  have htrue := holdsConjunct_one_iff.mp (ha a hmem _ hk)
  simp only [Expression.ofTerm] at htrue
  rw [truth_compare, seen_row hplace, hbinary, Except.ok.injEq] at htrue
  rw [cell_of_place? h hplace r, hvalue]
  exact Affinity.equal_store (he.affinityAt _) (hr.stored_at hplace) htrue

/-- A condition about constants comes to the same before rows are read. -/
theorem truth_of_isConstant (he : t.Exact) (hr : t.Kept r) (ha : t.Anchored ks r)
    (h : Plan.isConstant t c = true) :
    (Expression.ofTerm c).truth (t.settledScope (Plan.anchors t ks)) =
      (Expression.ofTerm c).truth (t.scope r) := by
  cases hp : t.place? c.column with
  | none => exact truth_congr (seen_constant hp)
  | some p =>
    -- Only tests for a null are settled then, and neither the row nor the value has one.
    have hnull : t.isNullable p = false →
        (seen (t.settledScope (Plan.anchors t ks)) c.column).cell.isNull =
          (seen (t.scope r) c.column).cell.isNull := by
      intro hnull
      rw [seen_settled hp, seen_row hp, hr.given_at hp hnull]
      cases hfind : (Plan.anchors t ks).find? (·.place == p) with
      | none => rfl
      | some a =>
        obtain rfl : a.place = p := by simpa using List.find?_some hfind
        have hequal := equal_anchor he hr ha (List.mem_of_find?_eq_some hfind) hp
        rw [Option.map_some, Option.getD_some, ← hequal.isNull]
        exact hr.given_at hp hnull
    unfold Plan.isConstant at h
    rw [hp] at h
    cases c with
    | isNull word =>
      simp only [Expression.ofTerm, truth_isNull, Term.column] at hnull ⊢
      rw [hnull (by simpa using h)]
    | isNotNull word =>
      simp only [Expression.ofTerm, truth_isNotNull, Term.column] at hnull ⊢
      rw [hnull (by simpa using h)]
    | compare word op param v => cases h
    | between word low lo high hi => cases h

/-- A condition comes to the same on cells that are equal, a pattern on the same. -/
theorem truth_equal {s s' : Scope} {a : Affinity} {x w : Cell}
    (h : seen s c.column = ⟨w, a, .binary⟩) (h' : seen s' c.column = ⟨x, a, .binary⟩)
    (hequal : x.Equal w) (hstored : a.store x = x)
    (hlike : ∀ word param u, c = .compare word .like param u → x = w) :
    (Expression.ofTerm c).truth s = (Expression.ofTerm c).truth s' := by
  have hcompare := Affinity.compareCells_equal hequal hstored
  cases c with
  | isNull word =>
    simp only [Expression.ofTerm, truth_isNull, Term.column] at h h' ⊢
    rw [h, h', hequal.isNull]
  | isNotNull word =>
    simp only [Expression.ofTerm, truth_isNotNull, Term.column] at h h' ⊢
    rw [h, h', hequal.isNull]
  | between word low lo high hi =>
    simp only [Expression.ofTerm, truth_between, Term.column] at h h' ⊢
    rw [h, h', hcompare, hcompare]
  | compare word op param u =>
    cases op with
    | like =>
      simp only [Expression.ofTerm, truth_like, Term.column] at h h' ⊢
      rw [h, h', hlike word param u rfl]
    | _ =>
      simp only [Expression.ofTerm, truth_compare, Term.column] at h h' ⊢
      rw [h, h', hcompare]

/-- A condition on a column that is held at a value comes to the same with it. -/
theorem truth_of_anchorOf? (he : t.Exact) (hr : t.Kept r) (hs : t.Sharp ks r)
    (ha : t.Anchored ks r)
    (hc : .one c ∈ ks) {i : Nat} {a : Plan.Anchor}
    (h : Plan.anchorOf? t (Plan.anchors t ks) i c = some a) :
    (Expression.ofTerm c).truth (t.settledScope (Plan.anchors t ks)) =
      (Expression.ofTerm c).truth (t.scope r) := by
  unfold Plan.anchorOf? at h
  obtain ⟨p, hp, h⟩ := Option.bind_eq_some_iff.mp h
  obtain ⟨hfind, -⟩ := Option.filter_eq_some_iff.mp h
  have hmem := List.mem_of_find?_eq_some hfind
  obtain rfl : a.place = p := by
    have hplace := List.find?_some hfind
    simp only [Bool.and_eq_true, beq_iff_eq] at hplace
    exact hplace.1
  obtain ⟨d, param, v, hk, hplace, hbinary, hvalue⟩ := (Plan.anchors_made t ks).1 a hmem
  have hequal := equal_anchor he hr ha hmem hp
  have hrow := seen_row (r := r) hp
  have hsettled : seen (t.settledScope (Plan.anchors t ks)) c.column =
      ⟨a.value, t.affinityAt a.place, t.collationAt a.place⟩ := by
    rw [seen_settled hp, Plan.find?_anchor (Plan.anchors_made t ks).2 hmem]
    rfl
  rw [hbinary] at hrow hsettled
  apply truth_equal hsettled hrow hequal (hr.stored_at hp)
  rintro word param' u rfl
  have hcell : t.cell r word = t.cell r d := cell_of_place? hp hplace r
  have hd : .one (.compare d .equals param v) ∈ ks := List.fst_mem_of_mem_zipIdx hk
  by_contra hne
  have htwo : (t.cell r word).Twofold a.value := ⟨hequal, hne⟩
  rw [hcell, hvalue, ← affinity_of_place? hplace] at htwo
  exact hs d param v word param' u hd hc (hplace.trans hp.symm) htwo

/-- What is settled before rows are read comes to what it is in a row that passes. -/
theorem holdsConjunct_of_settled (he : t.Exact) (hr : t.Kept r) (hs : t.Sharp ks r)
    (ha : t.Anchored ks r) {k : Conjunct} {i : Nat} (hk : k ∈ ks)
    (h : (Plan.factOf t (Plan.anchors t ks) i k).settled = true) :
    holdsConjunct (t.settledScope (Plan.anchors t ks)) k = holdsConjunct (t.scope r) k := by
  cases k with
  | one c =>
    have htruth : (Expression.ofTerm c).truth (t.settledScope (Plan.anchors t ks)) =
        (Expression.ofTerm c).truth (t.scope r) := by
      simp only [Plan.factOf, Bool.or_eq_true] at h
      rcases h with h | h
      · exact truth_of_isConstant he hr ha h
      · obtain ⟨a, hanchor⟩ := Option.isSome_iff_exists.mp h
        exact truth_of_anchorOf? he hr hs ha hk hanchor
    simp only [holdsConjunct, htruth]
  | any cs =>
    have hall : ∀ c ∈ cs, (Expression.ofTerm c).truth (t.settledScope (Plan.anchors t ks)) =
        (Expression.ofTerm c).truth (t.scope r) := by
      intro c hc
      exact truth_of_isConstant he hr ha (List.all_eq_true.mp h c hc)
    show holdsAny _ cs = holdsAny _ cs
    clear h hk
    induction cs with
    | nil => rfl
    | cons c cs ih =>
      simp only [holdsAny, hall c (by simp)]
      rw [ih fun d hd => hall d (by simp [hd])]

/-! ## Rows that are selected -/

theorem mem_conjunctsWhere {settled : Bool} {k : Conjunct} :
    k ∈ t.conjunctsWhere ks settled ↔ ∃ i, (k, i) ∈ ks.zipIdx ∧
      (Plan.factOf t (Plan.anchors t ks) i k).settled = settled := by
  unfold conjunctsWhere
  rw [List.mem_filterMap]
  constructor
  · rintro ⟨⟨d, i⟩, hd, h⟩
    dsimp only at h
    split at h
    · next hsettled =>
      cases h
      exact ⟨i, hd, by simpa using hsettled⟩
    · cases h
  · rintro ⟨i, hd, h⟩
    exact ⟨(k, i), hd, by simp [h]⟩

theorem eq_of_mem_zipIdx {k k' : Conjunct} {i : Nat} (hk : (k, i) ∈ ks.zipIdx)
    (hk' : (k', i) ∈ ks.zipIdx) : k = k' := by
  have hget := List.mem_zipIdx_iff_getElem?.mp hk
  have hget' := List.mem_zipIdx_iff_getElem?.mp hk'
  exact Option.some.inj (hget.symm.trans hget')

/-- The conjunct that holds a place at a value is tried in every row. -/
theorem anchor_not_settled {a : Plan.Anchor} (ha : a ∈ Plan.anchors t ks) {k : Conjunct}
    (hk : (k, a.conjunct) ∈ ks.zipIdx) :
    (Plan.factOf t (Plan.anchors t ks) a.conjunct k).settled = false := by
  obtain ⟨c, param, v, hc, hplace, -⟩ := (Plan.anchors_made t ks).1 a ha
  obtain rfl := eq_of_mem_zipIdx hk hc
  have hfind : (Plan.anchors t ks).find?
      (fun b => b.place == a.place && b.conjunct != a.conjunct) = none := by
    rw [List.find?_eq_none]
    intro b hb
    by_cases hplace' : b.place = a.place
    · have hba : some b = some a := by
        rw [← Plan.find?_anchor (Plan.anchors_made t ks).2 hb, hplace',
          Plan.find?_anchor (Plan.anchors_made t ks).2 ha]
      simp [Option.some.inj hba]
    · simp [hplace']
  simp [Plan.factOf, Plan.isConstant, Term.column, hplace, Plan.anchorOf?, hfind]

/-- A row that is kept and sharp is selected if all conjuncts are true in it. -/
theorem selects_iff {k : Clause} (he : t.Exact) (hr : t.Kept r)
    (hs : t.Sharp k.conjuncts r) :
    t.selects k r = true ↔ t.Passes k.conjuncts r := by
  have hsplit : ∀ c ∈ k.conjuncts, (c ∈ t.conjunctsWhere k.conjuncts true) ∨
      c ∈ t.conjunctsWhere k.conjuncts false := by
    intro c hc
    obtain ⟨i, hi, hget⟩ := List.mem_iff_getElem.mp hc
    have hmem : (c, i) ∈ k.conjuncts.zipIdx := by
      rw [List.mem_zipIdx_iff_getElem?, List.getElem?_eq_getElem hi, hget]
    cases hsettled : (Plan.factOf t (Plan.anchors t k.conjuncts) i c).settled with
    | true => exact .inl (mem_conjunctsWhere.mpr ⟨i, hmem, hsettled⟩)
    | false => exact .inr (mem_conjunctsWhere.mpr ⟨i, hmem, hsettled⟩)
  have hsame : t.Anchored k.conjuncts r → ∀ c ∈ t.conjunctsWhere k.conjuncts true,
      holdsConjunct (t.settledScope (Plan.anchors t k.conjuncts)) c =
        holdsConjunct (t.scope r) c := by
    intro ha c hc
    obtain ⟨i, hi, hsettled⟩ := mem_conjunctsWhere.mp hc
    exact holdsConjunct_of_settled he hr hs ha (List.fst_mem_of_mem_zipIdx hi) hsettled
  rw [selects, Bool.and_eq_true, allTrue_iff, allTrue_iff]
  constructor
  · rintro ⟨hsettled, hopen⟩ c hc
    have ha : t.Anchored k.conjuncts r := by
      intro a hmem d hd
      exact hopen d (mem_conjunctsWhere.mpr ⟨a.conjunct, hd, anchor_not_settled hmem hd⟩)
    rcases hsplit c hc with h | h
    · rw [← hsame ha c h]
      exact hsettled c h
    · exact hopen c h
  · intro hpasses
    have ha : t.Anchored k.conjuncts r := by
      intro a _ d hd
      exact hpasses d (List.fst_mem_of_mem_zipIdx hd)
    constructor
    · intro c hc
      rw [hsame ha c hc]
      exact hpasses c (mem_of_mem_conjunctsWhere hc)
    · intro c hc
      exact hpasses c (mem_of_mem_conjunctsWhere hc)

end Table

end LiveRecords
