import LiveRecords.Proofs.Declaring

/-!
# Pages in order

The rows of a page come in the order of their numbers, where `rowid` means those, whatever
plan leads to them. Rows that come in another order are put in this one, and only along the
index of a key might they be taken for sorted when they are not; but that happens only where
the key is held at a value, and then there is one row at most.
-/

namespace LiveRecords

open Table (Collation Expression Place Row)
open Table.Plan (Anchor Conjunct Hint Index Magnitude Question Route)

namespace Table

variable {t : Table} {ks : List Conjunct} {rows : List Row} {r : Row} {k : Clause}

/-! ## Rows that are sorted -/

theorem sorted_putInto {measure : Row → Int} {comesFirst : Row → Row → Bool}
    (h : ∀ a b, comesFirst a b = true ↔ measure a ≤ measure b)
    (hrows : rows.Pairwise fun a b => measure a ≤ measure b) :
    (putInto comesFirst r rows).Pairwise fun a b => measure a ≤ measure b := by
  induction rows with
  | nil => exact List.pairwise_singleton _ _
  | cons s rows ih =>
    obtain ⟨hs, hrest⟩ := List.pairwise_cons.mp hrows
    unfold putInto
    split
    · next hfirst =>
      have hle := (h r s).mp hfirst
      refine List.pairwise_cons.mpr ⟨fun q hq => ?_, hrows⟩
      rcases List.mem_cons.mp hq with rfl | hq
      · exact hle
      · exact hle.trans (hs q hq)
    · next hlater =>
      have hlt : measure s < measure r := Int.not_le.mp (mt (h r s).mpr hlater)
      refine List.pairwise_cons.mpr ⟨fun q hq => ?_, ih hrest⟩
      rcases List.mem_cons.mp ((putInto_perm _ _ _).mem_iff.mp hq) with rfl | hq
      · exact hlt.le
      · exact hs q hq

theorem sorted_ordered {measure : Row → Int} {comesFirst : Row → Row → Bool}
    (h : ∀ a b, comesFirst a b = true ↔ measure a ≤ measure b) (rows : List Row) :
    (ordered comesFirst rows).Pairwise fun a b => measure a ≤ measure b := by
  induction rows with
  | nil => exact .nil
  | cons r rows ih => exact sorted_putInto h ih

theorem columnIndex?_rowid (h : t.meansNumber "rowid" = true) : t.columnIndex? "rowid" = none := by
  rw [meansNumber, Bool.and_eq_true, Bool.not_eq_true'] at h
  cases hi : t.columnIndex? "rowid" with
  | none => rfl
  | some i =>
    rw [hasColumn_of_columnIndex? hi] at h
    cases h.1

theorem place?_number_of_rowid (h : t.meansNumber "rowid" = true) :
    t.place? "rowid" = some .number := by
  obtain ⟨p, hp⟩ := t.place?_rowid
  cases p with
  | number => exact hp
  | column i =>
    have hi := (place?_column hp).2
    rw [columnIndex?_rowid h] at hi
    cases hi

theorem cell_rowid (h : t.meansNumber "rowid" = true) (r : Row) :
    t.cell r "rowid" = .integer (Int64.ofInt r.number) := by
  have hname : isRowNumberName "rowid" = true := by decide
  rw [cell, columnIndex?_rowid h]
  exact if_pos hname

/-- Rows are put in the order of their numbers as cells hold them. -/
theorem sorted_inOrder (h : t.meansNumber "rowid" = true) (rows : List Row) :
    (t.inOrder rows).Pairwise fun a b =>
      (Int64.ofInt a.number).toInt ≤ (Int64.ofInt b.number).toInt := by
  refine sorted_ordered (fun a b => ?_) rows
  rw [cell_rowid h, cell_rowid h, Cell.compareBy, bne_iff_ne]
  exact compare_le_iff_le

/-! ## Hints that hold a place -/

namespace Plan

variable {q : Question} {p : Route} {h : Hint} {i : Nat} {c : Term} {part : Place × Collation}

/-- What is known of a hint by the condition that gives it: it is about the place that the
condition names; it holds it at a value only if the condition does, and at null only where
null can be. -/
structure Hint.Suits (t : Table) (c : Term) (h : Hint) : Prop where
  place : t.place? c.column = some h.place
  equates : h.bound = .equal →
    h.condition = Expression.ofTerm c ∧ ∃ n param v, c = .compare n .equals param v
  nullable : h.bound = .null → t.isNullable h.place = true

theorem Hint.suits_of_bound (hp : t.place? c.column = some h.place) (hequal : h.bound ≠ .equal)
    (hnull : h.bound ≠ .null) : h.Suits t c :=
  ⟨hp, fun hb => absurd hb hequal, fun hb => absurd hb hnull⟩

theorem suits_of_hint (hh : h ∈ hintsOf t i c) : h.Suits t c := by
  unfold hintsOf at hh
  split at hh
  · simp at hh
  next p hp =>
  cases c with
  | compare n op param v =>
    cases op with
    | equals =>
      rw [List.mem_singleton.mp hh]
      exact ⟨hp, fun _ => ⟨rfl, n, param, v, rfl⟩, by simp⟩
    | like =>
      obtain ⟨hstem, rfl, -⟩ := mem_stemHints hh
      rcases hstem with hstem | hstem <;>
        exact Hint.suits_of_bound hp (by simp [hstem]) (by simp [hstem])
    | notEquals => simp at hh
    | _ =>
      rw [List.mem_singleton.mp hh]
      exact Hint.suits_of_bound hp (by simp) (by simp)
  | between n low lo high hi =>
    dsimp only at hh
    simp only [List.mem_cons, List.not_mem_nil, or_false] at hh
    rcases hh with rfl | rfl <;> exact Hint.suits_of_bound hp (by simp) (by simp)
  | isNull n =>
    dsimp only at hh
    split at hh
    · next hnull =>
      rw [List.mem_singleton.mp hh]
      exact ⟨hp, by simp, fun _ => hnull⟩
    · simp at hh
  | isNotNull n =>
    dsimp only at hh
    split at hh
    · rw [List.mem_singleton.mp hh]
      exact Hint.suits_of_bound hp (by simp) (by simp)
    · simp at hh

/-! ## Routes along the index of a key -/

/-- A route along an index holds it from its first part on, and at a value if it leads to
one row at most. -/
structure Route.Starts (q : Question) (ix : Index) (part : Place × Collation) (p : Route) :
    Prop where
  along : q.index p.source = ix
  bears : ∀ u ∈ p.held.head?, ∃ h, q.hints[u]? = some h ∧ h.bears part = true
  single : p.single = true → ∃ u ∈ p.held.head?, ∃ h, q.hints[u]? = some h ∧ h.bound = .equal

variable {ix : Index}

theorem Route.starts_of_free (halong : q.index p.source = ix) (hheld : p.held = [])
    (hsingle : p.single = false) : p.Starts q ix part where
  along := halong
  bears u hu := by simp [hheld] at hu
  single h := by simp [hsingle] at h

theorem Route.Starts.free (hp : p.Starts q ix part) (hheld : p.held = []) : p.single = false := by
  by_contra hsingle
  obtain ⟨u, hu, -⟩ := hp.single (by simpa using hsingle)
  simp [hheld] at hu

/-- No hint bears on the numbers of rows, so that a route holds one part at most. -/
theorem Route.Starts.goesOn {p' : Route} (hix : ix.parts = [part, (.number, .binary)])
    (hnumber : ∀ h ∈ q.hints, h.place ≠ .number) (hp : p.Starts q ix part)
    (h : q.GoesOn ix p p') : p'.Starts q ix part := by
  have hfirst : ∀ {u hint}, q.Offers ix p u hint → p.held = [] ∧ hint.bears part = true := by
    intro u hint hoffers
    obtain ⟨part', hpart, hbears⟩ := hoffers.bears
    rw [hix] at hpart
    cases hheld : p.held with
    | nil =>
      obtain rfl : part = part' := by simpa [hheld] using hpart
      exact ⟨rfl, hbears⟩
    | cons v vs =>
      rw [hheld] at hpart
      cases vs with
      | nil =>
        obtain rfl : (Place.number, Collation.binary) = part' := by simpa using hpart
        simp only [Hint.bears, Bool.and_eq_true, beq_iff_eq] at hbears
        exact absurd hbears.1 (hnumber hint (List.mem_of_getElem? hoffers.hint))
      | cons w ws => simp at hpart
  cases h with
  | @hold u hint single hoffers _ hequal =>
    obtain ⟨hheld, hbears⟩ := hfirst hoffers
    have hfree := hp.free hheld
    refine ⟨hp.along, fun v hv => ?_, fun hone => ?_⟩
    · obtain rfl : u = v := by simpa [hheld] using hv
      exact ⟨hint, hoffers.hint, hbears⟩
    · exact ⟨u, by simp [hheld], hint, hoffers.hint, hequal (by simpa [hfree] using hone)⟩
  | low | high | stem => exact ⟨hp.along, hp.bears, hp.single⟩

theorem starts_extend (hix : ix.parts = [part, (.number, .binary)])
    (hnumber : ∀ h ∈ q.hints, h.place ≠ .number) {fuel : Nat} {count times : Magnitude}
    {s : Route} (hp : p.Starts q ix part) (h : s ∈ q.extend ix fuel p count times) :
    s.Starts q ix part :=
  Question.extend_induction (fun ho => ⟨ho.along, ho.bears, ho.single⟩)
    (fun ho hgoes => ho.goesOn hix hnumber hgoes) hp h

theorem starts_scanIndex {helps : Bool} {s : Route} (hp : p.Starts q ix part)
    (h : s ∈ q.scanIndex p ix helps) : s.Starts q ix part := by
  unfold Question.scanIndex at h
  split at h
  · rw [List.mem_singleton.mp h]
    exact ⟨hp.along, hp.bears, hp.single⟩
  · simp at h

theorem index_of_mem (hq : q.indexes = [ix]) {ix' : Index} {j : Nat}
    (h : (ix', j) ∈ q.indexes.zipIdx) : ix' = ix ∧ q.index (.index j) = ix := by
  rw [hq] at h
  obtain ⟨rfl, rfl⟩ : ix' = ix ∧ j = 0 := by simpa using h
  exact ⟨rfl, by simp [Question.index, hq]⟩

theorem starts_routes (hq : q.indexes = [ix]) (hix : ix.parts = [part, (.number, .binary)])
    (hnumber : ∀ h ∈ q.hints, h.place ≠ .number) {j : Nat} (hp : p ∈ q.routes)
    (hsource : p.source = .index j) : p.Starts q ix part := by
  simp only [Question.routes, List.mem_append, List.mem_cons, List.mem_flatMap] at hp
  rcases hp with (rfl | hp) | ⟨⟨ix', i⟩, hmem, hp | hp⟩
  · cases hsource
  · rw [Question.source_extend hp] at hsource
    cases hsource
  · obtain ⟨rfl, halong⟩ := index_of_mem hq hmem
    exact starts_scanIndex (Route.starts_of_free halong rfl rfl) hp
  · obtain ⟨rfl, halong⟩ := index_of_mem hq hmem
    exact starts_extend hix hnumber (Route.starts_of_free halong rfl rfl) hp

theorem starts_shortCut? (hq : q.indexes = [ix]) (hix : ix.parts = [part, (.number, .binary)])
    {j : Nat} (h : q.shortCut? = some p) (hsource : p.source = .index j) : p.Starts q ix part := by
  unfold Question.shortCut? at h
  dsimp only at h
  split at h
  · cases h
    cases hsource
  · obtain ⟨⟨ix', i⟩, hmem, h⟩ := List.exists_of_findSome?_eq_some h
    obtain ⟨rfl, halong⟩ := index_of_mem hq hmem
    obtain ⟨held, hheld, rfl⟩ := Option.map_eq_some_iff.mp h
    have hwidth : ix'.parts.take ix'.width = [part] := by simp [Index.width, hix]
    rw [hwidth] at hheld
    simp only [List.mapM_cons, List.mapM_nil, Option.bind_eq_bind, Option.bind_eq_some_iff,
      Option.pure_def, Option.some.injEq] at hheld
    obtain ⟨u, hu, us, rfl, rfl⟩ := hheld
    obtain ⟨⟨hint, v⟩, hfind, rfl⟩ := Option.map_eq_some_iff.mp hu
    have hget := List.mem_zipIdx_iff_getElem?.mp (List.mem_of_find?_eq_some hfind)
    have hfound := List.find?_some hfind
    simp only [Bool.and_eq_true, beq_iff_eq] at hfound
    refine ⟨halong, fun u hu => ?_, fun _ => ⟨v, by simp, hint, hget, hfound.1⟩⟩
    obtain rfl : v = u := by simpa using hu
    exact ⟨hint, hget, hfound.2⟩

/-- The route that is chosen holds the key from its first part on, if it goes along the
index of the key. -/
theorem starts_route (hq : q.indexes = [ix]) (hix : ix.parts = [part, (.number, .binary)])
    (hnumber : ∀ h ∈ q.hints, h.place ≠ .number) {columns j : Nat}
    (hsource : (route q columns ks).source = .index j) : (route q columns ks).Starts q ix part := by
  unfold route at hsource ⊢
  split
  · next p hp =>
    rw [hp] at hsource
    exact starts_shortCut? hq hix hp hsource
  · next hp =>
    rw [hp] at hsource
    dsimp only at hsource ⊢
    generalize hunions : List.filterMap _ ks = unions at hsource ⊢
    cases hp : q.choice columns (Route.gather (q.routes ++ unions)) with
    | none =>
      rw [hp] at hsource
      cases hsource
    | some p =>
      rw [hp, Option.getD_some] at hsource
      obtain ⟨o, ho, cost, count, rfl⟩ := Route.mem_gather (Question.mem_choice hp)
      rcases List.mem_append.mp ho with ho | ho
      · have hstarts := starts_routes hq hix hnumber ho hsource
        exact ⟨hstarts.along, hstarts.bears, hstarts.single⟩
      · rw [← hunions] at ho
        obtain ⟨k, -, hunion⟩ := List.mem_filterMap.mp ho
        cases k with
        | one c => cases hunion
        | any cs =>
          have hunion := (unionRoute?_eq_some hunion).1
          rw [show o.source = .index j from hsource] at hunion
          cases hunion

/-- Along the index of a key the rows come in order only if the key is held. -/
theorem held_of_inOrder (hix : ix.parts = [part, (.number, .binary)])
    (hpart : part.1 ≠ .number) (hnumber : ∀ h ∈ q.hints, h.place ≠ .number)
    (horder : q.order = some .number) {j : Nat} (hsource : p.source = .index j)
    (hp : p.Starts q ix part) (h : q.inOrder p = true) :
    ∃ u ∈ p.used, ∃ hint, q.hints[u]? = some hint ∧ hint.place = part.1 ∧
      (hint.bound = .equal ∨ hint.bound = .null) := by
  have hplace : ∀ {hint : Hint}, hint.bears part = true → hint.place = part.1 := by
    intro hint hbears
    simp only [Hint.bears, Bool.and_eq_true, beq_iff_eq] at hbears
    exact hbears.1
  have hused : ∀ {u}, u ∈ p.held.head? → u ∈ p.used := by
    intro u hu
    simp [Route.used, List.mem_of_mem_head? hu]
  have hheld : q.isHeld .number = false := by
    rw [Question.isHeld, List.any_eq_false]
    intro hint hmem
    simp [hnumber hint hmem]
  have hfirst : (part.1 == Place.number) = false := by simpa using hpart
  unfold Question.inOrder at h
  rw [horder] at h
  dsimp only at h
  rw [hheld, Bool.false_or, Bool.or_eq_true] at h
  rcases h with hsingle | h
  · obtain ⟨u, hu, hint, hget, hequal⟩ := hp.single hsingle
    obtain ⟨hint', hget', hbears⟩ := hp.bears u hu
    obtain rfl : hint = hint' := Option.some.inj (hget.symm.trans hget')
    exact ⟨u, hused hu, hint, hget, hplace hbears, .inl hequal⟩
  · have halong := hp.along
    rw [hsource] at h halong
    dsimp only at h
    rw [halong, hix] at h
    cases hheld : p.held with
    | nil =>
      rw [hheld] at h
      simp [Question.isInOrder, hfirst] at h
    | cons u us =>
      have hu : u ∈ p.held.head? := by simp [hheld]
      obtain ⟨hint, hget, hbears⟩ := hp.bears u hu
      refine ⟨u, hused hu, hint, hget, hplace hbears, ?_⟩
      rw [hheld, List.filterMap_cons, hget] at h
      dsimp only at h
      rw [List.zip_cons_cons, Question.isInOrder.eq_def] at h
      dsimp only at h
      split at h
      · next hbound => exact .inl hbound
      · next hbound => exact .inr hbound
      · simp [hfirst] at h

end Plan

/-! ## Pages of declared tables -/

/-- The key of a table stands at a place, and its index is the only one. -/
structure KeyedAt (t : Table) (i : Nat) (ix : Index) : Prop where
  only : Plan.indexesOf t = [ix]
  parts : ix.parts = [(.column i, .binary), (.number, .binary)]
  place : t.place? keyColumn = some (.column i)
  given : t.isNullable (.column i) = false
  binary : t.collationAt (.column i) = .binary

theorem Declared.keyedAt (ht : t.Declared) : ∃ i ix, t.KeyedAt i ix := by
  have hhas : t.hasColumn keyColumn = true := by rw [hasColumn, ht.key]; rfl
  obtain ⟨i, hi⟩ := columnIndex?_of_hasColumn hhas
  have hcolumn : t.columns[i]? = some .key := (column?_of_columnIndex? hi).trans ht.key
  have hclock : Expression.clock? keyColumn = none := by decide
  refine ⟨i, _, by rw [Plan.indexesOf, keysInOrder, ht.keys]; rfl, ?_, ?_, ?_, ?_⟩
  · simp [UniqueKey.primary, hi]
  · simp [place?, hclock, hi]
  · simp [isNullable, columnAt?, hcolumn, Column.key]
  · simp [collationAt, columnAt?, hcolumn, Column.key]

variable {i : Nat} {ix : Index}

/-- Rows of a declared table that meet a hint which holds the key are one row. -/
theorem Declared.eq_of_meets (ht : t.Declared) (hkey : t.KeyedAt i ix) {h : Hint}
    (hh : h ∈ Plan.hints t ks) (hplace : h.place = .column i)
    (hbound : h.bound = .equal ∨ h.bound = .null) {a b : Row} (ha : a ∈ t.rows) (hb : b ∈ t.rows)
    (hma : t.meets a h = true) (hmb : t.meets b h = true) : a = b := by
  obtain ⟨k, j, -, hmem⟩ := Plan.mem_hints.mp hh
  cases k with
  | any cs =>
    obtain ⟨p, -, rfl⟩ := Plan.mem_hintsOf_any hmem
    simp at hbound
  | one c =>
    rcases hbound with hequal | hnull
    · have hsuits := Plan.suits_of_hint hmem
      obtain ⟨hcondition, n, param, v, rfl⟩ := hsuits.equates hequal
      have hn := hsuits.place
      rw [hplace, Term.column] at hn
      have hheld : ∀ r ∈ t.rows, t.meets r h = true →
          (t.cell r keyColumn).Equal ((t.affinityAt (.column i)).store (.ofValue v)) := by
        intro r hr hmeets
        rw [meets_iff, hcondition] at hmeets
        simp only [Expression.ofTerm] at hmeets
        rw [truth_compare, seen_row hn, hkey.binary, Except.ok.injEq] at hmeets
        rw [cell_of_place? hkey.place hn]
        exact Affinity.equal_store (ht.exact.affinityAt _) ((ht.kept r hr).stored_at hn) hmeets
      exact ht.distinct a ha b hb ((hheld a ha hma).trans (hheld b hb hmb).symm)
    · have hnullable := (Plan.suits_of_hint hmem).nullable hnull
      rw [hplace, hkey.given] at hnullable
      cases hnullable

/-- The place that conditions share is that of one of them. -/
theorem exists_of_sharedPlace? {cs : List Term} {p : Place} (hp : Plan.sharedPlace? t cs = some p) :
    ∃ c ∈ cs, t.place? c.column = some p := by
  unfold Plan.sharedPlace? at hp
  dsimp only at hp
  split at hp
  · next q qs hqs =>
    split at hp
    · subst hp
      cases cs with
      | nil => simp at hqs
      | cons c cs =>
        obtain ⟨hc, -⟩ := List.cons.inj hqs
        dsimp only at hc
        refine ⟨c, List.mem_cons_self, ?_⟩
        split at hc
        · exact hc
        · cases hc
    · cases hp
  · cases hp

/-- What is asked about says nothing of the numbers of rows. -/
theorem Asked.place_of_hint (hk : t.Asked k) {h : Hint} (hh : h ∈ Plan.hints t k.conjuncts) :
    h.place ≠ .number := by
  obtain ⟨c, j, hc, hmem⟩ := Plan.mem_hints.mp hh
  have hterms := hk.unnumbered c (List.fst_mem_of_mem_zipIdx hc)
  intro hplace
  cases c with
  | one d =>
    have hd := (Plan.suits_of_hint hmem).place
    rw [hplace] at hd
    exact hterms d List.mem_cons_self hd
  | any cs =>
    obtain ⟨p, hp, rfl⟩ := Plan.mem_hintsOf_any hmem
    obtain ⟨d, hd, hdp⟩ := exists_of_sharedPlace? hp
    exact hterms d hd (hdp.trans (congrArg some hplace))

/-- Rows to which a route leads in order come in the order of their numbers. -/
theorem Declared.sorted_rowsOf {columns : List Nat} (ht : t.Declared) (hk : t.Asked k)
    (hnumber : t.place? "rowid" = some .number) {q : Question} {p : Route}
    (hq : q = t.question k.conjuncts columns) (hp : p = Plan.route q columns.length k.conjuncts)
    (h : q.inOrder p = true) : (rowsOf q p).Pairwise fun a b => a.number < b.number := by
  have htable : q.table = t := by rw [hq]; rfl
  have hfilter : ∀ f : Row → Bool,
      (q.table.rows.filter f).Pairwise fun a b => a.number < b.number := by
    rw [htable]
    exact fun f => ht.sorted.sublist List.filter_sublist
  cases hsource : p.source with
  | rows =>
    unfold rowsOf
    rw [hsource]
    exact hfilter _
  | union =>
    unfold rowsOf
    rw [hsource]
    exact hfilter _
  | index j =>
    -- The index of the key is gone along in order only for one row.
    obtain ⟨i, ix, hkey⟩ := ht.keyedAt
    have hindexes : q.indexes = [ix] := by rw [hq]; exact hkey.only
    have hhints : q.hints = Plan.hints t k.conjuncts := by rw [hq]; rfl
    have hplaces : ∀ h ∈ q.hints, h.place ≠ .number := by
      rw [hhints]
      exact fun h hh => hk.place_of_hint hh
    have hstarts : p.Starts q ix (.column i, .binary) := by
      rw [hp] at hsource ⊢
      exact Plan.starts_route hindexes hkey.parts hplaces hsource
    obtain ⟨u, hu, hint, hget, hplace, hbound⟩ := Plan.held_of_inOrder hkey.parts (by simp) hplaces
      (by rw [hq]; exact hnumber) hsource hstarts h
    have hmem : hint ∈ Plan.hints t k.conjuncts := hhints ▸ List.mem_of_getElem? hget
    have hone : ∀ a ∈ rowsOf q p, ∀ b ∈ rowsOf q p, a = b := by
      intro a ha b hb
      rw [Plan.mem_rowsOf, htable] at ha hb
      exact ht.eq_of_meets hkey hmem hplace hbound ha.1 hb.1 (ha.2 u hu hint hget)
        (hb.2 u hu hint hget)
    have hnodup : (rowsOf q p).Nodup := .of_map _ (picks_rowsOf ht.picks htable p).distinct
    exact hnodup.imp_of_mem fun ha hb hne => absurd (hone _ ha _ hb) hne

/-- The rows of a page of a declared table come in the order of their numbers, where
`rowid` means those. -/
theorem Declared.sorted_page (ht : t.Declared) (hk : t.Asked k)
    (hnumber : t.meansNumber "rowid" = true) {columns : List Nat} {n : Nat}
    (h : t.page k columns n 0 = (rows, none)) : rows.Pairwise fun a b => a.number < b.number := by
  have hscan : ∀ {cs : List Conjunct} {found : List Row},
      found.Pairwise (fun a b => a.number < b.number) → t.scan cs n 0 found = (rows, none) →
      rows.Pairwise fun a b => a.number < b.number := by
    intro cs found hfound hscan
    have hsublist := scan_sublist t cs n 0 found
    rw [hscan] at hsublist
    exact hfound.sublist hsublist
  have hnone : ([], none) = (rows, (none : Option Refusal)) →
      rows.Pairwise fun a b => a.number < b.number := by
    intro h
    rw [← (Prod.mk.inj h).1]
    exact .nil
  have hpicks := picks_page ht.picks k columns n 0
  rw [h] at hpicks
  unfold page at h
  dsimp only at h
  split at h
  · exact hnone h
  split at h
  · cases h
  · exact hnone h
  split at h
  · exact hscan ht.sorted h
  unfold plannedPage at h
  dsimp only at h
  split at h
  · next horder =>
    have hplace := place?_number_of_rowid hnumber
    exact hscan (ht.sorted_rowsOf hk hplace rfl rfl horder) h
  · split at h
    · cases h
    next found hfound =>
      obtain ⟨hrows, -⟩ := Prod.mk.inj h
      have hsublist : rows.Sublist (t.inOrder found) := by
        rw [← hrows]
        exact (List.take_sublist _ _).trans (List.drop_sublist _ _)
      have hdistinct : rows.Pairwise fun a b => a.number ≠ b.number :=
        List.pairwise_map.mp hpicks.distinct
      refine (((sorted_inOrder hnumber found).sublist hsublist).and hdistinct).imp_of_mem ?_
      rintro a b ha hb ⟨hle, hne⟩
      rw [ht.numbered a (hpicks.mem a ha), ht.numbered b (hpicks.mem b hb)] at hle
      exact lt_of_le_of_ne hle hne

end Table

end LiveRecords
