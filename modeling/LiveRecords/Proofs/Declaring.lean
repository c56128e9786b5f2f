import LiveRecords.Proofs.Answering
import LiveRecords.Proofs.Landing

/-!
# Tables that record types declare

In a table that a record type declared, the rows have numbers that increase and that a
cell can hold, no two of them have one key, and each cell is as its column stores it. Rows
may come into it and go, as long as nothing of this is broken.
-/

namespace LiveRecords

open Table (Cell Column Guard Resolution Row UniqueKey)

/-! ## Cells that are stored again -/

namespace Table

namespace Affinity

theorem store_null (a : Affinity) : a.store .null = .null := by
  cases a <;> rfl

theorem integral_integral (x : Cell) : x.integral.integral = x.integral := by
  cases x with
  | real q =>
    cases hq : q.toInt? with
    | none => simp [Cell.integral, hq]
    | some n => simp [Cell.integral, hq]
  | _ => rfl

theorem integral_numeric (x : Cell) :
    (x.numeric.integral).numeric.integral = x.numeric.integral := by
  have hplain : ∀ y : Cell, y.isText = false →
      y.integral.numeric.integral = y.integral := by
    intro y hy
    rw [Cell.numeric_of_not_text (Cell.isText_integral hy), integral_integral]
  cases x with
  | text o =>
    rcases Cell.numeric_text o with h | h
    · rw [h]
      show (Cell.text o).numeric.integral = .text o
      rw [h]
      rfl
    · exact hplain _ h
  | _ => exact hplain _ rfl

/-- What a column stores it stores as it is, unless it turns integers into doubles. -/
theorem store_store {a : Affinity} (ha : a ≠ .real) (x : Cell) :
    a.store (a.store x) = a.store x := by
  cases a with
  | text => cases x <;> rfl
  | integer => exact integral_numeric x
  | numeric => exact integral_numeric x
  | real => exact absurd rfl ha
  | none => rfl

end Affinity

/-! ## Declared tables -/

/-- The number of a row is one that a cell can hold. -/
def Row.Numbered (r : Row) : Prop := (Int64.ofInt r.number).toInt = r.number

/-- A table as a record type declares it, with whatever was written to it since. -/
structure Declared (t : Table) : Prop where
  keys : t.keys = [.primary]
  references : t.references = []
  key : t.column? keyColumn = some .key
  columns : ∀ c ∈ t.columns, c.generated = none ∧ c.default = none
  exact : t.Exact
  sorted : t.rows.Pairwise fun a b => a.number < b.number
  numbered : ∀ r ∈ t.rows, r.Numbered
  distinct : ∀ a ∈ t.rows, ∀ b ∈ t.rows,
    (t.cell a keyColumn).Equal (t.cell b keyColumn) → a = b
  kept : ∀ r ∈ t.rows, t.Kept r

variable {t u : Table} {r new : Row} {rows : List Row} {name column : String} {x : Cell}

theorem Declared.picks (h : t.Declared) : t.Picks t.rows where
  mem _ hr := hr
  distinct := by
    have hsorted : (t.rows.map (·.number)).Pairwise (· < ·) := List.pairwise_map.mpr h.sorted
    exact hsorted.imp Int.ne_of_lt

theorem Declared.plain (h : t.Declared) : t.Plain := by
  intro k hk part hpart
  rw [h.keys] at hk
  obtain rfl := List.mem_singleton.mp hk
  obtain rfl : part = (keyColumn, .binary) := List.mem_singleton.mp hpart
  simp

/-- Other rows that are in order can take the place of those of a declared table. -/
theorem Declared.withRows (h : t.Declared) (hsorted : rows.Pairwise fun a b => a.number < b.number)
    (hnumbered : ∀ r ∈ rows, r.Numbered)
    (hdistinct : ∀ a ∈ rows, ∀ b ∈ rows,
      (t.cell a keyColumn).Equal (t.cell b keyColumn) → a = b)
    (hkept : ∀ r ∈ rows, t.Kept r) : { t with rows }.Declared :=
  ⟨h.keys, h.references, h.key, h.columns, h.exact, hsorted, hnumbered, hdistinct,
    fun r hr => ⟨(hkept r hr).stored, (hkept r hr).given⟩⟩

theorem Declared.withGuards (h : t.Declared) (guards : List Guard) : { t with guards }.Declared :=
  ⟨h.keys, h.references, h.key, h.columns, h.exact, h.sorted, h.numbered, h.distinct,
    fun r hr => ⟨(h.kept r hr).stored, (h.kept r hr).given⟩⟩

theorem Declared.sublist (h : t.Declared) (hrows : rows.Sublist t.rows) :
    { t with rows }.Declared :=
  h.withRows (h.sorted.sublist hrows) (fun r hr => h.numbered r (hrows.subset hr))
    (fun a ha b hb => h.distinct a (hrows.subset ha) b (hrows.subset hb))
    fun r hr => h.kept r (hrows.subset hr)

theorem Declared.without (h : t.Declared) (number : Int) : (t.without number).Declared :=
  h.sublist List.filter_sublist

theorem sorted_place (h : rows.Pairwise fun a b => a.number < b.number)
    (hr : ∀ s ∈ rows, s.number ≠ r.number) :
    (place r rows).Pairwise fun a b => a.number < b.number := by
  induction rows with
  | nil => exact List.pairwise_singleton _ _
  | cons s rows ih =>
    rw [List.pairwise_cons] at h
    have hs := hr s List.mem_cons_self
    have hrest := ih h.2 fun q hq => hr q (List.mem_cons_of_mem _ hq)
    unfold place
    split
    · next hlt =>
      refine List.pairwise_cons.mpr ⟨fun q hq => ?_, List.pairwise_cons.mpr h⟩
      rcases List.mem_cons.mp hq with rfl | hq
      · exact hlt
      · exact Int.lt_trans hlt (h.1 q hq)
    · refine List.pairwise_cons.mpr ⟨fun q hq => ?_, hrest⟩
      rcases (mem_place r q rows).mp hq with rfl | hq
      · omega
      · exact h.1 q hq

/-- A row comes into a declared table if no other has its number or its key. -/
theorem Declared.put (h : t.Declared) {number : Int} (hkept : t.Kept new) (hnew : new.Numbered)
    (hfree : ∀ s ∈ t.rows, s.number ≠ number → s.number ≠ new.number ∧
      ¬(t.cell new keyColumn).Equal (t.cell s keyColumn)) : (t.put number new).Declared := by
  have hothers : ∀ s ∈ (t.without number).rows, s ∈ t.rows ∧ s.number ≠ number :=
    fun s hs => (without_rows t number s).mp hs
  refine h.withRows (sorted_place (h.without number).sorted fun s hs => ?_) ?_ ?_ ?_
  · obtain ⟨hmem, hne⟩ := hothers s hs
    exact (hfree s hmem hne).1
  · intro r hr
    rcases (mem_place new r _).mp hr with rfl | hr
    · exact hnew
    · exact h.numbered r (hothers r hr).1
  · intro a ha b hb hab
    rcases (mem_place new a _).mp ha with ha | ha <;> rcases (mem_place new b _).mp hb with hb | hb
    · rw [ha, hb]
    · obtain ⟨hmem, hne⟩ := hothers b hb
      exact absurd (ha ▸ hab) (hfree b hmem hne).2
    · obtain ⟨hmem, hne⟩ := hothers a ha
      exact absurd (hb ▸ hab.symm) (hfree a hmem hne).2
    · exact h.distinct a (hothers a ha).1 b (hothers b hb).1 hab
  · intro r hr
    rcases (mem_place new r _).mp hr with rfl | hr
    · exact hkept
    · exact h.kept r (hothers r hr).1

/-! ## Numbers of new rows -/

theorem Row.numbered_of_le (h : -2 ^ 63 ≤ r.number) (h' : r.number < 2 ^ 63) : r.Numbered :=
  Int64.toInt_ofInt_of_le h h'

theorem numbered_of_numberOf? {n : Int} (h : numberOf? x = some n) (cells : List Cell) :
    Row.Numbered ⟨n, cells⟩ := by
  unfold numberOf? at h
  split at h
  · next m _ =>
    cases h
    show (Int64.ofInt m.toInt).toInt = m.toInt
    rw [Int64.ofInt_toInt]
  · cases h

theorem numbered_of_nextNumber (ht : ∀ r ∈ t.rows, r.Numbered) {n : Int}
    (h : t.nextNumber = .ok n) (cells : List Cell) : Row.Numbered ⟨n, cells⟩ := by
  have hafter : -2 ^ 63 ≤ numberAfter t.rows := by
    unfold numberAfter
    cases hlast : t.rows.getLast? with
    | none => decide
    | some r =>
      have hr := ht r (List.mem_of_getLast? hlast)
      have hle := (Int64.ofInt r.number).le_toInt
      rw [hr] at hle
      show -2 ^ 63 ≤ r.number + 1
      omega
  have hmax : maxNumber < 2 ^ 63 := by decide
  have htried : maxTried < 2 ^ 63 := by decide
  unfold nextNumber at h
  dsimp only at h
  split at h
  · next hle =>
    cases h
    exact Row.numbered_of_le hafter (Int.lt_of_le_of_lt hle hmax)
  · split at h
    · next m hm =>
      obtain rfl : m = n := Except.ok.inj h
      have hle : m ≤ maxTried := by
        have hfound := List.find?_some hm
        simp only [Bool.and_eq_true, decide_eq_true_iff] at hfound
        exact hfound.1
      have hpos : 1 ≤ m := by
        rcases List.mem_cons.mp (List.mem_of_find?_eq_some hm) with rfl | hmem
        · exact Int.le_max_left _ _
        · obtain ⟨k, -, rfl⟩ := List.mem_map.mp hmem
          omega
      refine Row.numbered_of_le ?_ (Int.lt_of_le_of_lt hle htried)
      show -2 ^ 63 ≤ m
      omega
    · cases h

/-- The number that a new row gets is one that a cell can hold. -/
theorem numbered_of_numberFor (ht : ∀ r ∈ t.rows, r.Numbered) {listed : List (String × Cell)}
    {n : Int} (h : t.numberFor listed = .ok n) (cells : List Cell) :
    Row.Numbered ⟨n, cells⟩ := by
  unfold numberFor at h
  split at h
  · exact numbered_of_nextNumber ht h cells
  · exact numbered_of_nextNumber ht h cells
  · split at h
    · next m hm =>
      cases h
      exact numbered_of_numberOf? hm cells
    · cases h

/-! ## Rows that are stored -/

/-- The cells of a row are as their columns store them. -/
def Stored (t : Table) (r : Row) : Prop := ∀ name, t.hasColumn name = true →
  (t.affinity name).store (t.cell r name) = t.cell r name

theorem stored_of_cells (hexact : t.Exact)
    (h : ∀ i c, t.columns[i]? = some c → ∃ y, r.cells.getD i .null = c.affinity.store y) :
    t.Stored r := by
  intro name hname
  obtain ⟨i, hi⟩ := columnIndex?_of_hasColumn hname
  obtain ⟨c, hc⟩ := Option.isSome_iff_exists.mp hname
  have hci : t.columns[i]? = some c := (column?_of_columnIndex? hi).trans hc
  obtain ⟨y, hy⟩ := h i c hci
  have hcell : t.cell r name = c.affinity.store y := by
    rw [cell, hi]
    exact hy
  rw [hcell, affinity, hc]
  exact Affinity.store_store (hexact c (List.mem_of_getElem? hci)) y

theorem assemble_cons {listed : List (String × Cell)} {c : Column} {cs : List Column}
    {xs : List Cell} (hc : c.default = none) (h : assemble listed (c :: cs) = .ok xs) :
    ∃ y rest, assemble listed cs = .ok rest ∧ xs = c.affinity.store y :: rest := by
  have hrest : ∀ {y : Cell},
      (assemble listed cs >>= fun rest => pure (c.affinity.store y :: rest)) = .ok xs →
      ∃ y rest, assemble listed cs = .ok rest ∧ xs = c.affinity.store y :: rest := by
    intro y h
    obtain ⟨rest, hrest, h⟩ := bind_eq_ok.mp h
    cases h
    exact ⟨y, rest, hrest, rfl⟩
  unfold assemble at h
  dsimp only at h
  split at h
  · exact hrest h
  · rw [Column.fallback, hc] at h
    exact hrest (y := .null) (by rw [Affinity.store_null]; exact h)

theorem stored_assemble (ht : t.Declared) {listed : List (String × Cell)} {cells : List Cell}
    (h : assemble listed t.columns = .ok cells) (n : Int) : t.Stored ⟨n, cells⟩ := by
  have hcells : ∀ {cs : List Column} {xs : List Cell}, (∀ c ∈ cs, c.default = none) →
      assemble listed cs = .ok xs → ∀ i c, cs[i]? = some c →
      ∃ y, xs.getD i .null = c.affinity.store y := by
    intro cs
    induction cs with
    | nil => intro xs _ _ i c hc; simp at hc
    | cons d cs ih =>
      intro xs hdefault hok i c hc
      obtain ⟨y, rest, hrest, rfl⟩ := assemble_cons (hdefault d List.mem_cons_self) hok
      cases i with
      | zero =>
        cases hc
        exact ⟨y, rfl⟩
      | succ i => exact ih (fun e he => hdefault e (List.mem_cons_of_mem _ he)) hrest i c hc
  exact stored_of_cells ht.exact (hcells (fun c hc => (ht.columns c hc).2) h)

/-- Setting a cell leaves a row as its table stores it. -/
theorem stored_setCell (hexact : t.Exact) (hr : t.Stored r) (column : String) (x : Cell) :
    t.Stored (t.setCell column x r) := by
  unfold setCell
  split
  next i hi =>
    intro name hname
    obtain ⟨j, hj⟩ := columnIndex?_of_hasColumn hname
    have hcell : ∀ q : Row, t.cell q name = (q.cells[j]?).getD .null := by
      intro q
      rw [cell, hj]
      exact List.getD_eq_getElem?_getD
    by_cases hij : i = j
    · subst hij
      obtain ⟨c, hc⟩ := Option.isSome_iff_exists.mp hname
      have hmem : c ∈ t.columns := List.mem_of_find?_eq_some hc
      have hsame : t.affinity column = t.affinity name := by
        rw [affinity, affinity, ← column?_of_columnIndex? hi, ← column?_of_columnIndex? hj]
      have haffinity : t.affinity name = c.affinity := by rw [affinity, hc]
      rw [hcell, hsame, haffinity]
      dsimp only
      rw [List.getElem?_set_self']
      cases r.cells[i]? with
      | none => exact Affinity.store_null _
      | some y => exact Affinity.store_store (hexact c hmem) x
    · rw [hcell]
      dsimp only
      rw [List.getElem?_set_ne hij, ← hcell]
      exact hr name hname
  next => exact hr

/-- Where no column has a default, a row is not filled up. -/
theorem eq_of_fillNulls {override : Option Resolution} {cs : List Column}
    (hcs : ∀ c ∈ cs, c.generated = none ∧ c.default = none)
    (h : t.fillNulls override cs r = .ok (some new)) : new = r := by
  induction cs with
  | nil =>
    cases h
    rfl
  | cons c cs ih =>
    have hrest := ih fun d hd => hcs d (List.mem_cons_of_mem _ hd)
    unfold fillNulls at h
    split at h
    · exact hrest h
    split at h
    · exact hrest h
    · cases h
    · rw [if_pos (by rw [(hcs c List.mem_cons_self).2]; rfl)] at h
      cases h
    · cases h

theorem given_of_keepsNulls {override : Option Resolution} {cs : List Column}
    (h : t.keepsNulls override r cs = .ok true) :
    ∀ c ∈ cs, c.notNull.isSome = true → (t.cell r c.name).isNull = false := by
  induction cs with
  | nil => exact fun c hc => absurd hc List.not_mem_nil
  | cons d cs ih =>
    intro c hc hnull
    unfold keepsNulls at h
    rcases List.mem_cons.mp hc with rfl | hc
    · obtain ⟨resolution, hresolution⟩ := Option.isSome_iff_exists.mp hnull
      by_contra hcell
      rw [if_pos (by simpa using hcell), Column.onNull, hresolution, Option.map_some] at h
      generalize override.getD resolution = act at h
      cases act <;> cases h
    · split at h
      · split at h
        · exact ih h c hc hnull
        · cases h
        · cases h
      · exact ih h c hc hnull

/-- A declared table takes a row as it is, and only with values where they are needed. -/
theorem Declared.fit (ht : t.Declared) {override : Option Resolution} {touched : Column → Bool}
    (h : t.fit override touched r = .ok (some new)) :
    new = r ∧ ∀ c ∈ t.columns, touched c = true → c.notNull.isSome = true →
      (t.cell r c.name).isNull = false := by
  have hgenerate : ∀ q, t.generate q = .ok q := by
    intro q
    rw [generate, generated_eq_nil fun c hc => (ht.columns c hc).1]
    rfl
  have hcolumns : ∀ c ∈ t.columns.filter touched, c.generated = none ∧ c.default = none :=
    fun c hc => ht.columns c (List.mem_filter.mp hc).1
  unfold Table.fit at h
  obtain ⟨q₁, hq₁, hrest⟩ := bind_eq_ok.mp h
  rw [hgenerate, Except.ok.injEq] at hq₁
  subst hq₁
  obtain ⟨filled, hfill, hrest⟩ := bind_eq_ok.mp hrest
  cases filled with
  | none => cases hrest
  | some q =>
    rw [eq_of_fillNulls hcolumns hfill] at hrest
    obtain ⟨q₂, hq₂, hrest⟩ := bind_eq_ok.mp hrest
    rw [hgenerate, Except.ok.injEq] at hq₂
    subst hq₂
    obtain ⟨kept, hkeep, hlast⟩ := bind_eq_ok.mp hrest
    cases kept with
    | false => cases hlast
    | true =>
      rw [if_pos rfl] at hlast
      obtain ⟨violation, -, hlast⟩ := bind_eq_ok.mp hlast
      refine ⟨?_, fun c hc htouched => given_of_keepsNulls hkeep c ?_⟩
      · cases violation with
        | none => cases hlast; rfl
        | some k => cases hlast
      · exact List.mem_filter.mpr ⟨hc, by rw [htouched]; rfl⟩

theorem findColumn_congr {a b : String} (h : sameName a b = true) :
    (fun c : Column => sameName c.name a) = fun c => sameName c.name b := by
  funext c
  rw [sameName_comm, sameName_comm c.name, sameName_congr h]

/-- A row that is taken is as the table keeps it. -/
theorem kept_of_given (hstored : t.Stored r)
    (hgiven : ∀ c, t.column? c.name = some c → c.notNull.isSome = true →
      (t.cell r c.name).isNull = false) : t.Kept r where
  stored := hstored
  given name c hc hnull := by
    have hname : sameName c.name name = true := by simpa using List.find?_some hc
    have hcolumn : t.column? c.name = some c := by
      rw [column?, findColumn_congr hname]
      exact hc
    have hindex : t.columnIndex? c.name = t.columnIndex? name := by
      rw [columnIndex?, columnIndex?, findColumn_congr hname]
    have hthere : t.hasColumn c.name = true := by rw [hasColumn, hcolumn]; rfl
    obtain ⟨i, hi⟩ := columnIndex?_of_hasColumn hthere
    have hcell : t.cell r c.name = t.cell r name := by rw [cell, cell, ← hindex, hi]
    rw [← hcell]
    exact hgiven c hcolumn hnull

theorem Declared.not_computed (ht : t.Declared) (name : String) :
    Database.isComputed t name = false := by
  unfold Database.isComputed
  cases hc : t.column? name with
  | none => rfl
  | some c => simp [(ht.columns c (List.mem_of_find?_eq_some hc)).1]

/-- Rows agree in the primary key if their keys are equal and not null. -/
theorem agree_iff {k : UniqueKey} (hk : k.parts = UniqueKey.primary.parts) {s : Row} :
    t.agree k r s = true ↔ (t.cell r keyColumn).isNull = false ∧
      (t.cell r keyColumn).Equal (t.cell s keyColumn) := by
  have hagree : t.agree k r s = (!(t.cell r keyColumn).isNull &&
      (t.cell r keyColumn).compareBy .binary (t.cell s keyColumn) == .eq) := by
    simp [agree, hk, UniqueKey.primary]
  rw [hagree, Bool.and_eq_true, Bool.not_eq_true', beq_iff_eq]
  exact and_congr_right fun _ =>
    ⟨Cell.equal_of_compareBy, fun h => (h.compareBy _ _).trans (Cell.compareBy_self _ _)⟩

/-- Only the primary key is tried. -/
theorem Declared.keysUnder (ht : t.Declared) (override : Option Resolution) :
    ∃ k, t.keysUnder override = [k] ∧ k.parts = UniqueKey.primary.parts := by
  refine ⟨{ UniqueKey.primary with resolution := override.or none }, ?_, rfl⟩
  rw [Table.keysUnder, keysInOrder, ht.keys]
  rfl

theorem Kept.congr (hu : u.columns = t.columns) (h : t.Kept r) : u.Kept r where
  stored name hname := by
    rw [cell_congr hu, affinity, column?, hu]
    rw [hasColumn, column?, hu] at hname
    exact h.stored name hname
  given name c hc hnull := by
    rw [cell_congr hu]
    rw [column?, hu] at hc
    exact h.given name c hc hnull

end Table

end LiveRecords
