import LiveRecords.Database
import LiveRecords.Link

/-!
# The columns of record types

A schema that was accepted has columns whose names differ in more than the case
of letters, and none of them is the key column. So a name leads to one column of
the table that is declared for it, and to one value of a row image.
-/

namespace LiveRecords

namespace Keyword

theorem opensConstraint_of_isReserved {n : String} (h : isReserved n = false) :
    opensConstraint n = false := by
  have hheads : ∀ w ∈ constraintHeads, w ∈ reserved := by decide
  refine Bool.eq_false_iff.mpr fun hc => ?_
  have hmem := hheads _ (List.contains_iff_mem.mp hc)
  rw [isReserved, List.contains_iff_mem.mpr hmem] at h
  cases h

theorem namesConstraint_of_isReserved {n : String} (h : isReserved n = false) :
    namesConstraint n = false := by
  refine Bool.eq_false_iff.mpr fun hc => ?_
  rw [isReserved, beq_iff_eq.mp hc] at h
  exact absurd h (by decide)

end Keyword

namespace Schema

/-- The names of all columns but the key. -/
def columnNames (s : Schema) : List String := s.fieldNames ++ s.parentColumn.toList

structure Proper (s : Schema) : Prop where
  distinct : s.columnNames.Pairwise fun a b => sameName a b = false
  unkeyed : ∀ n ∈ s.columnNames, sameName n keyColumn = false

/-- The row number can be asked for by its usual name. -/
def Unnumbered (s : Schema) : Prop := ∀ n ∈ s.columnNames, sameName n "rowid" = false

/-- All names can stand in a statement. -/
def Named (s : Schema) : Prop := ∀ n ∈ s.table :: s.columnNames, Keyword.isReserved n = false

/-- No column is lost because its name introduces a constraint. -/
theorem Named.namesConstraint {s : Schema} (h : s.Named) {n : String} (hn : n ∈ s.columnNames) :
    Keyword.namesConstraint n = false :=
  Keyword.namesConstraint_of_isReserved (h n (List.mem_cons_of_mem _ hn))

end Schema

theorem checkColumn_eq_ok {seen : List String} {name : String}
    (h : Draft.checkColumn seen name = .ok ()) :
    sameName name keyColumn = false ∧ ∀ n ∈ seen, sameName name n = false := by
  unfold Draft.checkColumn at h
  split at h
  · cases h
  split at h
  · cases h
  split at h
  · cases h
  · next hkey hseen =>
    refine ⟨by simpa using hkey, fun n hn => ?_⟩
    simp only [List.any_eq_true, not_exists, not_and, Bool.not_eq_true] at hseen
    exact hseen n hn

theorem checkColumns_eq_ok {seen names : List String}
    (h : Draft.checkColumns seen names = .ok ()) :
    (∀ n ∈ names, sameName n keyColumn = false ∧ ∀ m ∈ seen, sameName n m = false) ∧
      names.Pairwise fun a b => sameName a b = false := by
  induction names generalizing seen with
  | nil => exact ⟨by simp, .nil⟩
  | cons name names ih =>
    rw [Draft.checkColumns] at h
    split at h
    · next hname =>
      obtain ⟨hkey, hseen⟩ := checkColumn_eq_ok hname
      obtain ⟨hrest, hpair⟩ := ih h
      refine ⟨?_, List.pairwise_cons.mpr ⟨fun n hn => ?_, hpair⟩⟩
      · intro n hn
        rcases List.mem_cons.mp hn with rfl | hn
        · exact ⟨hkey, hseen⟩
        · exact ⟨(hrest n hn).1, fun m hm => (hrest n hn).2 m (List.mem_cons_of_mem _ hm)⟩
      · rw [sameName_comm]
        exact (hrest n hn).2 name List.mem_cons_self
    · cases h

theorem Schema.proper_of_build {d : Draft} {s : Schema} (h : d.build = .ok s) : s.Proper := by
  have hs := Draft.build_eq_ok h
  unfold Draft.build at h
  split at h
  · cases h
  split at h
  · cases h
  split at h
  · next hcols =>
    obtain ⟨hkey, hpair⟩ := checkColumns_eq_ok hcols
    have hnames : s.columnNames = d.columnNames := by rw [hs]; rfl
    exact ⟨hnames ▸ hpair, fun n hn => (hkey n (hnames ▸ hn)).1⟩
  · cases h

namespace Table

variable {t : Table}

/-- A name leads to the only column that has it. -/
theorem not_sameName_before {i : Nat} {c : Column} {name : String}
    (hd : t.columns.Pairwise fun a b => sameName a.name b.name = false)
    (hi : t.columns[i]? = some c) (hn : sameName c.name name = true) {j : Nat} (hj : j < i)
    (hlt : j < t.columns.length) : sameName t.columns[j].name name = false := by
  obtain ⟨hlti, rfl⟩ := List.getElem?_eq_some_iff.mp hi
  have hne := List.pairwise_iff_getElem.mp hd j i hlt hlti hj
  refine Bool.eq_false_iff.mpr fun h => ?_
  rw [sameName_trans h (by rw [sameName_comm]; exact hn)] at hne
  cases hne

theorem columnIndex?_of_getElem? {i : Nat} {c : Column} {name : String}
    (hd : t.columns.Pairwise fun a b => sameName a.name b.name = false)
    (hi : t.columns[i]? = some c) (hn : sameName c.name name = true) :
    t.columnIndex? name = some i := by
  obtain ⟨hlt, hget⟩ := List.getElem?_eq_some_iff.mp hi
  refine List.findIdx?_eq_some_iff_getElem.mpr ⟨hlt, by rw [hget]; exact hn, fun j hj => ?_⟩
  rw [Bool.not_eq_true]
  exact not_sameName_before hd hi hn hj _

theorem column?_of_getElem? {i : Nat} {c : Column} {name : String}
    (hd : t.columns.Pairwise fun a b => sameName a.name b.name = false)
    (hi : t.columns[i]? = some c) (hn : sameName c.name name = true) :
    t.column? name = some c := by
  obtain ⟨hlt, hget⟩ := List.getElem?_eq_some_iff.mp hi
  refine List.find?_eq_some_iff_getElem.mpr ⟨hn, i, hlt, hget, fun j hj => ?_⟩
  simpa using not_sameName_before hd hi hn hj _

theorem cell_of_getElem? {i : Nat} {c : Column} {name : String} {r : Row} {x : Cell}
    (hd : t.columns.Pairwise fun a b => sameName a.name b.name = false)
    (hi : t.columns[i]? = some c) (hn : sameName c.name name = true)
    (hx : r.cells[i]? = some x) : t.cell r name = x := by
  simp [cell, columnIndex?_of_getElem? hd hi hn, hx]

theorem column?_of_columnIndex? {name : String} {i : Nat} (h : t.columnIndex? name = some i) :
    t.columns[i]? = t.column? name := by
  obtain ⟨hlt, hname, hfirst⟩ := List.findIdx?_eq_some_iff_getElem.mp h
  have hfound : t.column? name = some t.columns[i] :=
    List.find?_eq_some_iff_getElem.mpr ⟨hname, i, hlt, rfl, fun j hj => by simpa using hfirst j hj⟩
  rw [hfound, List.getElem?_eq_getElem hlt]

theorem columnIndex?_ne {a b : String} (h : sameName a b = false) {i : Nat}
    (hi : t.columnIndex? b = some i) : t.columnIndex? a ≠ some i := by
  intro hj
  obtain ⟨_, ha, -⟩ := List.findIdx?_eq_some_iff_getElem.mp hj
  obtain ⟨_, hb, -⟩ := List.findIdx?_eq_some_iff_getElem.mp hi
  have hab : sameName a b = true := sameName_trans (by rw [sameName_comm]; exact ha) hb
  rw [hab] at h
  cases h

theorem columnIndex?_of_hasColumn {name : String} (h : t.hasColumn name = true) :
    ∃ i, t.columnIndex? name = some i := by
  rw [← Option.isSome_iff_exists, columnIndex?, List.findIdx?_isSome]
  rw [hasColumn, column?, List.find?_isSome] at h
  obtain ⟨c, hc, hn⟩ := h
  exact List.any_eq_true.mpr ⟨c, hc, hn⟩

end Table

end LiveRecords
