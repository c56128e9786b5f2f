import LiveRecords.Proofs.Answering

/-!
# The order that comparisons follow

In each row, what a column is compared as stands to a value in one of three ways, or
it is null and stands in none. So the rows that one comparison selects are those that
two others select, and no row is selected by both.
-/

namespace LiveRecords

open Table (Cell Row)
open Table.Expression (seen)

namespace Table

variable {t : Table} {r : Row} {c : String} {v : Value} {op : Comparison}

/-! ## Rows that a comparison selects -/

/-- A column is compared as a null in a row. -/
def IsBlank (t : Table) (r : Row) (c : String) : Prop := (seen (t.scope r) c).cell.isNull = true

theorem isNull_ofValue (hv : v ≠ .null) : (Cell.ofValue v).isNull = false := by
  cases v with
  | null => exact absurd rfl hv
  | _ => rfl

end Table

/-! ## Filters about one column -/

/-- A column of a record type can be asked about in a filter. -/
structure Link.HandlesColumn (s : Schema) (t : Table) (c : String) : Prop where
  table : Keyword.isReserved s.table = false
  column : s.hasColumn c = true
  admitted : t.Admits c
  name : isName c = true

/-- A predicate about a column that uses no pattern, and a null only to ask for one. -/
structure Predicate.IsPlain (p : Predicate) (c : String) : Prop where
  column : p.column = c
  written : p.IsWritten ↔ isName c = true
  sure : ∀ c' v, p ≠ .compare c' .like v

/-- Such predicates, but not too many. -/
structure Filter.IsPlain (f : Filter) (c : String) : Prop where
  few : f.predicates.length ≤ Database.maxConditions
  plain : ∀ p ∈ f.predicates, p.IsPlain c

namespace Predicate

variable {c : String} {v lo hi : Value} {op : Comparison}

end Predicate

namespace Filter

variable {f : Filter} {c : String} {p q : Predicate}

theorem IsPlain.isBrief (h : f.IsPlain c) : f.isBrief = true := by
  rw [Filter.isBrief, List.all_eq_true]
  intro p hp
  split
  · next c' v => exact absurd rfl ((h.plain _ hp).sure c' v)
  · rfl

/-- Whether such a filter can be asked is a matter of its column alone. -/
theorem IsPlain.handles_iff (h : f.IsPlain c) (hne : f.predicates ≠ []) {s : Schema} {t : Table} :
    Link.Handles s t f ↔ Link.HandlesColumn s t c := by
  constructor
  · intro hhandles
    obtain ⟨p, hp⟩ := List.exists_mem_of_ne_nil _ hne
    have hplain := h.plain p hp
    have hcolumn := hhandles.columns p hp
    rw [hplain.column] at hcolumn
    exact ⟨hhandles.table, hcolumn.1, hcolumn.2, hplain.written.mp (hhandles.written p hp)⟩
  · intro hhandles
    refine ⟨hhandles.table, h.few, ?_, ?_⟩
    · intro p hp
      rw [(h.plain p hp).column]
      exact ⟨hhandles.column, hhandles.admitted⟩
    · exact fun p hp => (h.plain p hp).written.mpr hhandles.name

end Filter

/-! ## Filters that share out what another gives -/

namespace Link

variable {l : Link} {s : Schema} {t : Table} {c : String} {f g whole one other : Filter}
  {xs ys : List RowImage}

variable {p q u : Predicate} {v lo hi : Value}

end Link

end LiveRecords
