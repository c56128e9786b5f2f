import LiveRecords.Proofs.Answering
import LiveRecords.Proofs.Interleaving

/-!
# Rows that belong to a selection

Which keys a filter selects is told by the stored rows: all of them if the filter
asks for nothing, and those below a key if it asks for the parent. A column for
parents that is called like the current time is read as that time and not as the
column, so no row counts as one below a key then.
-/

namespace LiveRecords

open Table (Cell Expression)

/-! ## Names of columns -/

theorem Draft.isName_of_checkColumns {seen names : List String}
    (h : checkColumns seen names = .ok ()) : ∀ n ∈ names, isName n = true := by
  induction names generalizing seen with
  | nil => simp
  | cons name names ih =>
    rw [checkColumns] at h
    split at h
    · next hname =>
      have hfirst : isName name = true := by
        unfold checkColumn at hname
        split at hname
        · cases hname
        · next hnot => simpa using hnot
      exact List.forall_mem_cons.mpr ⟨hfirst, ih h⟩
    · cases h

/-- All columns of a record type have names that can stand in a condition. -/
theorem Schema.isName_of_build {d : Draft} {s : Schema} (h : d.build = .ok s) {n : String}
    (hn : n ∈ s.columnNames) : isName n = true := by
  have hs := Draft.build_eq_ok h
  have hnames : s.columnNames = d.columnNames := by rw [hs]; rfl
  unfold Draft.build at h
  split at h
  · cases h
  split at h
  · cases h
  split at h
  · next hcolumns => exact Draft.isName_of_checkColumns hcolumns n (hnames ▸ hn)
  · cases h

namespace Database

variable {d : Database} {s : Schema} {es : List Shelved} {e : Shelved} {f : Filter} {k : Clause}

theorem exact_tableOf (hp : s.Proper) (hn : s.Named) : (tableOf s es).Exact :=
  -- The columns are those of the type, whatever rows there are.
  (keeps_tableOf (shelf_nil s) hp hn (by decide)).exact

/-- The keys that a filter selects are those of the rows in which it is true. -/
theorem Holds.mem_selected (h : d.Holds s es) (hp : s.Proper) (hk : Link.clauseFor s f = .ok k)
    (hf : f.isBrief = true) (he : e ∈ es) (hsharp : f.Sharp (tableOf s es) (e.row s)) :
    e.image.id ∈ d.selected s f ↔ f.Selects (tableOf s es) (e.row s) := by
  have hn := h.shelf.named (List.ne_nil_of_mem he)
  have hsure := Table.sure_of_refusesNone (Link.refusesNone_of_clauseFor hk hf)
  have hselects : (tableOf s es).selects k (e.row s) = true ↔
      f.Selects (tableOf s es) (e.row s) :=
    (Table.selects_iff (exact_tableOf hp hn) (kept_tableOf hn (h.shelf.fits e he))
      (Table.sharp_conjuncts hk hsharp)).trans (Table.passes_iff hk (hsure _))
  have hkey : ∀ {x}, x ∈ es →
      (RowImage.idOfRow s (tableOf s es) (x.row s)).toOption = some x.image.id := fun hx => by
    rw [h.idOfRow hp hx]
    rfl
  rw [← hselects, h.selected_eq hk, List.mem_filterMap]
  constructor
  · rintro ⟨r, hr, hid⟩
    obtain ⟨hmem, hsel⟩ := List.mem_filter.mp hr
    obtain ⟨x, hx, rfl⟩ := List.mem_map.mp hmem
    rw [hkey hx, Option.some.injEq] at hid
    rwa [List.inj_on_of_nodup_map h.shelf.ids hx he hid] at hsel
  · intro hsel
    exact ⟨e.row s, List.mem_filter.mpr ⟨List.mem_map_of_mem he, hsel⟩, hkey he⟩

/-- Without a condition, all rows are selected. -/
theorem Holds.mem_selected_all (h : d.Holds s es) (hp : s.Proper) (hnone : f.predicates = [])
    (he : e ∈ es) : e.image.id ∈ d.selected s f := by
  obtain ⟨ps, join⟩ := f
  cases hnone
  have hselects : (Filter.mk [] join).Selects (tableOf s es) (e.row s) := by
    cases join with
    | all => exact fun p hp => by cases hp
    | any => exact .inl rfl
  cases join <;>
    exact (h.mem_selected hp rfl rfl he fun _ c v x u hc => by cases hc).mpr hselects

/-- The condition on the parent is true in the rows with that parent. -/
theorem satisfies_parent (hp : s.Proper) (hn : s.Named) {column : String}
    (hcolumn : s.parentColumn = some column) (hclock : Expression.clock? column = none)
    {parent : RecordId} (he : e.image.parent = some parent) :
    (tableOf s es).Satisfies (.compare column .equals (.ofId parent)) (e.row s) := by
  have hresolves : (tableOf s es).resolves column = true := by
    simp [Table.resolves, Table.hasColumn, hasColumn_parent hp hn hcolumn]
  have hcell : (tableOf s es).cell (e.row s) column = .blob parent.bytes := by
    rw [cell_parent hp hn hcolumn, he]
    rfl
  have haffinity : (tableOf s es).affinity column = .none := by
    rw [Table.affinity, hasColumn_parent hp hn hcolumn]
    rfl
  have hcondition : (Predicate.compare column .equals (.ofId parent)).condition =
      .compare .equals (.ofWord column) (.literal (.ofValue (.ofId parent))) := rfl
  rw [Table.Satisfies, hcondition, Table.truth_compare, Table.seen_scope hclock hresolves, hcell,
    haffinity]
  have hequal : Table.compareCells .none ((tableOf s es).collation column) .equals
      (.blob parent.bytes) (.ofValue (.ofId parent)) = some true := by
    show some (Table.compareOctets parent.bytes parent.bytes == .eq) = _
    rw [Table.compareOctets_self]
    rfl
  rw [hequal]

/-- A row below a key is selected where the rows below it are. -/
theorem Holds.mem_selected_below (h : d.Holds s es) (hp : s.Proper) {column : String}
    (hcolumn : s.parentColumn = some column) (hname : isName column = true)
    (hclock : Expression.clock? column = none) {parent : RecordId} (he : e ∈ es)
    (hparent : e.image.parent = some parent) :
    e.image.id ∈ d.selected s (Workspace.childFilter column parent) := by
  have hn := h.shelf.named (List.ne_nil_of_mem he)
  have hpredicates : (Workspace.childFilter column parent).predicates =
      [.compare column .equals (.ofId parent)] := rfl
  obtain ⟨k, hk⟩ := Link.exists_clauseFor (s := s) (f := Workspace.childFilter column parent)
    (by simp [hpredicates, Predicate.column, Schema.hasColumn, hcolumn])
    (by
      rw [hpredicates, List.forall_mem_singleton]
      exact ⟨_, [], true, by simp only [Predicate.term_eq, Predicate.column, hname]; rfl⟩)
  refine (h.mem_selected hp hk (by simp [Filter.isBrief, hpredicates]) he
    (fun _ c v x u _ hx => by simp [hpredicates] at hx)).mpr ?_
  show ∀ p ∈ (Workspace.childFilter column parent).predicates, _
  rw [hpredicates, List.forall_mem_singleton]
  exact satisfies_parent hp hn hcolumn hclock hparent

end Database

end LiveRecords
