import LiveRecords.Proofs.Inserting

/-!
# Statements of record types

What a statement that succeeds does to the rows of its type: it makes the table,
puts one image in the place of another, changes one value of an image, or takes
one image away.
-/

namespace LiveRecords

open Table (Cell Column Refusal Row)

namespace Piece

/-- A statement that is not at fault names nothing by a reserved word. -/
theorem not_reserved {ps : List Piece} {k : Nat} (h : fault? k ps = none) {n : String}
    (hn : .table n ∈ ps ∨ .column n ∈ ps) : Keyword.isReserved n = false := by
  induction ps generalizing k with
  | nil => simp at hn
  | cons p ps ih =>
    simp only [List.mem_cons] at hn
    unfold fault? at h
    cases p with
    | fixed t =>
      refine ih h ?_
      simpa using hn
    | table m =>
      simp only at h
      split at h
      · cases h
      · next hm =>
        rcases hn with (hn | hn) | hn | hn
        · cases hn
          simpa using hm
        · exact ih h (.inl hn)
        · cases hn
        · exact ih h (.inr hn)
    | column m =>
      simp only at h
      split at h
      · cases h
      · next hm =>
        rcases hn with (hn | hn) | hn | hn
        · cases hn
        · exact ih h (.inl hn)
        · cases hn
          simpa using hm
        · exact ih h (.inr hn)
    | operand m =>
      simp only at h
      split at h
      · cases h
      split at h
      · cases ps with
        | nil => simp at hn
        | cons q qs => cases h
      · refine ih h ?_
        simpa using hn
    | declared m =>
      simp only at h
      split at h
      · cases ps with
        | nil => simp at hn
        | cons q qs => cases h
      split at h
      · refine ih (Option.or_eq_none_iff.mp h).2 ?_
        simpa using hn
      split at h
      · cases h
      · refine ih h ?_
        simpa using hn

end Piece

namespace Database

variable {d d' : Database} {s : Schema} {es : List Shelved} {e : Shelved} {id : RecordId}
variable {n : Nat} {x : RowImage}

/-! ## Texts -/

theorem textFault?_update (hn : s.Named) {column : String} (hc : column ∈ s.columnNames)
    (v : Value) : textFault? ⟨s, .updateColumn id column v⟩ = none := by
  have htable := hn s.table List.mem_cons_self
  have hcolumn := hn column (List.mem_cons_of_mem _ hc)
  simp [textFault?, Statement.pieces, Schema.updatePieces, Piece.fault?, htable, hcolumn]

theorem named_of_insert {values : List Value} {parent : Option RecordId}
    (h : textFault? ⟨s, .insertRow id values parent⟩ = none) : s.Named := by
  have hfault : Piece.fault? 0 s.insertPieces = none := by
    simpa [textFault?, Statement.pieces] using h
  intro m hm
  refine Piece.not_reserved hfault ?_
  rcases List.mem_cons.mp hm with rfl | hm
  · exact .inl (by simp [Schema.insertPieces])
  · have hcolumn : m ∈ s.insertColumns := List.mem_append_left _ hm
    refine .inr ?_
    simp [Schema.insertPieces, hcolumn]

theorem target_eq_ok {q : Statement} {t : Table} (h : d.target q = .ok t) :
    textFault? q = none ∧ d.table? q.schema.table = some t := by
  unfold target at h
  split at h
  · cases h
  · next hfault =>
    refine ⟨hfault, ?_⟩
    cases ht : d.table? q.schema.table with
    | none =>
      rw [ht] at h
      cases h
    | some u =>
      rw [ht] at h
      cases h
      rfl

theorem target_of_none {q : Statement} {t : Table} (h : textFault? q = none)
    (ht : d.table? q.schema.table = some t) : d.target q = .ok t := by
  simp only [target, h, ht]

/-! ## Making a table -/

/-- A table that is made is the table of the type, without rows. -/
theorem execute_createTable (hok : d.execute ⟨s, .createTable⟩ = .ok (n, d')) :
    (d' = d ∧ (d.table? s.table).isSome = true) ∨
      (d.table? s.table = none ∧ d' = { tables := d.tables ++ [tableOf s []] }) := by
  have hcreate : d.createTable s = .ok d' := by
    unfold execute at hok
    simp only at hok
    split at hok
    · cases hok
    split at hok
    · cases hok
    · cases hc : d.createTable s with
      | error e =>
        rw [hc] at hok
        cases hok
      | ok d₁ =>
        rw [hc] at hok
        cases hok
        rfl
  unfold createTable at hcreate
  split at hcreate
  · next hsome =>
    cases hcreate
    exact .inl ⟨rfl, hsome⟩
  split at hcreate
  · cases hcreate
  · next hnone _ =>
    cases hcreate
    exact .inr ⟨by simpa using hnone, rfl⟩

theorem table?_append (hd : d.table? s.table = none) (name : String) :
    ({ tables := d.tables ++ [tableOf s []] } : Database).table? name =
      if sameName (tableOf s []).name name then some (tableOf s []) else d.table? name := by
  unfold table? at hd ⊢
  rw [List.find?_append]
  by_cases hn : sameName (tableOf s []).name name = true
  · have hnone : (d.tables.find? fun t => sameName t.name name) = none := by
      rw [← hd]
      exact (d.table?_congr hn).symm
    rw [if_pos hn, hnone, Option.none_or]
    exact List.find?_cons_of_pos hn
  · have hlast : [tableOf s []].find? (fun t => sameName t.name name) = none :=
      List.find?_cons_of_neg hn
    rw [if_neg hn, hlast, Option.or_none]

theorem Plain.append (hd : d.Plain) (hnone : d.table? s.table = none) :
    ({ tables := d.tables ++ [tableOf s []] } : Database).Plain where
  references := by
    intro t ht
    rcases List.mem_append.mp ht with ht | ht
    · exact hd.references t ht
    · cases List.mem_singleton.mp ht
      rfl
  distinct := by
    refine List.pairwise_append.mpr ⟨hd.distinct, List.pairwise_singleton _ _, ?_⟩
    intro t ht u hu
    cases List.mem_singleton.mp hu
    have hne := List.find?_eq_none.mp hnone t ht
    exact Bool.eq_false_iff.mpr hne

/-! ## Writing a row -/

theorem execute_insertRow (hd : d.Plain) (h : d.Holds s es) (hp : s.Proper) (hu : s.Unnumbered)
    (hf : x.Fits s) {parent : Option RecordId} (hpar : s.parentColumn ≠ none → x.parent = parent)
    (hok : d.execute ⟨s, .insertRow x.id x.values parent⟩ = .ok (n, d')) :
    ∃ m, Numbers es x.id m ∧ Shelf s (insertShelved ⟨m, x⟩ (unshelve es x.id)) ∧
      d' = d.shelve s (insertShelved ⟨m, x⟩ (unshelve es x.id)) := by
  simp only [execute, bind_eq_ok] at hok
  obtain ⟨t, htarget, d₁, hinsert, hpair⟩ := hok
  cases hpair
  obtain ⟨hfault, ht⟩ := target_eq_ok htarget
  rw [h.table] at ht
  cases ht
  exact insertRow_eq_ok hd h hp hu (named_of_insert hfault) hf hpar hinsert

/-! ## Changing a row -/

theorem revise_eq_self (h : shelved? es id = none) (f : RowImage → RowImage) :
    revise es id f = es :=
  (List.map_congr_left (g := fun y => y) fun y hy => if_neg (shelved?_eq_none.mp h y hy)).trans
    (List.map_id' es)

/-- A change of a column that goes into the image under a key. -/
structure Writes (s : Schema) (es : List Shelved) (column : String) (v : Value)
    (f : RowImage → RowImage) : Prop where
  declared : column ∈ s.columnNames
  id : ∀ x : RowImage, (f x).id = x.id
  fits : ∀ x : RowImage, x.Fits s → (f x).Fits s
  cell : s.Named → ∀ e ∈ es, (tableOf s es).setCell column (Cell.ofValue v) (e.row s) =
    (e.setImage f).row s
  known : s.Named → (tableOf s es).hasColumn column = true

variable {column : String} {v : Value} {f : RowImage → RowImage}

theorem updateRow_none (h : shelved? es id = none)
    (hok : d.updateRow (tableOf s es) id column (Cell.ofValue v) = .ok (n, d')) : d' = d := by
  simp only [updateRow, bind_eq_ok, row?_tableOf, h] at hok
  obtain ⟨_, -, _, -, hok⟩ := hok
  cases hok
  rfl

theorem isComputed_tableOf (column : String) : isComputed (tableOf s es) column = false := by
  refine Bool.eq_false_iff.mpr fun hc => ?_
  obtain ⟨c, hfind, hgen⟩ : ∃ c, (tableOf s es).column? column = some c ∧
      c.generated.isSome = true := by simpa [isComputed, Option.any_eq_true] using hc
  rw [(generated_ofSchema (List.mem_of_find?_eq_some hfind)).1] at hgen
  cases hgen

/-- The row under a key is changed, and the statement cannot be refused. -/
theorem updateRow_some (hd : d.Plain) (h : d.Holds s es) (hp : s.Proper)
    (he : shelved? es id = some e) (hw : Writes s es column v f) :
    d.updateRow (tableOf s es) id column (Cell.ofValue v) =
      .ok (1, d.shelve s (revise es id f)) := by
  obtain ⟨hmem, -⟩ := mem_of_shelved? he
  have hn : s.Named := h.shelf.named (List.ne_nil_of_mem hmem)
  have hknown := hw.known hn
  have hmeans : (tableOf s es).meansNumber column = false := by
    rw [Table.meansNumber, hknown]
    rfl
  have hresolves : (tableOf s es).resolves column = true := by
    rw [Table.resolves, hknown]
    rfl
  have hstep := perform_assign hd h he (hw.id _) (hw.cell hn e hmem) hmeans
    (fun c hc _ hnull => isNull_cell hp hn (e := e.setImage f)
      (hw.fits _ (h.shelf.fits e hmem)) hc hnull) 1000
  have hreference := referenceFault?_eq (t := tableOf s es) hd rfl rfl d.referenceDepth
    (.columns [column])
  have hstep' : Pending.perform maxDepth { database := d }
      (.assign none (tableOf s es).name (e.row s).number [(column, Cell.ofValue v)]) = _ := hstep
  simp only [updateRow, hresolves, isComputed_tableOf, hreference, row?_tableOf, he, Option.map_some,
    Bool.not_true, Bool.false_eq_true, if_false, refuseIf, bind, Except.bind, hstep']
  rfl

theorem updateRow_eq_ok (hd : d.Plain) (h : d.Holds s es) (hp : s.Proper)
    (hw : Writes s es column v f)
    (hok : d.updateRow (tableOf s es) id column (Cell.ofValue v) = .ok (n, d')) :
    d' = d.shelve s (revise es id f) := by
  cases he : shelved? es id with
  | none => rw [updateRow_none he hok, revise_eq_self he, h.shelve_self hd]
  | some e =>
    rw [updateRow_some hd h hp he hw] at hok
    cases hok
    rfl

theorem execute_updateColumn (hd : d.Plain) (h : d.Holds s es) (hp : s.Proper)
    (hw : Writes s es column v f)
    (hok : d.execute ⟨s, .updateColumn id column v⟩ = .ok (n, d')) :
    d' = d.shelve s (revise es id f) := by
  simp only [execute, bind_eq_ok] at hok
  obtain ⟨t, htarget, hupdate⟩ := hok
  obtain ⟨-, ht⟩ := target_eq_ok htarget
  rw [h.table] at ht
  cases ht
  exact updateRow_eq_ok hd h hp hw hupdate

/-- A row that is there can be changed. -/
theorem execute_updateColumn_some (hd : d.Plain) (h : d.Holds s es) (hp : s.Proper)
    (he : shelved? es id = some e) (hw : Writes s es column v f) :
    d.execute ⟨s, .updateColumn id column v⟩ = .ok (1, d.shelve s (revise es id f)) := by
  have hn : s.Named := h.shelf.named (List.ne_nil_of_mem (mem_of_shelved? he).1)
  have htarget : d.target ⟨s, .updateColumn id column v⟩ = .ok (tableOf s es) :=
    target_of_none (textFault?_update hn hw.declared v) h.table
  simp only [execute, htarget, bind, Except.bind]
  exact updateRow_some hd h hp he hw

theorem writes_field (es : List Shelved) (hp : s.Proper) {i : Nat} {g : Field}
    (hi : s.fieldIndex? g.name = some i) (hg : s.fields[i]? = some g)
    (hv : v.fits g.type g.notNull = true) :
    Writes s es g.name v (RowImage.setValue s g.name v) where
  declared := field_mem_columnNames hg
  id := RowImage.id_setValue s g.name v
  fits _ hx := hx.setValue hi hg hv
  cell hn _ _ := setCell_field hp hn hi hg hv
  known hn := by
    rw [Table.hasColumn, hasColumn_field hp hn hg]
    rfl

theorem writes_parent (es : List Shelved) (hp : s.Proper) {p : String}
    (hs : s.parentColumn = some p) (parent : Option RecordId) :
    Writes s es p (.ofId? parent) fun x => { x with parent } where
  declared := parent_mem_columnNames hs
  id _ := rfl
  fits _ hx := hx.setParent fun h => by
    rw [hs] at h
    cases h
  cell hn _ _ := setCell_parent hp hn hs parent
  known hn := by
    rw [Table.hasColumn, hasColumn_parent hp hn hs]
    rfl

/-! ## Removing a row -/

theorem execute_deleteRow (hd : d.Plain) (h : d.Holds s es)
    (hok : d.execute ⟨s, .deleteRow id⟩ = .ok (n, d')) : d' = d.shelve s (unshelve es id) := by
  simp only [execute, bind_eq_ok] at hok
  obtain ⟨t, htarget, hdelete⟩ := hok
  obtain ⟨-, ht⟩ := target_eq_ok htarget
  rw [h.table] at ht
  cases ht
  simp only [deleteRow, bind_eq_ok, row?_tableOf] at hdelete
  obtain ⟨_, -, hdelete⟩ := hdelete
  cases he : shelved? es id with
  | none =>
    rw [he] at hdelete
    cases hdelete
    rw [unshelve_eq_self he, h.shelve_self hd]
  | some e =>
    have hstep : Pending.perform maxDepth { database := d }
        (.erase true (tableOf s es).name (e.row s).number) = _ :=
      perform_erase hd h he 1000 true
    rw [he] at hdelete
    simp only [Option.map_some, hstep, bind, Except.bind] at hdelete
    cases hdelete
    rfl

end Database

end LiveRecords
