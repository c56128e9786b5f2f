import LiveRecords.Proofs.Keying
import LiveRecords.Proofs.Unrefused
import Mathlib.Data.List.Perm.Subperm

/-!
# Statements that are granted

Where all names can stand in a statement, none that a record type has run on its
own table is refused: the table is made, rows are put in, changed and taken out
as long as there are numbers for them, and the row with a key is found.
-/

namespace LiveRecords

open Table (Cell Column Refusal Row)

/-! ## Texts without faults -/

namespace Piece

/-- Whether no name in a piece is a word of its own. -/
def isSpoken : Piece → Bool
  | .fixed _ => true
  | .table n | .column n | .declared n => !Keyword.isReserved n
  | .operand n => !Keyword.isReserved n && !Keyword.opensCall n

theorem fault?_of_isSpoken {ps : List Piece} (h : ∀ p ∈ ps, p.isSpoken = true) (offset : Nat) :
    fault? offset ps = none := by
  induction ps generalizing offset with
  | nil => rfl
  | cons p ps ih =>
    have hrest := fun n => ih (fun q hq => h q (List.mem_cons_of_mem _ hq)) n
    have hp := h p List.mem_cons_self
    cases p with
    | fixed text => exact hrest _
    | table n | column n =>
      have hn : Keyword.isReserved n = false := by simpa [isSpoken] using hp
      simp [fault?, hn, hrest]
    | operand n =>
      obtain ⟨hn, hcall⟩ : Keyword.isReserved n = false ∧ Keyword.opensCall n = false := by
        simpa [isSpoken] using hp
      simp [fault?, hn, hcall, hrest]
    | declared n =>
      have hn : Keyword.isReserved n = false := by simpa [isSpoken] using hp
      simp [fault?, hn, Keyword.opensConstraint_of_isReserved hn,
        Keyword.namesConstraint_of_isReserved hn, hrest]

end Piece

/-- A table can be made under a name that is neither kept by the database nor lost,
with the columns that there is room for, and rows keep their numbers in it. -/
structure Schema.Tabular (s : Schema) : Prop where
  named : s.Named
  unnumbered : s.Unnumbered
  own : Keyword.isSystemTable s.table = false
  found : Keyword.isLost s.table = false
  room : s.columnNames.length < Database.maxColumns

namespace Database

variable {d : Database} {s : Schema} {es : List Shelved} {x : RowImage} {id : RecordId}

theorem fault?_createPieces (hn : s.Named) : Piece.fault? 0 s.createPieces = none := by
  apply Piece.fault?_of_isSpoken
  intro p hp
  simp only [Schema.createPieces, List.mem_append, List.mem_cons, List.mem_flatMap,
    List.not_mem_nil, or_false] at hp
  rcases hp with ((( rfl | rfl | rfl) | ⟨q, hq, rfl | rfl⟩) | ⟨f, hf, rfl | rfl⟩) | rfl
  · rfl
  · simp [Piece.isSpoken, hn s.table List.mem_cons_self]
  · rfl
  · have hmem : q ∈ s.columnNames := List.mem_append_right _ hq
    simp [Piece.isSpoken, hn q (List.mem_cons_of_mem _ hmem)]
  · rfl
  · have hmem : f.name ∈ s.columnNames := List.mem_append_left _ (List.mem_map_of_mem hf)
    simp [Piece.isSpoken, hn f.name (List.mem_cons_of_mem _ hmem)]
  · rfl
  · rfl

theorem fault?_insertPieces (hn : s.Named) : Piece.fault? 0 s.insertPieces = none := by
  apply Piece.fault?_of_isSpoken
  have htable : (Piece.table s.table).isSpoken = true := by
    simp [Piece.isSpoken, hn s.table List.mem_cons_self]
  have hcolumns : ∀ c ∈ s.insertColumns, Keyword.isReserved c = false := by
    intro c hc
    rcases List.mem_append.mp hc with hc | hc
    · exact hn c (List.mem_cons_of_mem _ hc)
    · cases List.mem_singleton.mp hc
      decide
  intro p hp
  simp only [Schema.insertPieces, List.mem_append, List.mem_cons, List.mem_flatMap,
    List.not_mem_nil, or_false] at hp
  rcases hp with ((rfl | rfl | rfl) | ⟨c, hc, rfl | rfl⟩) | rfl | rfl | rfl
  · rfl
  · exact htable
  · rfl
  · rfl
  · simp [Piece.isSpoken, hcolumns c hc]
  · rfl
  · exact htable
  · rfl

theorem textFault?_insert (hn : s.Named) (id : RecordId) (values : List Value)
    (parent : Option RecordId) : textFault? ⟨s, .insertRow id values parent⟩ = none := by
  simp [textFault?, Statement.pieces, fault?_insertPieces hn]

theorem textFault?_delete (hn : s.Named) (id : RecordId) :
    textFault? ⟨s, .deleteRow id⟩ = none := by
  have htable := hn s.table List.mem_cons_self
  simp [textFault?, Statement.pieces, Schema.deletePieces, Piece.fault?, htable]

theorem textFault?_selectKey (hn : s.Named) (id : RecordId) :
    textFault? ⟨s, .selectRows ⟨[Table.keyTerm id], .all⟩⟩ = none := by
  have htable := hn s.table List.mem_cons_self
  have hkey : Keyword.isReserved (Table.keyTerm id).column = false := by
    show Keyword.isReserved keyColumn = false
    decide
  have hcall : Keyword.opensCall (Table.keyTerm id).column = false := by
    show Keyword.opensCall keyColumn = false
    decide
  simp [textFault?, Statement.pieces, Schema.selectPieces, Schema.conditionPieces, Clause.isEmpty,
    Piece.fault?, htable, hkey, hcall]

/-! ## Making the table -/

theorem crowds_eq_false (h : s.columnNames.length < maxColumns) : crowds s = false := by
  have hlength : (Column.ofSchema s).length ≤ maxColumns := by
    refine Nat.le_trans (List.length_filter_le _ _) ?_
    simp only [Schema.columnNames, Schema.fieldNames, List.length_append, List.length_map] at h
    simp only [List.length_append, List.length_cons, List.length_map]
    omega
  have hall : s.fields.take (maxColumns - s.parentColumn.toList.length) = s.fields := by
    apply List.take_of_length_le
    simp only [Schema.columnNames, Schema.fieldNames, List.length_append, List.length_map] at h
    omega
  have hlength' : ¬maxColumns < (Column.ofSchema s).length := Nat.not_lt.mpr hlength
  simp only [crowds, hall, hlength', decide_false, Bool.false_and]

theorem execute_createTable_of_tabular (ht : s.Tabular) (h : d.table? s.table = none) :
    d.execute ⟨s, .createTable⟩ = .ok (0, { tables := d.tables ++ [tableOf s []] }) := by
  have hfault : textFault? ⟨s, .createTable⟩ = none := by
    simp [textFault?, Statement.pieces, fault?_createPieces ht.named, ht.own]
  have hcreate : d.createTable s = .ok { tables := d.tables ++ [tableOf s []] } := by
    simp [createTable, h, ht.found, tableOf]
  simp [execute, crowds_eq_false ht.room, hfault, hcreate, Except.map]

/-! ## Putting a row in -/

theorem listingFault?_tableOf (hp : s.Proper) (hn : s.Named) :
    ("rowid" :: s.insertColumns).findSome? (listingFault? (tableOf s es) s.table) = none := by
  rw [List.findSome?_eq_none_iff]
  intro c hc
  have hresolves : (tableOf s es).resolves c = true := by
    rw [Table.resolves, Bool.or_eq_true]
    rcases List.mem_cons.mp hc with rfl | hc
    · exact .inr (by decide)
    rcases List.mem_append.mp hc with hc | hc
    · exact .inl (hasColumn_columnNames hp hn hc)
    · cases List.mem_singleton.mp hc
      exact .inl hasColumn_key
  simp [listingFault?, hresolves, isComputed_tableOf]

/-- A table with fewer rows than there are numbers to try has one left. -/
theorem nextNumber_of_length (h : (es.length : Int) < Table.maxTried) :
    ∃ n, (tableOf s es).nextNumber = .ok n := by
  unfold Table.nextNumber
  dsimp only
  split
  · exact ⟨_, rfl⟩
  split
  · exact ⟨_, rfl⟩
  · next hnone =>
    exfalso
    -- All numbers from one to one more than the number of rows would be taken.
    have htaken : ∀ n ∈ (List.range (es.length + 1)).map fun k : Nat => (k : Int) + 1,
        n ∈ es.map (·.number) := by
      intro n hn
      have hlength : (tableOf s es).rows.length = es.length := List.length_map _
      have hfalse := List.find?_eq_none.mp hnone n (List.mem_cons_of_mem _ (hlength ▸ hn))
      obtain ⟨k, hk, rfl⟩ := List.mem_map.mp hn
      have hle : (k : Int) + 1 ≤ Table.maxTried := by
        have := List.mem_range.mp hk
        omega
      have hused : (tableOf s es).isUnused ((k : Int) + 1) = false := by
        simpa [hle] using hfalse
      obtain ⟨r, hr, hnumber⟩ := List.all_eq_false.mp hused
      obtain ⟨e, he, rfl⟩ := List.mem_map.mp hr
      have hsame : e.number = (k : Int) + 1 := by simpa using hnumber
      exact hsame ▸ List.mem_map_of_mem he
    have hnodup : ((List.range (es.length + 1)).map fun k : Nat => (k : Int) + 1).Nodup := by
      refine List.pairwise_map.mpr (List.nodup_range.imp fun hab => ?_)
      omega
    have hle := (hnodup.subperm htaken).length_le
    simp only [List.length_map, List.length_range] at hle
    omega

/-- The row with the key gives its number, or there is one left. -/
theorem numberFor_ok (h : Shelf s es) (hp : s.Proper) (hn : s.Named)
    (hmeans : (tableOf s es).meansNumber "rowid" = true)
    (hlen : (es.length : Int) < Table.maxTried) (id : RecordId) {n : Cell}
    (hnone : shelved? es id = none → n = .null)
    (hsome : ∀ e, shelved? es id = some e → n = .integer (Int64.ofInt e.number))
    (values : List Value) (parent : Option RecordId) :
    ∃ m, Numbers es id m ∧
      (tableOf s es).numberFor (listedCells s n id values parent) = .ok m := by
  obtain ⟨m, hm⟩ : ∃ m, (tableOf s es).numberFor (listedCells s n id values parent) = .ok m := by
    rw [Table.numberFor, numberFor_listed hp hn hmeans]
    cases he : shelved? es id with
    | none =>
      rw [hnone he]
      exact nextNumber_of_length hlen
    | some e =>
      rw [hsome e he]
      exact ⟨_, rfl⟩
  exact ⟨m, numberFor_carried h hp hn hmeans hnone hsome hm, hm⟩

/-- A row that fits is put in the place of the one with its key. -/
theorem insertRow_ok (hd : d.Plain) (h : d.Holds s es) (hp : s.Proper) (hu : s.Unnumbered)
    (hn : s.Named) (hlen : (es.length : Int) < Table.maxTried) (hf : x.Fits s) :
    ∃ m, Shelf s (insertShelved ⟨m, x⟩ (unshelve es x.id)) ∧
      d.insertRow (tableOf s es) s x.id x.values x.parent =
        .ok (d.shelve s (insertShelved ⟨m, x⟩ (unshelve es x.id))) := by
  have hlisting : ("rowid" :: s.insertColumns).findSome? (listingFault? (tableOf s es) s.table) =
      none := listingFault?_tableOf hp hn
  have hreference := referenceFault?_eq (t := tableOf s es) hd rfl rfl d.referenceDepth .added
  have hmeans : (tableOf s es).meansNumber "rowid" = true := meansNumber_rowid hu
  have hcells : ∀ n, Table.assemble (listedCells s n x.id x.values x.parent)
      (tableOf s es).columns = .ok (x.cells s) := fun n =>
    assemble_listed hp hu hn hf fun _ => rfl
  have hadd : ∀ {m}, Numbers es x.id m →
      Pending.add { database := d } (tableOf s es) (some .replace) ⟨m, x.cells s⟩ = .ok _ :=
    fun hm => add_eq hd h hp hn hf hm.others
  have hshelf : ∀ {m}, Numbers es x.id m →
      Shelf s (insertShelved ⟨m, x⟩ (unshelve es x.id)) := fun hm =>
    h.shelf.insert hm.range hf hn hm.others
  cases he : shelved? es x.id with
  | none =>
    obtain ⟨m, hm, hnumber⟩ := numberFor_ok (n := .null) h.shelf hp hn hmeans hlen x.id
      (fun _ => rfl) (by simp [he]) x.values x.parent
    refine ⟨m, hshelf hm, ?_⟩
    simp only [insertRow, hlisting, hreference, refuseIf, row?_tableOf, he, Option.map_none,
      hnumber, guarded_tableOf, hcells, hadd hm, Bool.false_eq_true, if_false, bind, Except.bind]
    rfl
  | some e =>
    obtain ⟨m, hm, hnumber⟩ := numberFor_ok (n := .integer (Int64.ofInt e.number)) h.shelf hp hn hmeans
      hlen x.id (by simp [he]) (by simp [he]) x.values x.parent
    refine ⟨m, hshelf hm, ?_⟩
    simp only [insertRow, hlisting, hreference, refuseIf, row?_tableOf, he, Option.map_some,
      cell_rowid hmeans, hnumber, guarded_tableOf, hcells, hadd hm, Bool.false_eq_true, if_false, bind,
      Except.bind]
    rfl

theorem execute_insertRow_ok (hd : d.Plain) (h : d.Holds s es) (hp : s.Proper)
    (hu : s.Unnumbered) (hn : s.Named) (hlen : (es.length : Int) < Table.maxTried)
    (hf : x.Fits s) :
    ∃ m, Shelf s (insertShelved ⟨m, x⟩ (unshelve es x.id)) ∧
      d.execute ⟨s, .insertRow x.id x.values x.parent⟩ =
        .ok (1, d.shelve s (insertShelved ⟨m, x⟩ (unshelve es x.id))) := by
  obtain ⟨m, hshelf, hinsert⟩ := insertRow_ok hd h hp hu hn hlen hf
  have htarget : d.target ⟨s, .insertRow x.id x.values x.parent⟩ = .ok (tableOf s es) :=
    target_of_none (textFault?_insert hn _ _ _) h.table
  refine ⟨m, hshelf, ?_⟩
  simp only [execute, htarget, bind, Except.bind, hinsert]
  rfl

/-! ## Changing a row and taking it out -/

theorem updateRow_absent (hd : d.Plain) (hp : s.Proper) (hn : s.Named) {column : String}
    (hc : column ∈ s.columnNames) (v : Value) (hnone : shelved? es id = none) :
    d.updateRow (tableOf s es) id column (Cell.ofValue v) = .ok (0, d) := by
  have hresolves : (tableOf s es).resolves column = true := by
    rw [Table.resolves, hasColumn_columnNames hp hn hc]
    rfl
  have hreference := referenceFault?_eq (t := tableOf s es) hd rfl rfl d.referenceDepth
    (.columns [column])
  simp only [updateRow, hresolves, isComputed_tableOf, hreference, row?_tableOf, hnone,
    Option.map_none, Bool.not_true, Bool.false_eq_true, if_false, refuseIf, bind, Except.bind]
  rfl

/-- A column of the row with a key is changed, if there is one. -/
theorem execute_updateColumn_ok (hd : d.Plain) (h : d.Holds s es) (hp : s.Proper) (hn : s.Named)
    {column : String} {v : Value} {f : RowImage → RowImage} (hw : Writes s es column v f)
    (id : RecordId) :
    ∃ n, d.execute ⟨s, .updateColumn id column v⟩ = .ok (n, d.shelve s (revise es id f)) := by
  cases he : shelved? es id with
  | some e => exact ⟨1, execute_updateColumn_some hd h hp he hw⟩
  | none =>
    have htarget : d.target ⟨s, .updateColumn id column v⟩ = .ok (tableOf s es) :=
      target_of_none (textFault?_update hn hw.declared v) h.table
    refine ⟨0, ?_⟩
    simp only [execute, htarget, bind, Except.bind]
    rw [updateRow_absent hd hp hn hw.declared v he, revise_eq_self he, h.shelve_self hd]

/-- The row with a key is taken out, if there is one. -/
theorem execute_deleteRow_ok (hd : d.Plain) (h : d.Holds s es) (hn : s.Named) (id : RecordId) :
    ∃ n, d.execute ⟨s, .deleteRow id⟩ = .ok (n, d.shelve s (unshelve es id)) := by
  have htarget : d.target ⟨s, .deleteRow id⟩ = .ok (tableOf s es) :=
    target_of_none (textFault?_delete hn id) h.table
  have hreference := referenceFault?_eq (t := tableOf s es) hd rfl rfl d.referenceDepth .removed
  cases he : shelved? es id with
  | none =>
    refine ⟨0, ?_⟩
    simp only [execute, htarget, deleteRow, hreference, refuseIf, row?_tableOf, he, Option.map_none,
      bind, Except.bind, unshelve_eq_self he, h.shelve_self hd]
    rfl
  | some e =>
    have hstep : Pending.perform maxDepth { database := d }
        (.erase true (tableOf s es).name (e.row s).number) = _ :=
      perform_erase hd h he 1000 true
    refine ⟨1, ?_⟩
    simp only [execute, htarget, deleteRow, hreference, refuseIf, row?_tableOf, he, Option.map_some,
      bind, Except.bind, hstep]
    rfl

/-! ## Finding a row -/

theorem selects_keyTerm (e : Shelved) (id : RecordId) :
    (tableOf s es).selects ⟨[Table.keyTerm id], .all⟩ (e.row s) = decide (e.image.id = id) := by
  have haffinity : (tableOf s es).affinity keyColumn = .none := by
    have hkey : (tableOf s es).column? keyColumn = some .key := by
      show (Column.ofSchema s).find? _ = _
      rw [ofSchema_eq_cons]
      rfl
    rw [Table.affinity, hkey]
    rfl
  have hcolumn : (tableOf s es).hasColumn keyColumn = true := hasColumn_key
  have htruth := Table.truth_keyTerm (r := e.row s) hcolumn id
  rw [haffinity, cell_key] at htruth
  have hcells : Table.compareCells .none ((tableOf s es).collation keyColumn) .equals
      (.blob e.image.id.bytes) (.blob id.bytes) = some (decide (e.image.id = id)) := by
    show some (Table.compareOctets e.image.id.bytes id.bytes == .eq) = _
    congr 1
    rw [Bool.eq_iff_iff, beq_iff_eq, decide_eq_true_iff]
    constructor
    · exact fun h => RecordId.bytes_inj (Table.compareOctets_eq h)
    · rintro rfl
      exact Table.compareOctets_self _
  rw [hcells] at htruth
  have hconjuncts : (⟨[Table.keyTerm id], .all⟩ : Clause).conjuncts = [.one (Table.keyTerm id)] := rfl
  obtain ⟨i, hplace⟩ := Table.place?_key hcolumn
  obtain ⟨hsettled, hopen⟩ := Table.conjunctsWhere_of_equality hconjuncts hplace
  simp only [Table.selects, hsettled, hopen]
  simp only [hconjuncts, Table.allTrue, Table.holdsAll, Table.holdsConjunct, htruth, bind,
    Except.bind, pure, Except.pure, Bool.true_and]
  by_cases hid : e.image.id = id <;> simp [hid]

theorem filter_key (hn : (es.map (·.image.id)).Nodup) (id : RecordId) :
    es.filter (fun e => decide (e.image.id = id)) = (shelved? es id).toList := by
  induction es with
  | nil => rfl
  | cons e es ih =>
    rw [List.map_cons, List.nodup_cons] at hn
    rw [List.filter_cons, shelved?, List.find?_cons]
    by_cases he : e.image.id = id
    · have hnone : es.filter (fun x => decide (x.image.id = id)) = [] := by
        rw [List.filter_eq_nil_iff]
        intro x hx hid
        have hsame : x.image.id = e.image.id := (of_decide_eq_true hid).trans he.symm
        exact hn.1 (hsame ▸ List.mem_map_of_mem hx)
      simp [he, hnone]
    · simp only [he, decide_false, Bool.false_eq_true, if_false]
      exact ih hn.2

/-- The condition on a key selects the row with the key and no other. -/
theorem selection_keyTerm (h : Shelf s es) (id : RecordId) :
    (tableOf s es).selection ⟨[Table.keyTerm id], .all⟩ =
      (shelved? es id).toList.map (Shelved.row s) := by
  rw [← filter_key h.ids, Table.selection, tableOf]
  simp only [List.filter_map]
  congr 1
  exact List.filter_congr fun e _ => selects_keyTerm e id

theorem asks_keyTerm (h : d.Holds s es) (hn : s.Named) (id : RecordId) :
    d.Asks ⟨s, .selectRows ⟨[Table.keyTerm id], .all⟩⟩ ⟨[Table.keyTerm id], .all⟩
      (tableOf s es) where
  brief := by simp [sprawls, maxConditions]
  fault := textFault?_selectKey hn id
  table := h.table
  known := by
    have hknows : (tableOf s es).knows (Table.keyTerm id).column = true := by
      show (tableOf s es).knows keyColumn = true
      simp [Table.knows, Table.Expression.isStray, Table.Expression.lookUp, Table.scope,
        Table.resolves, hasColumn_key]
    simp [Statement.pieces, Schema.selectPieces, Schema.conditionPieces, Clause.isEmpty,
      Piece.strayOperand?, hknows]

end Database

namespace Link

variable {l : Link} {s : Schema} {es : List Shelved}

/-- Just the row with a key is read by that key. -/
theorem selectWhere_keyFilter (h : l.database.Holds s es) (hp : s.Proper) (hu : s.Unnumbered)
    (hn : s.Named) (hl : l.outage l.stats.total = none) (id : RecordId) :
    (l.selectWhere s (keyFilter id)).1 = .ok (stored? es id).toList := by
  have hrows : l.database.query ⟨s, .selectRows ⟨[Table.keyTerm id], .all⟩⟩
      ⟨[Table.keyTerm id], .all⟩ Database.maxPage 0 =
        .ok (tableOf s es, (shelved? es id).toList.map (Shelved.row s), none) := by
    have hall : ((shelved? es id).toList.map (Shelved.row s)).length ≤ Database.maxPage := by
      rw [List.length_map]
      exact Nat.le_trans Option.length_toList_le (by decide)
    rw [Database.query_rows (Database.asks_keyTerm h hn id),
      Table.page_eq (Database.meansNumber_rowid hu) rfl, Database.selection_keyTerm h.shelf,
      Nat.min_self, Nat.zero_min, List.drop_zero, List.take_of_length_le hall]
  have hdecode : ((shelved? es id).toList.map (Shelved.row s)).map
      (RowImage.ofRow s (tableOf s es)) = (stored? es id).toList.map .ok := by
    cases he : shelved? es id with
    | none => simp [stored?, he]
    | some e =>
      have hfits := h.shelf.fits e (mem_of_shelved? he).1
      simp [stored?, he, ofRow_row hp hn hfits]
  have hread : read l.database ⟨s, .selectRows ⟨[Table.keyTerm id], .all⟩⟩
      ⟨[Table.keyTerm id], .all⟩ Database.maxPage 0 (RowImage.ofRow s) =
        .ok (stored? es id).toList := by
    simp only [read, hrows]
    exact decodeRows_none hdecode
  simp only [selectWhere, clauseFor_keyFilter, query, hl, hread]

theorem selectOne_eq (h : l.database.Holds s es) (hp : s.Proper) (hu : s.Unnumbered)
    (hn : s.Named) (hl : l.outage l.stats.total = none) (id : RecordId) :
    (l.selectOne s id).1 = .ok (stored? es id) := by
  have hwhere := selectWhere_keyFilter h hp hu hn hl id
  unfold selectOne
  split
  · next rows _ hs =>
    rw [hs] at hwhere
    cases hwhere
    cases stored? es id <;> rfl
  · next hs =>
    rw [hs] at hwhere
    cases hwhere

end Link

end LiveRecords
