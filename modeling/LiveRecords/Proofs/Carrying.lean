import LiveRecords.Proofs.Rewriting

/-!
# Rows of every type

A type may give a column the name that otherwise means the number of a row. Then
the cell of that column is carried over in place of the number, and the row that
is written is not quite the one that was asked for. It is a row of the type all
the same: every statement with values that fit leaves rows with values that fit.
-/

namespace LiveRecords

open Table (Cell Column Refusal Row)

/-- A column has the name that otherwise means the number of a row. -/
def takesNumber (name : String) : Bool := sameName name "rowid"

/-- The image that an insertion writes in the place of another. A column that is
named for the number of a row keeps what it holds there. -/
def RowImage.over (s : Schema) (old : Option RowImage) (x : RowImage) : RowImage where
  id := x.id
  parent := if s.parentColumn.any takesNumber then old.bind (·.parent) else x.parent
  values := x.values.mapIdx fun i v =>
    if (s.fields[i]?).any fun f => takesNumber f.name then (old.bind (·.values[i]?)).getD .null
    else v

/-! ## Nulls that are refused -/

namespace Table

variable {t : Table} {r : Row}

/-- Where no column has a default, a null is not made up for. -/
theorem isNull_of_fillNulls {cs : List Column} {r' : Option Row}
    (hd : ∀ c ∈ cs, c.generated = none ∧ c.default = none)
    (h : t.fillNulls (some .replace) cs r = .ok r') :
    ∀ c ∈ cs, c.notNull.isSome = true → (t.cell r c.name).isNull = false := by
  induction cs with
  | nil => exact fun _ hc => absurd hc List.not_mem_nil
  | cons c cs ih =>
    obtain ⟨hgen, hdef⟩ := hd c List.mem_cons_self
    have hrest := fun hok => ih (fun c' hc' => hd c' (List.mem_cons_of_mem _ hc')) hok
    unfold fillNulls at h
    rw [hgen, Option.isSome_none, Bool.false_or] at h
    intro c' hc' hn
    split at h
    · next hnot =>
      rcases List.mem_cons.mp hc' with rfl | hc'
      · simpa using hnot
      · exact hrest h c' hc' hn
    · cases hnull : c.notNull with
      | none =>
        rw [Column.onNull, hnull] at h
        rcases List.mem_cons.mp hc' with rfl | hc'
        · rw [hnull] at hn
          cases hn
        · exact hrest h c' hc' hn
      | some resolution =>
        simp only [Column.onNull, hnull, Option.map_some, Option.getD_some, hdef,
          Option.isNone_none, if_true] at h
        cases h

/-- A row that is taken lacks no value it needs. -/
theorem isNull_of_fit {r' : Option Row}
    (hd : ∀ c ∈ t.columns, c.generated = none ∧ c.default = none)
    (h : t.fit (some .replace) (fun _ => true) r = .ok r') :
    ∀ c ∈ t.columns, c.notNull.isSome = true → (t.cell r c.name).isNull = false := by
  have hgenerate : t.generate r = .ok r := by
    rw [generate, generated_eq_nil fun c hc => (hd c hc).1]
    rfl
  simp only [fit, hgenerate, bind_eq_ok] at h
  obtain ⟨r₁, hr₁, r₂, hfill, -⟩ := h
  cases hr₁
  rw [List.filter_eq_self.mpr fun _ _ => rfl] at hfill
  exact isNull_of_fillNulls hd hfill

end Table

namespace Database

variable {d d' : Database} {s : Schema} {es : List Shelved} {e : Shelved} {id : RecordId}
  {x : RowImage} {parent : Option RecordId} {values : List Value} {n : Nat}

/-! ## What is carried over -/

/-- The cell that an insertion lists for the number of the row with a key. -/
def carried (s : Schema) (es : List Shelved) (id : RecordId) : Cell :=
  (shelved? es id).elim .null fun e => (tableOf s es).cell (e.row s) "rowid"

theorem carried_field (h : Shelf s es) (hp : s.Proper) (hn : s.Named) {i : Nat} {f : Field}
    (hf : s.fields[i]? = some f) (hname : sameName f.name "rowid" = true) :
    carried s es id = .ofValue (((stored? es id).bind (·.values[i]?)).getD .null) := by
  unfold carried stored?
  cases he : shelved? es id with
  | none => rfl
  | some e =>
    have hlt : i < e.image.values.length := by
      rw [(h.fits e (mem_of_shelved? he).1).length]
      exact (List.getElem?_eq_some_iff.mp hf).1
    have hv := List.getElem?_eq_getElem hlt
    rw [Option.elim_some, Option.map_some, Option.bind_some, hv]
    exact Table.cell_of_getElem? (columns_distinct hp hn) (columns_field hn hf) hname
      (cells_field hv)

theorem carried_parent (hp : s.Proper) (hn : s.Named) {p : String} (hs : s.parentColumn = some p)
    (hname : sameName p "rowid" = true) :
    carried s es id = .ofValue (.ofId? ((stored? es id).bind (·.parent))) := by
  unfold carried stored?
  cases shelved? es id with
  | none => rfl
  | some e =>
    exact Table.cell_of_getElem? (columns_distinct hp hn) (columns_parent hn hs) hname
      (cells_parent hs)

theorem find?_listed_number {c : Cell} {name : String} (hname : sameName name "rowid" = true) :
    (listedCells s c id values parent).find? (fun e => sameName e.1 name) = some ("rowid", c) :=
  List.find?_cons_of_pos (by rw [sameName_comm]; exact hname)

theorem store_carried (h : Shelf s es) {i : Nat} {f : Field} (hf : s.fields[i]? = some f) :
    (Table.Affinity.ofField f.type).store
        (.ofValue (((stored? es id).bind (·.values[i]?)).getD .null)) =
      .ofValue (((stored? es id).bind (·.values[i]?)).getD .null) := by
  cases hv : (stored? es id).bind (·.values[i]?) with
  | none =>
    have hnull : Value.null.fits f.type false = true := rfl
    exact Table.Affinity.store_ofValue_of_fits hnull
  | some v =>
    obtain ⟨image, himage, hv⟩ := Option.bind_eq_some_iff.mp hv
    obtain ⟨e, he, rfl⟩ := Option.map_eq_some_iff.mp himage
    exact Table.Affinity.store_ofValue_of_fits
      ((h.fits e (mem_of_shelved? he).1).values hf hv)

theorem getElem?_over (old : Option RowImage) {i : Nat} {f : Field} {v : Value}
    (hf : s.fields[i]? = some f) (hv : x.values[i]? = some v) :
    (x.over s old).values[i]? = some (if sameName f.name "rowid" = true then
      (old.bind (·.values[i]?)).getD .null else v) := by
  unfold RowImage.over
  rw [List.getElem?_mapIdx, hv, Option.map_some, hf]
  rfl

/-- What is listed makes up the row of an image. -/
theorem assemble_over (h : Shelf s es) (hp : s.Proper) (hn : s.Named) (hf : x.Fits s)
    (hpar : s.parentColumn ≠ none → x.parent = parent) :
    Table.assemble (listedCells s (carried s es x.id) x.id x.values parent) (Column.ofSchema s) =
      .ok ((x.over s (stored? es x.id)).cells s) := by
  refine assemble_cells hn (by simp [RowImage.over, hf.length]) ⟨_, find?_listed_key hp, rfl⟩
    (fun p hs => ?_) fun {i f u} hfi hui => ?_
  · have hover : (x.over s (stored? es x.id)).parent = if sameName p "rowid" = true then
        (stored? es x.id).bind (·.parent) else x.parent := by
      rw [RowImage.over, hs]
      rfl
    rw [hover]
    by_cases hname : sameName p "rowid" = true
    · rw [if_pos hname]
      exact ⟨_, find?_listed_number hname, carried_parent hp hn hs hname⟩
    · rw [if_neg hname, hpar (by rw [hs]; simp)]
      exact ⟨_, find?_listed_parent hp hs (Bool.eq_false_iff.mpr hname), rfl⟩
  · have hlt : i < x.values.length := by
      rw [hf.length]
      exact (List.getElem?_eq_some_iff.mp hfi).1
    have hvi := List.getElem?_eq_getElem hlt
    rw [getElem?_over _ hfi hvi] at hui
    cases hui
    by_cases hname : sameName f.name "rowid" = true
    · rw [if_pos hname]
      refine ⟨_, find?_listed_number hname, ?_⟩
      rw [carried_field h hp hn hfi hname]
      exact store_carried h hfi
    · rw [if_neg hname]
      exact ⟨_, find?_listed_field hp hfi hvi (Bool.eq_false_iff.mpr hname),
        Table.Affinity.store_ofValue_of_fits (hf.values hfi hvi)⟩

theorem over_fits (h : Shelf s es) (hf : x.Fits s)
    (hnull : ∀ {i : Nat} {f : Field}, s.fields[i]? = some f → f.notNull = true →
      (x.over s (stored? es x.id)).values[i]? ≠ some .null) :
    (x.over s (stored? es x.id)).Fits s where
  length := by
    rw [RowImage.over, List.length_mapIdx]
    exact hf.length
  values {i f v} hi hv := by
    have hlt : i < x.values.length := by
      rw [hf.length]
      exact (List.getElem?_eq_some_iff.mp hi).1
    have hxi := List.getElem?_eq_getElem hlt
    have hnot := hnull hi
    rw [getElem?_over _ hi hxi] at hv hnot
    cases hv
    by_cases hname : sameName f.name "rowid" = true
    · rw [if_pos hname] at hnot ⊢
      cases hold : (stored? es x.id).bind (·.values[i]?) with
      | none =>
        rw [hold] at hnot
        rw [Option.getD_none, Value.fits_null]
        simpa using hnot
      | some v =>
        obtain ⟨image, himage, hv⟩ := Option.bind_eq_some_iff.mp hold
        obtain ⟨e, he, rfl⟩ := Option.map_eq_some_iff.mp himage
        exact (h.fits e (mem_of_shelved? he).1).values hi hv
    · rw [if_neg hname]
      exact hf.values hi hxi
  parent hs := by
    rw [RowImage.over, hs]
    exact hf.parent hs

/-! ## Insertions -/

/-- Whatever a row number is taken from, no row under another key has it. -/
theorem numberFor_free (h : Shelf s es) (hp : s.Proper) (hn : s.Named) {m : Int}
    (hm : (tableOf s es).numberFor (listedCells s (carried s es id) id values parent) = .ok m) :
    (-0x8000000000000000 ≤ m ∧ m ≤ Table.maxNumber) ∧
      ∀ y ∈ es, y.image.id ≠ id → y.number ≠ m := by
  by_cases hmeans : (tableOf s es).meansNumber "rowid" = true
  · have hnumbers : Numbers es id m := by
      refine numberFor_carried h hp hn hmeans (fun he => ?_) (fun e he => ?_) hm
      · rw [carried, he]
        rfl
      · rw [carried, he]
        exact cell_rowid hmeans
    exact ⟨hnumbers.range, hnumbers.others⟩
  · have hnone : (listedCells s (carried s es id) id values parent).filter
        (fun e => (tableOf s es).meansNumber e.1) = [] := by
      refine List.filter_eq_nil_iff.mpr fun ⟨a, y⟩ hmem ha => hmeans ?_
      cases listed_meansNumber hp hn hmem ha
      exact ha
    rw [Table.numberFor, hnone] at hm
    obtain ⟨hrange, hfree⟩ := nextNumber_tableOf h hm
    exact ⟨hrange, fun y hy _ => hfree y hy⟩

/-- What an insertion that succeeds goes through. -/
theorem insertRow_steps (hok : d.insertRow (tableOf s es) s id values parent = .ok d') :
    ∃ m cells p, (tableOf s es).numberFor (listedCells s (carried s es id) id values parent) =
        .ok m ∧
      Table.assemble (listedCells s (carried s es id) id values parent) (Column.ofSchema s) =
        .ok cells ∧
      Pending.add { database := d } (tableOf s es) (some .replace) ⟨m, cells⟩ = .ok p ∧
      p.settle = .ok d' := by
  simp only [insertRow, bind_eq_ok, row?_tableOf] at hok
  obtain ⟨_, -, _, -, m, hm, hok⟩ := hok
  rw [guarded_tableOf, if_neg (by simp)] at hok
  obtain ⟨cells, hcells, p, hadd, hsettle⟩ := by simpa only [bind_eq_ok] using hok
  refine ⟨m, cells, p, ?_, ?_, hadd, hsettle⟩
  · unfold carried
    cases he : shelved? es id <;> rw [he] at hm <;> exact hm
  · unfold carried
    cases he : shelved? es id <;> rw [he] at hcells <;> exact hcells

/-- An insertion of values that fit leaves rows of the type. -/
theorem insertRow_keeps (hd : d.Plain) (h : d.Holds s es) (hp : s.Proper) (hn : s.Named)
    (hf : x.Fits s) (hpar : s.parentColumn ≠ none → x.parent = parent)
    (hok : d.insertRow (tableOf s es) s x.id x.values parent = .ok d') :
    ∃ es', Shelf s es' ∧ d' = d.shelve s es' := by
  obtain ⟨m, cells, p, hm, hcells, hadd, hsettle⟩ := insertRow_steps hok
  obtain ⟨hrange, hfree⟩ := numberFor_free h.shelf hp hn hm
  cases Except.ok.inj (hcells.symm.trans (assemble_over h.shelf hp hn hf hpar))
  have hrow : Pending.add { database := d } (tableOf s es) (some .replace)
      ((Shelved.mk m (x.over s (stored? es x.id))).row s) = .ok p := hadd
  obtain ⟨new, hfit⟩ : ∃ new, (tableOf s es).fit (some .replace) (fun _ => true)
      ((Shelved.mk m (x.over s (stored? es x.id))).row s) = .ok new := by
    simp only [Pending.add, bind_eq_ok] at hrow
    obtain ⟨new, hnew, -⟩ := hrow
    exact ⟨new, hnew⟩
  have hover : (x.over s (stored? es x.id)).Fits s := by
    refine over_fits h.shelf hf fun {i f} hi hflag hv => ?_
    have hmem : Column.ofField f ∈ Column.ofSchema s := by
      rw [ofSchema_of_named hn]
      exact List.mem_cons_of_mem _
        (List.mem_append_right _ (List.mem_map_of_mem (List.mem_of_getElem? hi)))
    have hnull := Table.isNull_of_fit (fun _ hc => generated_ofSchema hc) hfit _ hmem
      (by simp [Column.ofField, hflag])
    rw [show (Column.ofField f).name = f.name from rfl, cell_field hp hn hi hv] at hnull
    cases hnull
  rw [add_eq hd h hp hn hover hfree] at hrow
  cases hrow
  exact ⟨_, h.shelf.insert hrange hover hn hfree, ((Pending.settle_eq_ok _ _).mp hsettle).2.symm⟩

end Database

end LiveRecords
