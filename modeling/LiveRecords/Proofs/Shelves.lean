import LiveRecords.Proofs.Columns

/-!
# Tables of row images

The table of a record type, seen as a list of numbered row images. This is what
every statement of the type leaves: rows in the order of their numbers, one for
a key, and each holding values that fit. What a row image says and what is read
from its row are the same.
-/

namespace LiveRecords

open Table (Cell Column Row)

/-- A row of the table of a record type. -/
structure Shelved where
  number : Int
  image : RowImage
  deriving DecidableEq

namespace RowImage

/-- The cells of the row that holds an image, in the order of the columns. -/
def cells (s : Schema) (x : RowImage) : List Cell :=
  .blob x.id.bytes :: ((s.parentColumn.toList.map fun _ => Cell.ofValue (.ofId? x.parent)) ++
    x.values.map Cell.ofValue)

/-- An image of a row that a record of the type can write. -/
structure Fits (x : RowImage) (s : Schema) : Prop where
  length : x.values.length = s.fields.length
  values : ∀ {i : Nat} {f v}, s.fields[i]? = some f → x.values[i]? = some v →
    v.fits f.type f.notNull = true
  parent : s.parentColumn = none → x.parent = none

instance decidableFits (x : RowImage) (s : Schema) : Decidable (x.Fits s) :=
  decidable_of_iff (x.values.length = s.fields.length ∧
      (∀ p ∈ s.fields.zip x.values, p.2.fits p.1.type p.1.notNull = true) ∧
      (s.parentColumn = none → x.parent = none)) <| by
    constructor
    · rintro ⟨hlength, hvalues, hparent⟩
      refine ⟨hlength, fun {i f v} hf hv => hvalues (f, v) ?_, hparent⟩
      exact List.mem_iff_getElem?.mpr ⟨i, List.getElem?_zip_eq_some.mpr ⟨hf, hv⟩⟩
    · intro h
      refine ⟨h.length, fun p hp => ?_, h.parent⟩
      obtain ⟨i, hi⟩ := List.mem_iff_getElem?.mp hp
      obtain ⟨hf, hv⟩ := List.getElem?_zip_eq_some.mp hi
      exact h.values hf hv

/-- Another value in a field. -/
def setValue (s : Schema) (field : String) (v : Value) (x : RowImage) : RowImage :=
  match s.fieldIndex? field with
  | some i => { x with values := x.values.set i v }
  | none => x

@[simp] theorem id_setValue (s : Schema) (field : String) (v : Value) (x : RowImage) :
    (x.setValue s field v).id = x.id := by
  unfold setValue
  split <;> rfl

@[simp] theorem parent_setValue (s : Schema) (field : String) (v : Value) (x : RowImage) :
    (x.setValue s field v).parent = x.parent := by
  unfold setValue
  split <;> rfl

theorem Fits.setParent {x : RowImage} {s : Schema} (h : x.Fits s) {parent : Option RecordId}
    (hp : s.parentColumn = none → parent = none) : Fits { x with parent } s :=
  ⟨h.length, h.values, hp⟩

theorem fieldIndex?_eq_some {s : Schema} {field : String} {i : Nat}
    (h : s.fieldIndex? field = some i) : ∃ f, s.fields[i]? = some f ∧ f.name = field := by
  obtain ⟨hlt, hname, -⟩ := List.findIdx?_eq_some_iff_getElem.mp h
  exact ⟨_, List.getElem?_eq_getElem hlt, by simpa using hname⟩

theorem Fits.setValue {x : RowImage} {s : Schema} (h : x.Fits s) {i : Nat} {f : Field}
    (hi : s.fieldIndex? f.name = some i) (hf : s.fields[i]? = some f) {v : Value}
    (hv : v.fits f.type f.notNull = true) : (x.setValue s f.name v).Fits s := by
  unfold RowImage.setValue
  rw [hi]
  refine ⟨by simpa using h.length, ?_, h.parent⟩
  intro j g u hg hu
  rw [List.getElem?_set] at hu
  split at hu
  · next hj =>
    subst hj
    rw [hf] at hg
    split at hu
    · cases hg; cases hu; exact hv
    · cases hu
  · exact h.values hg hu

end RowImage

namespace Shelved

def row (s : Schema) (e : Shelved) : Row := ⟨e.number, e.image.cells s⟩

@[simp] theorem number_row (s : Schema) (e : Shelved) : (e.row s).number = e.number := rfl

def setImage (e : Shelved) (f : RowImage → RowImage) : Shelved := { e with image := f e.image }

end Shelved

/-- The table of a record type with these rows. -/
def tableOf (s : Schema) (es : List Shelved) : Table :=
  { name := s.table, columns := Column.ofSchema s, rows := es.map (Shelved.row s) }

/-- What statements of the type keep in its table. -/
structure Shelf (s : Schema) (es : List Shelved) : Prop where
  sorted : es.Pairwise fun a b => a.number < b.number
  range : ∀ e ∈ es, -0x8000000000000000 ≤ e.number ∧ e.number ≤ Table.maxNumber
  ids : (es.map (·.image.id)).Nodup
  fits : ∀ e ∈ es, e.image.Fits s
  /-- A row is written only where all names can stand in a statement. -/
  named : es ≠ [] → s.Named

theorem shelf_nil (s : Schema) : Shelf s [] :=
  ⟨.nil, by simp, by simp, by simp, by simp⟩

section Cells

variable {s : Schema} {es : List Shelved} {e : Shelved}

theorem namesConstraint_key : Keyword.namesConstraint keyColumn = false := by decide

theorem ofSchema_eq_cons (s : Schema) :
    Column.ofSchema s = .key ::
      (s.parentColumn.toList.map Column.ofParent ++ s.fields.map Column.ofField).filter
        fun c => !Keyword.namesConstraint c.name := by
  rw [Column.ofSchema, List.cons_append, List.filter_cons_of_pos]
  show (!Keyword.namesConstraint keyColumn) = true
  rw [namesConstraint_key]
  rfl

theorem ofSchema_of_named (hn : s.Named) :
    Column.ofSchema s =
      .key :: (s.parentColumn.toList.map Column.ofParent ++ s.fields.map Column.ofField) := by
  rw [ofSchema_eq_cons]
  congr 1
  refine List.filter_eq_self.mpr fun c hc => ?_
  have hmem : c.name ∈ s.columnNames := by
    rcases List.mem_append.mp hc with hc | hc
    · obtain ⟨p, hp, rfl⟩ := List.mem_map.mp hc
      exact List.mem_append_right _ hp
    · obtain ⟨f, hf, rfl⟩ := List.mem_map.mp hc
      exact List.mem_append_left _ (List.mem_map_of_mem hf)
  rw [hn.namesConstraint hmem]
  rfl

theorem columns_distinct (hp : s.Proper) (hn : s.Named) :
    (tableOf s es).columns.Pairwise fun a b => sameName a.name b.name = false := by
  show (Column.ofSchema s).Pairwise _
  rw [ofSchema_of_named hn]
  have hnames : (s.parentColumn.toList ++ s.fieldNames).Pairwise
      fun a b => sameName a b = false :=
    (List.perm_append_comm.pairwise_iff fun h => by rw [sameName_comm]; exact h).mp hp.distinct
  refine List.pairwise_cons.mpr ⟨fun c hc => ?_, ?_⟩
  · show sameName keyColumn c.name = false
    rw [sameName_comm]
    refine hp.unkeyed _ ?_
    rcases List.mem_append.mp hc with hc | hc
    · obtain ⟨p, hp, rfl⟩ := List.mem_map.mp hc
      exact List.mem_append_right _ hp
    · obtain ⟨f, hf, rfl⟩ := List.mem_map.mp hc
      exact List.mem_append_left _ (List.mem_map_of_mem hf)
  · have hmap := List.pairwise_map (f := Column.name) (R := fun a b => sameName a b = false)
      (l := s.parentColumn.toList.map Column.ofParent ++ s.fields.map Column.ofField)
    refine hmap.mp ?_
    rw [List.map_append, List.map_map, List.map_map]
    have hparent : s.parentColumn.toList.map (Column.name ∘ Column.ofParent) =
        s.parentColumn.toList := List.map_id _
    rw [hparent]
    exact hnames

/-- The place of a field among the columns. -/
def fieldPlace (s : Schema) (i : Nat) : Nat := 1 + s.parentColumn.toList.length + i

theorem columns_field (hn : s.Named) {i : Nat} {f : Field} (hf : s.fields[i]? = some f) :
    (tableOf s es).columns[fieldPlace s i]? = some (Column.ofField f) := by
  show (Column.ofSchema s)[_]? = _
  rw [ofSchema_of_named hn, fieldPlace, Nat.add_assoc, Nat.add_comm 1, List.getElem?_cons_succ,
    List.getElem?_append_right (by simp)]
  simp [hf]

theorem columns_parent (hn : s.Named) {p : String} (hs : s.parentColumn = some p) :
    (tableOf s es).columns[1]? = some (Column.ofParent p) := by
  show (Column.ofSchema s)[_]? = _
  rw [ofSchema_of_named hn, hs]
  rfl

theorem cells_field {x : RowImage} {i : Nat} {v : Value} (hv : x.values[i]? = some v) :
    (x.cells s)[fieldPlace s i]? = some (Cell.ofValue v) := by
  rw [RowImage.cells, fieldPlace, Nat.add_assoc, Nat.add_comm 1, List.getElem?_cons_succ,
    List.getElem?_append_right (by simp)]
  simp [hv]

theorem cells_parent {x : RowImage} {p : String} (hs : s.parentColumn = some p) :
    (x.cells s)[1]? = some (Cell.ofValue (.ofId? x.parent)) := by
  rw [RowImage.cells, hs]
  rfl

/-! ## What is read from a row -/

@[simp] theorem columnIndex?_key : (tableOf s es).columnIndex? keyColumn = some 0 := by
  show (Column.ofSchema s).findIdx? _ = _
  rw [ofSchema_eq_cons, List.findIdx?_cons]
  rfl

@[simp] theorem cell_key : (tableOf s es).cell (e.row s) keyColumn = .blob e.image.id.bytes := by
  rw [Table.cell, columnIndex?_key]
  rfl

theorem cell_field (hp : s.Proper) (hn : s.Named) {i : Nat} {f : Field} {v : Value}
    (hf : s.fields[i]? = some f) (hv : e.image.values[i]? = some v) :
    (tableOf s es).cell (e.row s) f.name = Cell.ofValue v :=
  Table.cell_of_getElem? (columns_distinct hp hn) (columns_field hn hf) (sameName_refl _)
    (cells_field hv)

theorem cell_parent (hp : s.Proper) (hn : s.Named) {p : String} (hs : s.parentColumn = some p) :
    (tableOf s es).cell (e.row s) p = Cell.ofValue (.ofId? e.image.parent) :=
  Table.cell_of_getElem? (columns_distinct hp hn) (columns_parent hn hs) (sameName_refl _)
    (cells_parent hs)

theorem hasColumn_field (hp : s.Proper) (hn : s.Named) {i : Nat} {f : Field}
    (hf : s.fields[i]? = some f) : (tableOf s es).column? f.name = some (Column.ofField f) :=
  Table.column?_of_getElem? (columns_distinct hp hn) (columns_field hn hf) (sameName_refl _)

theorem hasColumn_parent (hp : s.Proper) (hn : s.Named) {p : String}
    (hs : s.parentColumn = some p) : (tableOf s es).column? p = some (Column.ofParent p) :=
  Table.column?_of_getElem? (columns_distinct hp hn) (columns_parent hn hs) (sameName_refl _)

theorem hasColumn_columnNames (hp : s.Proper) (hn : s.Named) {c : String}
    (hc : c ∈ s.columnNames) : (tableOf s es).hasColumn c = true := by
  rcases List.mem_append.mp hc with hc | hc
  · obtain ⟨f, hf, rfl⟩ := List.mem_map.mp hc
    obtain ⟨i, hi⟩ := List.mem_iff_getElem?.mp hf
    rw [Table.hasColumn, hasColumn_field hp hn hi]
    rfl
  · rw [Table.hasColumn, hasColumn_parent hp hn (by simpa using hc)]
    rfl

theorem RecordId.bytes_inj {a b : RecordId} (h : a.bytes = b.bytes) : a = b := by
  cases a; cases b; simp_all

theorem hasKey_row (id : RecordId) :
    (tableOf s es).hasKey id (e.row s) = decide (e.image.id = id) := by
  rw [Table.hasKey, cell_key, Bool.eq_iff_iff, beq_iff_eq, decide_eq_true_iff]
  constructor
  · intro h
    injection h with h
    exact RecordId.bytes_inj h
  · rintro rfl
    rfl

/-- The row with a key. -/
def shelved? (es : List Shelved) (id : RecordId) : Option Shelved :=
  es.find? fun e => decide (e.image.id = id)

theorem row?_tableOf (id : RecordId) :
    (tableOf s es).row? id = (shelved? es id).map (Shelved.row s) := by
  show (es.map (Shelved.row s)).find? _ = _
  rw [List.find?_map, shelved?]
  have hkey : (tableOf s es).hasKey id ∘ Shelved.row s = fun e => decide (e.image.id = id) :=
    funext fun e => hasKey_row id
  rw [hkey]

theorem valueOfCell_ofValue (table : String) (v : Value) :
    RowImage.valueOfCell table (Cell.ofValue v) = .ok v := by
  cases v with
  | text t => simp [Cell.ofValue, RowImage.valueOfCell, Text.Utf8.text?_bytes]
  | _ => rfl

theorem valuesOfRow_row (hp : s.Proper) (hn : s.Named) {fs : List Field} {vs : List Value} {k : Nat}
    (hfs : s.fields.drop k = fs) (hvs : e.image.values.drop k = vs) (hl : fs.length = vs.length) :
    RowImage.valuesOfRow s (tableOf s es) (e.row s) (fs.map (·.name)) = .ok vs := by
  induction fs generalizing vs k with
  | nil =>
    rw [List.length_nil] at hl
    rw [List.length_eq_zero_iff.mp hl.symm]
    rfl
  | cons f fs ih =>
    cases vs with
    | nil => cases hl
    | cons v vs =>
      have hf : s.fields[k]? = some f := by
        have h := congrArg (fun l => l[0]?) hfs
        simpa using h
      have hv : e.image.values[k]? = some v := by
        have h := congrArg (fun l => l[0]?) hvs
        simpa using h
      have hcell : (tableOf s es).cell (e.row s) f.name = Table.Cell.ofValue v :=
        cell_field hp hn hf hv
      have hfs' : s.fields.drop (k + 1) = fs := by rw [← List.drop_drop, hfs]; rfl
      have hvs' : e.image.values.drop (k + 1) = vs := by rw [← List.drop_drop, hvs]; rfl
      have hrest := ih hfs' hvs' (by simpa using hl)
      rw [List.map_cons, RowImage.valuesOfRow, RowImage.cellNamed, Table.hasColumn,
        hasColumn_field hp hn hf]
      simp only [Option.isSome_some, if_true, hcell]
      show (RowImage.valueOfCell s.table (Cell.ofValue v) >>= _) = _
      rw [valueOfCell_ofValue]
      show (RowImage.valuesOfRow s (tableOf s es) (e.row s) (fs.map (·.name)) >>= _) = _
      rw [hrest]
      rfl

theorem parentOfRow_row (hp : s.Proper) (hn : s.Named) (hf : e.image.Fits s) :
    RowImage.parentOfRow s (tableOf s es) (e.row s) = .ok e.image.parent := by
  unfold RowImage.parentOfRow
  cases hs : s.parentColumn with
  | none => simp [hf.parent hs]
  | some p =>
    have hcell : (tableOf s es).cell (e.row s) p =
        Table.Cell.ofValue (.ofId? e.image.parent) := cell_parent hp hn hs
    simp only [RowImage.cellNamed, Table.hasColumn, hasColumn_parent hp hn hs, Option.isSome_some,
      if_true, hcell]
    cases e.image.parent with
    | none => rfl
    | some id => simp [Value.ofId?, Value.ofId, Cell.ofValue, RowImage.idOfCell,
        RecordId.ofBytes_bytes, Except.map]

theorem hasColumn_key : (tableOf s es).hasColumn keyColumn = true := by
  rw [Table.hasColumn, Table.column?, List.find?_isSome]
  have hmem : Column.key ∈ Column.ofSchema s := by
    rw [ofSchema_eq_cons]
    exact List.mem_cons_self
  exact ⟨.key, hmem, rfl⟩

/-- What is read from a row is what was written. -/
theorem ofRow_row (hp : s.Proper) (hn : s.Named) (hf : e.image.Fits s) :
    RowImage.ofRow s (tableOf s es) (e.row s) = .ok e.image := by
  have hvalues : RowImage.valuesOfRow s (tableOf s es) (e.row s)
      ((s.fields.drop 0).map (·.name)) = .ok (e.image.values.drop 0) :=
    valuesOfRow_row hp hn rfl rfl hf.length.symm
  simp only [RowImage.ofRow, RowImage.cellNamed, hasColumn_key, if_true, cell_key,
    parentOfRow_row hp hn hf, Schema.fieldNames]
  simp only [List.drop_zero] at hvalues
  rw [hvalues]
  simp [RowImage.idOfCell, RecordId.ofBytes_bytes, bind, Except.bind, pure, Except.pure]

end Cells

/-! ## Finding rows -/

section Finding

variable {s : Schema} {es : List Shelved} {e : Shelved} {id : RecordId}

theorem mem_of_shelved? (h : shelved? es id = some e) : e ∈ es ∧ e.image.id = id := by
  refine ⟨List.mem_of_find?_eq_some h, ?_⟩
  simpa using List.find?_some h

theorem shelved?_of_mem (hn : (es.map (·.image.id)).Nodup) (he : e ∈ es) :
    shelved? es e.image.id = some e := by
  induction es with
  | nil => cases he
  | cons x xs ih =>
    rw [List.map_cons, List.nodup_cons] at hn
    rw [shelved?, List.find?_cons]
    rcases List.mem_cons.mp he with rfl | he
    · simp
    · have hne : x.image.id ≠ e.image.id := by
        intro hx
        exact hn.1 (hx ▸ List.mem_map_of_mem he)
      simp only [hne, decide_false]
      exact ih hn.2 he

theorem shelved?_eq_some (hn : (es.map (·.image.id)).Nodup) :
    shelved? es id = some e ↔ e ∈ es ∧ e.image.id = id := by
  constructor
  · exact mem_of_shelved?
  · rintro ⟨he, rfl⟩
    exact shelved?_of_mem hn he

theorem shelved?_eq_none : shelved? es id = none ↔ ∀ e ∈ es, e.image.id ≠ id := by
  simp [shelved?, List.find?_eq_none]

end Finding

/-! ## Changing rows -/

/-- The rows with another image under a key. -/
def revise (es : List Shelved) (id : RecordId) (f : RowImage → RowImage) : List Shelved :=
  es.map fun e => if e.image.id = id then e.setImage f else e

/-- The rows without the one with a key. -/
def unshelve (es : List Shelved) (id : RecordId) : List Shelved :=
  es.filter fun e => decide (e.image.id ≠ id)

/-- Puts a row at its place by number. -/
def insertShelved (e : Shelved) : List Shelved → List Shelved
  | [] => [e]
  | x :: xs => if e.number < x.number then e :: x :: xs else x :: insertShelved e xs

section Changing

variable {s : Schema} {es : List Shelved} {e x : Shelved} {id : RecordId}

theorem mem_revise {f : RowImage → RowImage} :
    x ∈ revise es id f ↔ ∃ e ∈ es, x = if e.image.id = id then e.setImage f else e := by
  simp [revise, eq_comm]

theorem ids_revise {f : RowImage → RowImage} (hf : ∀ x : RowImage, (f x).id = x.id) :
    (revise es id f).map (·.image.id) = es.map (·.image.id) := by
  rw [revise, List.map_map]
  refine List.map_congr_left fun e _ => ?_
  show (if e.image.id = id then e.setImage f else e).image.id = e.image.id
  split
  · exact hf e.image
  · rfl

theorem numbers_revise (es : List Shelved) (id : RecordId) (f : RowImage → RowImage) :
    (revise es id f).map (·.number) = es.map (·.number) := by
  rw [revise, List.map_map]
  refine List.map_congr_left fun e _ => ?_
  show (if e.image.id = id then e.setImage f else e).number = e.number
  split <;> rfl

theorem sorted_iff : es.Pairwise (fun a b => a.number < b.number) ↔
    (es.map (·.number)).Pairwise (· < ·) :=
  List.pairwise_map.symm

/-- Revising one image keeps the shelf, if the new image fits. -/
theorem Shelf.revise (h : Shelf s es) {f : RowImage → RowImage}
    (hid : ∀ x : RowImage, (f x).id = x.id)
    (hfits : ∀ x : RowImage, x.Fits s → (f x).Fits s) : Shelf s (revise es id f) where
  sorted := by
    rw [sorted_iff, numbers_revise, ← sorted_iff]
    exact h.sorted
  range := by
    intro x hx
    obtain ⟨e, he, rfl⟩ := mem_revise.mp hx
    have hnum : (if e.image.id = id then e.setImage f else e).number = e.number := by
      split <;> rfl
    rw [hnum]
    exact h.range e he
  ids := by
    rw [ids_revise hid]
    exact h.ids
  fits := by
    intro x hx
    obtain ⟨e, he, rfl⟩ := mem_revise.mp hx
    split
    · exact hfits _ (h.fits e he)
    · exact h.fits e he
  named hne := h.named fun he => hne (by rw [he]; rfl)

theorem shelved?_revise {f : RowImage → RowImage} (hid : ∀ x : RowImage, (f x).id = x.id)
    (j : RecordId) : shelved? (LiveRecords.revise es id f) j =
      if j = id then (shelved? es j).map (·.setImage f) else shelved? es j := by
  induction es with
  | nil => simp [LiveRecords.revise, shelved?]
  | cons x xs ih =>
    unfold LiveRecords.revise shelved? at ih ⊢
    rw [List.map_cons, List.find?_cons, List.find?_cons]
    by_cases hx : x.image.id = id
    · subst hx
      rw [if_pos rfl]
      have hxid : (x.setImage f).image.id = x.image.id := hid x.image
      rw [hxid]
      by_cases hj : x.image.id = j
      · subst hj; simp
      · simp only [hj, decide_false, Ne.symm hj, if_false] at ih ⊢
        exact ih
    · rw [if_neg hx]
      by_cases hj : x.image.id = j
      · have hne : ¬j = id := fun h => hx (hj.trans h)
        simp [hj, hne]
      · simp only [hj, decide_false]
        exact ih

theorem mem_unshelve : x ∈ unshelve es id ↔ x ∈ es ∧ x.image.id ≠ id := by
  simp [unshelve]

theorem Shelf.unshelve (h : Shelf s es) (id : RecordId) : Shelf s (unshelve es id) where
  sorted := h.sorted.filter _
  range x hx := h.range x (mem_unshelve.mp hx).1
  ids := h.ids.sublist (List.filter_sublist.map _)
  fits x hx := h.fits x (mem_unshelve.mp hx).1
  named hne := h.named fun he => hne (by rw [he]; rfl)

theorem shelved?_unshelve (j : RecordId) :
    shelved? (LiveRecords.unshelve es id) j = if j = id then none else shelved? es j := by
  unfold LiveRecords.unshelve shelved?
  rw [List.find?_filter]
  by_cases hj : j = id
  · subst hj
    rw [if_pos rfl, List.find?_eq_none]
    simp
  · rw [if_neg hj]
    congr 1
    funext x
    by_cases hx : x.image.id = j
    · simp [hx, hj]
    · simp [hx]

theorem mem_insertShelved : x ∈ insertShelved e es ↔ x = e ∨ x ∈ es := by
  induction es with
  | nil => simp [insertShelved]
  | cons y ys ih =>
    unfold insertShelved
    split
    · simp
    · simp only [List.mem_cons, ih]
      constructor <;> (intro h; rcases h with h | h | h <;> simp [h])

theorem map_insertShelved (s : Schema) (e : Shelved) (es : List Shelved) :
    (insertShelved e es).map (Shelved.row s) = Table.place (e.row s) (es.map (Shelved.row s)) := by
  induction es with
  | nil => rfl
  | cons y ys ih =>
    rw [insertShelved, List.map_cons, Table.place]
    by_cases hlt : e.number < y.number
    · have hrow : (e.row s).number < (y.row s).number := hlt
      rw [if_pos hlt, if_pos hrow]
      rfl
    · have hrow : ¬(e.row s).number < (y.row s).number := hlt
      rw [if_neg hlt, if_neg hrow, List.map_cons, ih]

theorem sorted_insertShelved (h : es.Pairwise fun a b => a.number < b.number)
    (hne : ∀ x ∈ es, x.number ≠ e.number) :
    (insertShelved e es).Pairwise fun a b => a.number < b.number := by
  induction es with
  | nil => simp [insertShelved]
  | cons y ys ih =>
    obtain ⟨hy, hys⟩ := List.pairwise_cons.mp h
    unfold insertShelved
    split
    · next hlt =>
      refine List.pairwise_cons.mpr ⟨fun x hx => ?_, h⟩
      rcases List.mem_cons.mp hx with rfl | hx
      · exact hlt
      · exact Int.lt_trans hlt (hy x hx)
    · next hlt =>
      refine List.pairwise_cons.mpr ⟨fun x hx => ?_, ih hys fun x hx => hne x (by simp [hx])⟩
      rcases mem_insertShelved.mp hx with rfl | hx
      · have := hne y (by simp)
        omega
      · exact hy x hx

theorem perm_insertShelved (e : Shelved) (es : List Shelved) :
    (insertShelved e es).Perm (e :: es) := by
  induction es with
  | nil => exact .refl _
  | cons y ys ih =>
    unfold insertShelved
    split
    · exact .refl _
    · exact (ih.cons y).trans (.swap e y ys)

/-- A row that is written takes the place of the one with its key. -/
theorem Shelf.insert (h : Shelf s es) (hrange : -0x8000000000000000 ≤ e.number ∧
    e.number ≤ Table.maxNumber) (hfits : e.image.Fits s) (hn : s.Named)
    (hne : ∀ x ∈ es, x.image.id ≠ e.image.id → x.number ≠ e.number) :
    Shelf s (insertShelved e (LiveRecords.unshelve es e.image.id)) where
  sorted := sorted_insertShelved (h.unshelve _).sorted fun x hx =>
    hne x (mem_unshelve.mp hx).1 (mem_unshelve.mp hx).2
  range := by
    intro x hx
    rcases mem_insertShelved.mp hx with rfl | hx
    · exact hrange
    · exact h.range x (mem_unshelve.mp hx).1
  ids := by
    refine ((perm_insertShelved _ _).map _).nodup_iff.mpr ?_
    refine List.nodup_cons.mpr ⟨fun hmem => ?_, (h.unshelve _).ids⟩
    obtain ⟨x, hx, hid⟩ := List.mem_map.mp hmem
    exact (mem_unshelve.mp hx).2 hid
  fits := by
    intro x hx
    rcases mem_insertShelved.mp hx with rfl | hx
    · exact hfits
    · exact h.fits x (mem_unshelve.mp hx).1
  named _ := hn

/-- A row with the number of the one with its key takes its very place. -/
theorem insert_unshelve_eq_revise (hsorted : es.Pairwise fun a b => a.number < b.number)
    (hn : (es.map (·.image.id)).Nodup) (he : e ∈ es) {y : RowImage} (hy : y.id = e.image.id) :
    insertShelved ⟨e.number, y⟩ (LiveRecords.unshelve es y.id) =
      LiveRecords.revise es y.id fun z => if z.id = y.id then y else z := by
  induction es with
  | nil => cases he
  | cons x xs ih =>
    obtain ⟨hlt, hrest⟩ := List.pairwise_cons.mp hsorted
    obtain ⟨hx, hxs⟩ := List.nodup_cons.mp hn
    by_cases hid : x.image.id = y.id
    · have hxe : x = e := by
        rcases List.mem_cons.mp he with rfl | he
        · rfl
        · exact absurd (List.mem_map.mpr ⟨e, he, hy.symm.trans hid.symm⟩) hx
      subst hxe
      have hother : ∀ z ∈ xs, z.image.id ≠ y.id := fun z hz hzy =>
        hx (List.mem_map.mpr ⟨z, hz, hzy.trans hid.symm⟩)
      have hkeep : LiveRecords.unshelve (x :: xs) y.id = xs := by
        rw [LiveRecords.unshelve, List.filter_cons_of_neg (by simp [hid])]
        exact List.filter_eq_self.mpr fun z hz => by simpa using hother z hz
      have hsame : LiveRecords.revise xs y.id (fun z => if z.id = y.id then y else z) = xs :=
        (List.map_congr_left (g := fun z => z) fun z hz => if_neg (hother z hz)).trans
          (List.map_id' xs)
      rw [hkeep, LiveRecords.revise, List.map_cons, if_pos hid, Shelved.setImage, if_pos hid]
      refine Eq.trans ?_ (congrArg _ hsame.symm)
      cases xs with
      | nil => rfl
      | cons z zs => exact if_pos (hlt z List.mem_cons_self)
    · have hmem : e ∈ xs := (List.mem_cons.mp he).resolve_left fun h => hid (h ▸ hy.symm)
      have hkeep : LiveRecords.unshelve (x :: xs) y.id = x :: LiveRecords.unshelve xs y.id :=
        List.filter_cons_of_pos (by simp [hid])
      have hafter : ¬e.number < x.number := fun h => Int.lt_asymm h (hlt e hmem)
      rw [hkeep, insertShelved, if_neg hafter, ih hrest hxs hmem, LiveRecords.revise,
        LiveRecords.revise, List.map_cons, if_neg hid]

/-- A row with the largest number comes last. -/
theorem insertShelved_last (h : ∀ x ∈ es, x.number < e.number) :
    insertShelved e es = es ++ [e] := by
  induction es with
  | nil => rfl
  | cons x xs ih =>
    have hafter : ¬e.number < x.number := Int.lt_asymm (h x List.mem_cons_self)
    rw [insertShelved, if_neg hafter, ih fun y hy => h y (List.mem_cons_of_mem _ hy)]
    rfl

/-- A row that comes in is revised as it would have been before. -/
theorem revise_insertShelved (hn : shelved? es id = none) (he : e.image.id = id)
    (f : RowImage → RowImage) :
    LiveRecords.revise (insertShelved e es) id f = insertShelved (e.setImage f) es := by
  have hne := shelved?_eq_none.mp hn
  clear hn
  induction es with
  | nil => exact congrArg (fun x => [x]) (if_pos he)
  | cons x xs ih =>
    have hx := hne x List.mem_cons_self
    have hsame : LiveRecords.revise xs id f = xs :=
      (List.map_congr_left (g := fun y => y) fun y hy =>
        if_neg (hne y (List.mem_cons_of_mem _ hy))).trans (List.map_id' xs)
    have hnumber : (e.setImage f).number = e.number := rfl
    unfold insertShelved
    rw [hnumber]
    split
    · rw [LiveRecords.revise, List.map_cons, List.map_cons, if_pos he, if_neg hx]
      exact congrArg (fun l => e.setImage f :: x :: l) hsame
    · rw [LiveRecords.revise, List.map_cons, if_neg hx]
      exact congrArg (x :: ·) (ih fun y hy => hne y (List.mem_cons_of_mem _ hy))

theorem shelved?_insert (hn : (es.map (·.image.id)).Nodup) (j : RecordId) :
    shelved? (insertShelved e (LiveRecords.unshelve es e.image.id)) j =
      if j = e.image.id then some e else shelved? es j := by
  have hnodup : ((insertShelved e (LiveRecords.unshelve es e.image.id)).map
      (·.image.id)).Nodup := by
    refine ((perm_insertShelved _ _).map _).nodup_iff.mpr (List.nodup_cons.mpr ⟨?_, ?_⟩)
    · intro hmem
      obtain ⟨x, hx, hid⟩ := List.mem_map.mp hmem
      exact (mem_unshelve.mp hx).2 hid
    · exact hn.sublist (List.filter_sublist.map _)
  by_cases hj : j = e.image.id
  · rw [if_pos hj, shelved?_eq_some hnodup]
    exact ⟨mem_insertShelved.mpr (.inl rfl), hj.symm⟩
  · rw [if_neg hj]
    ext x
    rw [shelved?_eq_some hnodup, shelved?_eq_some hn, mem_insertShelved, mem_unshelve]
    constructor
    · rintro ⟨rfl | ⟨hx, -⟩, hid⟩
      · exact absurd hid.symm hj
      · exact ⟨hx, hid⟩
    · rintro ⟨hx, hid⟩
      exact ⟨.inr ⟨hx, fun h => hj (hid.symm.trans h)⟩, hid⟩

end Changing

end LiveRecords
