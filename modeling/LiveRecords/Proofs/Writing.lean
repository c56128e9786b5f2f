import LiveRecords.Proofs.Databases
import LiveRecords.Proofs.Results

/-!
# Writing to the tables of record types

Where no table refers to another, a step has no consequences beyond its row.
So each statement that succeeds turns the rows of its type into others by one
change under one key, and leaves all other tables.
-/

namespace LiveRecords

open Table (Cell Column Refusal Resolution Row UniqueKey)

theorem Table.compareOctets_eq {a b : List UInt8} (h : compareOctets a b = .eq) : a = b := by
  induction a generalizing b with
  | nil =>
    cases b with
    | nil => rfl
    | cons _ _ => cases h
  | cons x xs ih =>
    cases b with
    | nil => cases h
    | cons y ys =>
      unfold compareOctets at h
      split at h
      · cases h
      split at h
      · cases h
      · next hxy hyx =>
        have hle := UInt8.not_lt.mp hxy
        have hge := UInt8.not_lt.mp hyx
        rw [UInt8.le_antisymm hge hle, ih h]

namespace Table

variable {t : Table} {override : Option Resolution} {touched : Column → Bool} {r : Row}

theorem generated_eq_nil (hgen : ∀ c ∈ t.columns, c.generated = none) :
    t.columns.filter (·.generated.isSome) = [] := by
  rw [List.filter_eq_nil_iff]
  intro c hc
  rw [hgen c hc]
  simp

theorem changedColumns_eq (hgen : ∀ c ∈ t.columns, c.generated = none) (names : List String) :
    t.changedColumns names = names := by
  rw [changedColumns, generated_eq_nil hgen]
  rfl

theorem fillNulls_eq {cs : List Column}
    (h : ∀ c ∈ cs, c.notNull.isSome = true → (t.cell r c.name).isNull = false) :
    t.fillNulls override cs r = .ok (some r) := by
  induction cs with
  | nil => rfl
  | cons c cs ih =>
    have hrest := ih fun c' hc' => h c' (List.mem_cons_of_mem _ hc')
    unfold fillNulls
    split
    · exact hrest
    · next hcond =>
      have hnull : c.notNull = none := by
        cases hn : c.notNull with
        | none => rfl
        | some _ =>
          have := h c List.mem_cons_self (by rw [hn]; rfl)
          simp [this] at hcond
      simp only [Column.onNull, hnull, Option.map_none]
      exact hrest

theorem keepsNulls_eq {cs : List Column}
    (h : ∀ c ∈ cs, c.notNull.isSome = true → (t.cell r c.name).isNull = false) :
    t.keepsNulls override r cs = .ok true := by
  induction cs with
  | nil => rfl
  | cons c cs ih =>
    have hrest := ih fun c' hc' => h c' (List.mem_cons_of_mem _ hc')
    unfold keepsNulls
    split
    · next hcond =>
      have hnull : c.notNull = none := by
        cases hn : c.notNull with
        | none => rfl
        | some _ =>
          have := h c List.mem_cons_self (by rw [hn]; rfl)
          simp [this] at hcond
      simp only [Column.onNull, hnull, Option.map_none]
      exact hrest
    · exact hrest

/-- A row is taken as it is where no touched column lacks a value it needs. -/
theorem fit_eq (hgen : ∀ c ∈ t.columns, c.generated = none) (hchecks : t.checks = [])
    (hnull : ∀ c ∈ t.columns, touched c = true → c.notNull.isSome = true →
      (t.cell r c.name).isNull = false) : t.fit override touched r = .ok (some r) := by
  have hmem : ∀ {p : Column → Bool} {c : Column}, c ∈ t.columns.filter p →
      (p c = true → touched c = true) → c.notNull.isSome = true →
      (t.cell r c.name).isNull = false := by
    intro p c hc hp
    obtain ⟨hc, hpc⟩ := List.mem_filter.mp hc
    exact hnull c hc (hp hpc)
  have hgenerate : t.generate r = .ok r := by
    rw [generate, generated_eq_nil hgen]
    rfl
  have hfill : t.fillNulls override (t.columns.filter touched) r = .ok (some r) :=
    fillNulls_eq fun c hc hn => hmem hc (fun h => h) hn
  have hkeep : t.keepsNulls override r
      (t.columns.filter fun c => touched c || c.generated.isSome) = .ok true :=
    keepsNulls_eq fun c hc hn => by
      refine hmem hc (fun h => ?_) hn
      simpa [hgen c (List.mem_filter.mp hc).1] using h
  simp only [fit, hgenerate, bind, Except.bind, hfill, hkeep, if_true, hchecks, checkViolation?]
  rfl

end Table

namespace Database

variable {d : Database} {p : Pending} {t : Table} {s : Schema} {es : List Shelved}
  {e : Shelved} {id : RecordId}

/-! ## Steps without consequences -/

theorem release_eq (ht : t.references = []) (touch : Touch) (row : Row) :
    p.release t touch row = p := by
  simp [Pending.release, ht]

theorem claim_eq (ht : t.references = []) (touch : Touch) (last : Option Preparation) (row : Row) :
    p.claim t touch last row = p := by
  simp [Pending.claim, ht]

theorem abandon_eq (hd : p.database.Plain) (touch : Touch) (row : Row) :
    p.abandon t touch row = p := by
  simp [Pending.abandon, hd.referencesMet]

theorem adopt_eq (hd : p.database.Plain) (touch : Touch) (row : Row) :
    p.adopt t touch row = p := by
  simp [Pending.adopt, hd.referencesMet]

theorem followAll_eq (hd : p.database.Plain)
    (run : Pending → Step → Except Refusal Pending) (touch : Touch) (old : Row)
    (new : Option Row) : followAll run t touch old new p = .ok p := by
  simp [followAll, hd.referencesMet, pure, Except.pure]

theorem anyTouched_eq (hd : d.Plain) (ht : t.references = []) (touch : Touch) :
    d.anyTouched t touch = false := by
  simp [anyTouched, ht, hd.referencesMet]

theorem referenceFault?_eq (hd : d.Plain) (ht : t.references = []) (hk : t.keys = [.primary])
    (depth : Nat) (touch : Touch) : referenceFault? depth d t false touch = none := by
  cases depth with
  | zero => rfl
  | succ depth =>
    have hreplaces : ∀ columns, d.replacesRows t false columns = false := by
      intro columns
      simp [replacesRows, hk, UniqueKey.primary]
    unfold referenceFault?
    cases touch <;> simp [anyTouched_eq hd ht, hreplaces]

/-! ## Rows by number -/

theorem number_injective (h : Shelf s es) {x y : Shelved} (hx : x ∈ es) (hy : y ∈ es)
    (hn : x.number = y.number) : x = y := by
  obtain ⟨i, hi, rfl⟩ := List.mem_iff_getElem.mp hx
  obtain ⟨j, hj, rfl⟩ := List.mem_iff_getElem.mp hy
  have hp := List.pairwise_iff_getElem.mp h.sorted
  rcases Nat.lt_trichotomy i j with hij | hij | hij
  · have := hp i j hi hj hij
    omega
  · subst hij
    rfl
  · have := hp j i hj hi hij
    omega

theorem rowAt?_tableOf (h : Shelf s es) (he : e ∈ es) :
    (tableOf s es).rowAt? e.number = some (e.row s) := by
  obtain ⟨i, hi, rfl⟩ := List.mem_iff_getElem.mp he
  refine List.find?_eq_some_iff_getElem.mpr
    ⟨by simp, i, by simpa [tableOf] using hi, by simp [tableOf], fun j hj => ?_⟩
  have hlt := List.pairwise_iff_getElem.mp h.sorted j i (Nat.lt_trans hj hi) hi hj
  simp only [tableOf, List.getElem_map, Shelved.number_row, Bool.not_eq_true', beq_eq_false_iff_ne]
  omega

theorem rowAt?_eq_none {n : Int} (h : ∀ x ∈ es, x.number ≠ n) :
    (tableOf s es).rowAt? n = none := by
  simpa [Table.rowAt?, tableOf, List.find?_eq_none] using h

theorem filter_number (h : Shelf s es) (he : shelved? es id = some e) :
    es.filter (fun x => x.number != e.number) = unshelve es id := by
  obtain ⟨hmem, hid⟩ := mem_of_shelved? he
  refine List.filter_congr fun x hx => ?_
  rw [Bool.eq_iff_iff, bne_iff_ne, decide_eq_true_iff]
  constructor
  · intro hne hxid
    have := (shelved?_eq_some h.ids).mpr ⟨hx, hxid⟩
    rw [he] at this
    cases this
    exact hne rfl
  · intro hne hnum
    rw [number_injective h hx hmem hnum] at hne
    exact hne hid

theorem without_tableOf (s : Schema) (es : List Shelved) (n : Int) :
    (tableOf s es).without n = tableOf s (es.filter fun x => x.number != n) := by
  have hrows : (es.map (Shelved.row s)).filter (fun r => r.number != n) =
      (es.filter fun x => x.number != n).map (Shelved.row s) := by
    rw [List.filter_map]
    rfl
  simp only [Table.without, tableOf, hrows]

theorem put_tableOf (s : Schema) (es : List Shelved) (e : Shelved) :
    (tableOf s es).put e.number (e.row s) =
      tableOf s (insertShelved e (es.filter fun x => x.number != e.number)) := by
  rw [Table.put, without_tableOf]
  simp only [tableOf, map_insertShelved]

/-- A row that keeps its number keeps its place. -/
theorem insert_in_place {f : RowImage → RowImage} (h : Shelf s es)
    (he : shelved? es id = some e) :
    insertShelved (e.setImage f) (es.filter fun x => x.number != e.number) = revise es id f := by
  induction es with
  | nil => cases he
  | cons x xs ih =>
    obtain ⟨hlt, hsorted⟩ := List.pairwise_cons.mp h.sorted
    have hids := h.ids
    rw [List.map_cons, List.nodup_cons] at hids
    by_cases hx : x.image.id = id
    · have hxe : x = e := by
        simpa [shelved?, List.find?_cons, hx] using he
      subst hxe
      have hrest : xs.filter (fun y => y.number != x.number) = xs := by
        refine List.filter_eq_self.mpr fun y hy => ?_
        have := hlt y hy
        simpa using (Int.ne_of_lt this).symm
      have hkeep : xs.map (fun y => if y.image.id = id then y.setImage f else y) = xs := by
        refine (List.map_congr_left (g := fun y => y) fun y hy => if_neg fun hid => ?_).trans
          (List.map_id' xs)
        exact hids.1 (by rw [hx, ← hid]; exact List.mem_map_of_mem hy)
      rw [revise, List.map_cons, if_pos hx, hkeep, List.filter_cons_of_neg (by simp), hrest]
      cases xs with
      | nil => rfl
      | cons y ys =>
        have hnum : (x.setImage f).number < y.number := hlt y (by simp)
        rw [insertShelved, if_pos hnum]
    · have he' : shelved? xs id = some e := by
        simpa [shelved?, List.find?_cons, hx] using he
      have hshelf : Shelf s xs :=
        ⟨hsorted, fun y hy => h.range y (by simp [hy]), hids.2, fun y hy => h.fits y (by simp [hy]),
          fun _ => h.named (by simp)⟩
      have hnum := hlt e (mem_of_shelved? he').1
      have hne : (x.number != e.number) = true := by simpa using Int.ne_of_lt hnum
      have hnot : ¬(e.setImage f).number < x.number := Int.not_lt.mpr (Int.le_of_lt hnum)
      rw [List.filter_cons_of_pos (p := fun y : Shelved => y.number != e.number) hne, insertShelved,
        if_neg hnot, ih hshelf he', revise, revise, List.map_cons, if_neg hx]

theorem generated_ofSchema {c : Column} (hc : c ∈ Column.ofSchema s) :
    c.generated = none ∧ c.default = none := by
  rw [ofSchema_eq_cons] at hc
  rcases List.mem_cons.mp hc with rfl | hc
  · exact ⟨rfl, rfl⟩
  rcases List.mem_append.mp (List.mem_filter.mp hc).1 with hc | hc
  · obtain ⟨p, -, rfl⟩ := List.mem_map.mp hc
    exact ⟨rfl, rfl⟩
  · obtain ⟨f, -, rfl⟩ := List.mem_map.mp hc
    exact ⟨rfl, rfl⟩

/-- No other row has the key of a row in its place. -/
theorem rival?_eq_none {n : Int} {k : UniqueKey} (hk : k.parts = UniqueKey.primary.parts)
    (h : ∀ x ∈ es, x.number ≠ n → x.image.id ≠ e.image.id) :
    (tableOf s es).rival? k (e.row s) n = none := by
  refine List.find?_eq_none.mpr fun r hr => ?_
  obtain ⟨x, hx, rfl⟩ := List.mem_map.mp hr
  rw [Bool.and_eq_true, bne_iff_ne]
  rintro ⟨hne, hagree⟩
  refine h x hx hne ?_
  simp only [Table.agree, hk, UniqueKey.primary, List.all_cons, List.all_nil, cell_key,
    Cell.compareBy, Bool.and_true, Bool.and_eq_true, beq_iff_eq] at hagree
  exact (RecordId.bytes_inj (Table.compareOctets_eq hagree.2)).symm

/-! ## Cells that change -/

theorem columnIndex?_field (hp : s.Proper) (hn : s.Named) {i : Nat} {f : Field}
    (hf : s.fields[i]? = some f) :
    (tableOf s es).columnIndex? f.name = some (fieldPlace s i) :=
  Table.columnIndex?_of_getElem? (columns_distinct hp hn) (columns_field hn hf) (sameName_refl _)

theorem columnIndex?_parent (hp : s.Proper) (hn : s.Named) {p : String}
    (hs : s.parentColumn = some p) : (tableOf s es).columnIndex? p = some 1 :=
  Table.columnIndex?_of_getElem? (columns_distinct hp hn) (columns_parent hn hs) (sameName_refl _)

theorem setCell_field (hp : s.Proper) (hn : s.Named) {i : Nat} {f : Field}
    (hi : s.fieldIndex? f.name = some i) (hf : s.fields[i]? = some f) {v : Value}
    (hv : v.fits f.type f.notNull = true) :
    (tableOf s es).setCell f.name (Cell.ofValue v) (e.row s) =
      (e.setImage (RowImage.setValue s f.name v)).row s := by
  have hcells : (e.image.cells s).set (fieldPlace s i) (Cell.ofValue v) =
      (e.image.setValue s f.name v).cells s := by
    rw [RowImage.setValue, hi, RowImage.cells, RowImage.cells, fieldPlace, Nat.add_assoc,
      Nat.add_comm 1, List.set_cons_succ, List.set_append_right _ _ (by simp), List.map_set]
    simp
  rw [Table.setCell, columnIndex?_field hp hn hf, Table.affinity, hasColumn_field hp hn hf]
  show Row.mk e.number ((e.image.cells s).set (fieldPlace s i)
    ((Table.Affinity.ofField f.type).store (Cell.ofValue v))) = _
  rw [Table.Affinity.store_ofValue_of_fits hv, hcells]
  rfl

theorem setCell_parent (hp : s.Proper) (hn : s.Named) {p : String}
    (hs : s.parentColumn = some p) (parent : Option RecordId) :
    (tableOf s es).setCell p (Cell.ofValue (.ofId? parent)) (e.row s) =
      (e.setImage fun x => { x with parent }).row s := by
  have hcells : (e.image.cells s).set 1 (Cell.ofValue (.ofId? parent)) =
      RowImage.cells s { e.image with parent } := by
    rw [RowImage.cells, RowImage.cells, hs]
    rfl
  rw [Table.setCell, columnIndex?_parent hp hn hs, Table.affinity, hasColumn_parent hp hn hs]
  show Row.mk e.number ((e.image.cells s).set 1
    (Table.Affinity.none.store (Cell.ofValue (.ofId? parent)))) = _
  rw [Table.Affinity.store, hcells]
  rfl

theorem isNull_ofValue {v : Value} {type : FieldType} (h : v.fits type true = true) :
    (Cell.ofValue v).isNull = false := by
  cases v with
  | null => cases type <;> cases h
  | _ => rfl

/-- A row of an image that fits lacks no value it needs. -/
theorem isNull_cell (hp : s.Proper) (hn : s.Named) (hf : e.image.Fits s) {c : Column}
    (hc : c ∈ Column.ofSchema s) (hnull : c.notNull.isSome = true) :
    ((tableOf s es).cell (e.row s) c.name).isNull = false := by
  rw [ofSchema_of_named hn] at hc
  rcases List.mem_cons.mp hc with rfl | hc
  · show ((tableOf s es).cell (e.row s) keyColumn).isNull = false
    rw [cell_key]
    rfl
  rcases List.mem_append.mp hc with hc | hc
  · obtain ⟨p, -, rfl⟩ := List.mem_map.mp hc
    cases hnull
  · obtain ⟨f, hmem, rfl⟩ := List.mem_map.mp hc
    obtain ⟨i, hi⟩ := List.mem_iff_getElem?.mp hmem
    have hlt : i < e.image.values.length := by
      rw [hf.length]
      exact (List.getElem?_eq_some_iff.mp hi).1
    have hv := List.getElem?_eq_getElem hlt
    have hfits := hf.values hi hv
    have hflag : f.notNull = true := by
      cases hb : f.notNull with
      | true => rfl
      | false => simp [Column.ofField, hb] at hnull
    rw [hflag] at hfits
    show ((tableOf s es).cell (e.row s) f.name).isNull = false
    rw [cell_field hp hn hi hv]
    exact isNull_ofValue hfits

/-! ## Single steps -/

theorem perform_erase_none (h : d.Holds s es) {n : Int} (hn : ∀ x ∈ es, x.number ≠ n)
    (depth : Nat) (guarded : Bool) :
    Pending.perform (depth + 1) { database := d } (.erase guarded s.table n) =
      .ok (0, { database := d }) := by
  unfold Pending.perform
  simp only [h.table, rowAt?_eq_none hn]

/-- Removing a row removes that one and nothing else. -/
theorem perform_erase (hd : d.Plain) (h : d.Holds s es) (he : shelved? es id = some e)
    (depth : Nat) (guarded : Bool) :
    Pending.perform (depth + 1) { database := d } (.erase guarded s.table e.number) =
      .ok (1, { database := d.shelve s (unshelve es id) }) := by
  have hrow := rowAt?_tableOf h.shelf (mem_of_shelved? he).1
  have hguard : (guarded && (tableOf s es).guarded .delete []) = false := Bool.and_false _
  have hwithout : (tableOf s es).without e.number = tableOf s (unshelve es id) := by
    rw [without_tableOf, filter_number h.shelf he]
  unfold Pending.perform
  simp only [h.table, hrow, hguard, release_eq (t := tableOf s es) rfl,
    abandon_eq (p := { database := d }) hd, hwithout, Pending.setTable]
  exact congrArg (fun p => p.map ((1 : Nat), ·))
    (followAll_eq (p := { database := d.shelve s (unshelve es id) }) (hd.shelve s _) _ _ _ _)

theorem guarded_tableOf (event : Table.Event) (columns : List String) :
    (tableOf s es).guarded event columns = false := rfl

theorem fit_tableOf (override : Option Resolution) (touched : Column → Bool)
    (hnull : ∀ c ∈ Column.ofSchema s, touched c = true → c.notNull.isSome = true →
      ((tableOf s es).cell (e.row s) c.name).isNull = false) :
    (tableOf s es).fit override touched (e.row s) = .ok (some (e.row s)) :=
  Table.fit_eq (fun _ hc => (generated_ofSchema hc).1) rfl hnull

/-- Setting the cell of a row that goes into another image. -/
theorem perform_assign (hd : d.Plain) (h : d.Holds s es) (he : shelved? es id = some e)
    {column : String} {x : Cell} {f : RowImage → RowImage} (hf : (f e.image).id = e.image.id)
    (hset : (tableOf s es).setCell column x (e.row s) = (e.setImage f).row s)
    (hmeans : (tableOf s es).meansNumber column = false)
    (hnull : ∀ c ∈ Column.ofSchema s, sameName c.name column = true → c.notNull.isSome = true →
      ((tableOf s es).cell ((e.setImage f).row s) c.name).isNull = false) (depth : Nat) :
    Pending.perform (depth + 1) { database := d } (.assign none s.table e.number [(column, x)]) =
      .ok (1, { database := d.shelve s (revise es id f) }) := by
  have hrow := rowAt?_tableOf h.shelf (mem_of_shelved? he).1
  have hassigned : assigned (tableOf s es) (e.row s) [(column, x)] =
      .ok ((e.setImage f).row s) := by
    simp [assigned, hmeans, hset]
  have hchanged : (tableOf s es).changedColumns [column] = [column] :=
    Table.changedColumns_eq (fun _ hc => (generated_ofSchema hc).1) _
  have hfit : (tableOf s es).fit none (fun c => [column].any (sameName c.name))
      ((e.setImage f).row s) = .ok (some ((e.setImage f).row s)) :=
    fit_tableOf none _ fun c hc ht hn => hnull c hc (by simpa using ht) hn
  have hmoves : (((e.setImage f).row s).number != e.number) = false := bne_self_eq_false _
  have hrival : (tableOf s es).rival? .primary ((e.setImage f).row s) e.number = none := by
    refine rival?_eq_none rfl fun y hy hne hid => hne ?_
    have hmem := mem_of_shelved? he
    have hid' : y.image.id = e.image.id := hid.trans hf
    have := shelved?_of_mem h.shelf.ids hy
    rw [hid', hmem.2, he] at this
    exact congrArg Shelved.number (Option.some.inj this).symm
  have hroom : ∀ run, makeRoom run s.table e.number ((e.setImage f).row s)
      ((tableOf s es).keysUnder none) { database := d } = .ok (some { database := d }) := by
    intro run
    have hkeys : (tableOf s es).keysUnder none = [.primary] := rfl
    rw [hkeys, makeRoom]
    simp only [h.table, hrival]
    rfl
  have hput : (tableOf s es).put e.number ((e.setImage f).row s) =
      tableOf s (revise es id f) := by
    have := put_tableOf s es (e.setImage f)
    rw [← insert_in_place h.shelf he]
    exact this
  unfold Pending.perform
  simp only [h.table, hrow, List.map_cons, List.map_nil, hchanged, hassigned, guarded_tableOf,
    bind, Except.bind, hfit, hmoves, Bool.false_and, Bool.false_eq_true, if_false,
    hroom, Option.getD_some, anyTouched_eq (t := tableOf s es) hd rfl, hput, Pending.setTable]
  exact congrArg (fun p => p.map ((1 : Nat), ·))
    (followAll_eq (p := { database := d.shelve s (revise es id f) }) (hd.shelve s _) _ _ _ _)

end Database

end LiveRecords
