import LiveRecords.Proofs.Writing

/-!
# Writing whole rows

A row that is inserted gets a number that no other row has, or the one of the
row with its key, whose place it takes. So an insertion leaves the table of the
type with the rows of other keys as they were.
-/

namespace LiveRecords

open Table (Cell Column Refusal Resolution Row UniqueKey)

namespace Database

variable {d : Database} {s : Schema} {es : List Shelved} {e : Shelved} {id : RecordId}

/-! ## Row numbers -/

theorem not_resolved (es : List Shelved) {name : String} (hk : sameName keyColumn name = false)
    (h : ∀ n ∈ s.columnNames, sameName n name = false) :
    (tableOf s es).hasColumn name = false := by
  rw [Table.hasColumn, Option.isSome_eq_false_iff, Option.isNone_iff_eq_none]
  refine List.find?_eq_none.mpr fun c hc => ?_
  rw [Bool.not_eq_true]
  have hc' : c ∈ Column.ofSchema s := hc
  rw [ofSchema_eq_cons] at hc'
  rcases List.mem_cons.mp hc' with rfl | hc'
  · exact hk
  rcases List.mem_append.mp (List.mem_filter.mp hc').1 with hc' | hc'
  · obtain ⟨p, hp, rfl⟩ := List.mem_map.mp hc'
    exact h _ (List.mem_append_right _ hp)
  · obtain ⟨f, hf, rfl⟩ := List.mem_map.mp hc'
    exact h _ (List.mem_append_left _ (List.mem_map_of_mem hf))

theorem meansNumber_rowid (hu : s.Unnumbered) : (tableOf s es).meansNumber "rowid" = true := by
  rw [Table.meansNumber, not_resolved es (by decide) hu]
  decide

theorem getLast?_rows : (tableOf s es).rows.getLast? = es.getLast?.map (Shelved.row s) :=
  List.getLast?_map

theorem le_getLast {x : Shelved} (h : es.Pairwise fun a b => a.number < b.number)
    (he : es.getLast? = some e) (hx : x ∈ es) : x.number ≤ e.number := by
  induction es with
  | nil => cases hx
  | cons y ys ih =>
    obtain ⟨hlt, hsorted⟩ := List.pairwise_cons.mp h
    cases ys with
    | nil =>
      rw [List.mem_singleton.mp hx, List.getLast?_singleton] at *
      cases he
      exact Int.le_refl _
    | cons z zs =>
      rw [List.getLast?_cons_cons] at he
      rcases List.mem_cons.mp hx with rfl | hx
      · exact Int.le_of_lt (hlt e (List.mem_of_getLast? he))
      · exact ih hsorted he hx

theorem lt_numberAfter (h : Shelf s es) :
    (∀ x ∈ es, x.number < Table.numberAfter (tableOf s es).rows) ∧
      -0x8000000000000000 ≤ Table.numberAfter (tableOf s es).rows := by
  rw [Table.numberAfter, getLast?_rows]
  cases he : es.getLast? with
  | none =>
    rw [List.getLast?_eq_none_iff.mp he]
    refine ⟨by simp, ?_⟩
    show (-0x8000000000000000 : Int) ≤ 1
    decide
  | some e =>
    have hrange := h.range e (List.mem_of_getLast? he)
    refine ⟨fun x hx => ?_, ?_⟩
    · exact Int.lt_add_one_of_le (le_getLast h.sorted he hx)
    · show -0x8000000000000000 ≤ e.number + 1
      omega

/-- The number of a new row is no other row's. -/
theorem nextNumber_tableOf (h : Shelf s es) {n : Int} (hn : (tableOf s es).nextNumber = .ok n) :
    (-0x8000000000000000 ≤ n ∧ n ≤ Table.maxNumber) ∧ ∀ x ∈ es, x.number ≠ n := by
  obtain ⟨hlt, hlow⟩ := lt_numberAfter h
  simp only [Table.nextNumber] at hn
  split at hn
  · next hle =>
    cases hn
    exact ⟨⟨hlow, hle⟩, fun x hx => Int.ne_of_lt (hlt x hx)⟩
  split at hn
  · next m hfind =>
    cases hn
    have hmem := List.mem_of_find?_eq_some hfind
    have hm := List.find?_some hfind
    rw [Bool.and_eq_true, decide_eq_true_iff] at hm
    have hone : 1 ≤ n := by
      rcases List.mem_cons.mp hmem with rfl | hmem
      · exact Int.le_max_left _ _
      · obtain ⟨k, -, rfl⟩ := List.mem_map.mp hmem
        omega
    have htop : n ≤ Table.maxNumber := Int.le_trans hm.1 (by decide)
    refine ⟨⟨by omega, htop⟩, fun x hx => ?_⟩
    have hunused := List.all_eq_true.mp hm.2 (x.row s) (List.mem_map_of_mem hx)
    simpa using hunused
  · cases hn

/-- Where numbers are left above, a new row comes after all others. -/
theorem nextNumber_last (h : Shelf s es) (hroom : ∀ x ∈ es, x.number < Table.maxNumber) {n : Int}
    (hn : (tableOf s es).nextNumber = .ok n) : ∀ x ∈ es, x.number < n := by
  have hle : Table.numberAfter (tableOf s es).rows ≤ Table.maxNumber := by
    rw [Table.numberAfter, getLast?_rows]
    cases he : es.getLast? with
    | none =>
      show (1 : Int) ≤ Table.maxNumber
      decide
    | some e => exact Int.add_one_le_of_lt (hroom e (List.mem_of_getLast? he))
  rw [Table.nextNumber, if_pos hle] at hn
  cases hn
  exact (lt_numberAfter h).1

/-! ## Cells by column -/

theorem find?_of_unique {α : Type} {p : α → Bool} {l : List α} {a : α} (ha : a ∈ l)
    (hp : p a = true) (hu : ∀ b ∈ l, p b = true → b = a) : l.find? p = some a := by
  cases hf : l.find? p with
  | none => exact absurd hp (List.find?_eq_none.mp hf a ha)
  | some b => rw [hu b (List.mem_of_find?_eq_some hf) (List.find?_some hf)]

/-- The cells of a row come from what is listed for each column. -/
theorem assemble_eq {listed : List (String × Cell)} {cs : List Column} {xs : List Cell}
    (hl : cs.length = xs.length)
    (h : ∀ (i : Nat) (c : Column) (x : Cell), cs[i]? = some c → xs[i]? = some x →
      ∃ y, listed.find? (fun e => sameName e.1 c.name) = some y ∧ c.affinity.store y.2 = x) :
    Table.assemble listed cs = .ok xs := by
  induction cs generalizing xs with
  | nil =>
    rw [List.length_eq_zero_iff.mp hl.symm]
    rfl
  | cons c cs ih =>
    cases xs with
    | nil => cases hl
    | cons x xs =>
      obtain ⟨y, hfind, hx⟩ := h 0 c x rfl rfl
      have hrest : Table.assemble listed cs = .ok xs := ih (by simpa using hl) fun i c' x' hc hx =>
        h (i + 1) c' x' (by simpa using hc) (by simpa using hx)
      rw [Table.assemble, hfind]
      simp only [hrest, hx, bind, Except.bind, pure, Except.pure]

variable {n : Cell} {values : List Value} {parent : Option RecordId}

theorem mem_listedCells {a : String} {y : Cell} (h : (a, y) ∈ listedCells s n id values parent) :
    (a = "rowid" ∧ y = n) ∨
      (∃ (i : Nat) (v : Value) (f : Field), s.fields[i]? = some f ∧ values[i]? = some v ∧
        a = f.name ∧ y = .ofValue v) ∨
      (s.parentColumn = some a ∧ y = .ofValue (.ofId? parent)) ∨
      (a = keyColumn ∧ y = .blob id.bytes) := by
  rw [listedCells, List.mem_append, List.mem_append, List.mem_cons] at h
  rcases h with ((h | h) | h) | h
  · cases h
    exact .inl ⟨rfl, rfl⟩
  · obtain ⟨i, hi⟩ := List.mem_iff_getElem?.mp h
    obtain ⟨ha, hy⟩ := List.getElem?_zip_eq_some.mp hi
    rw [Schema.fieldNames, List.getElem?_map, Option.map_eq_some_iff] at ha
    rw [List.getElem?_map, Option.map_eq_some_iff] at hy
    obtain ⟨f, hf, rfl⟩ := ha
    obtain ⟨v, hv, rfl⟩ := hy
    exact .inr (.inl ⟨i, v, f, hf, hv, rfl, rfl⟩)
  · obtain ⟨p, hp, hpair⟩ := List.mem_map.mp h
    cases hpair
    exact .inr (.inr (.inl ⟨by simpa using hp, rfl⟩))
  · cases List.mem_singleton.mp h
    exact .inr (.inr (.inr ⟨rfl, rfl⟩))

theorem field_mem_columnNames {i : Nat} {f : Field} (hf : s.fields[i]? = some f) :
    f.name ∈ s.columnNames :=
  List.mem_append_left _ (List.mem_map_of_mem (List.mem_of_getElem? hf))

theorem parent_mem_columnNames {p : String} (hs : s.parentColumn = some p) :
    p ∈ s.columnNames :=
  List.mem_append_right _ (by simp [hs])

/-- Fields are told apart by their names. -/
theorem field_index_unique (hp : s.Proper) {i j : Nat} {f g : Field}
    (hf : s.fields[i]? = some f) (hg : s.fields[j]? = some g)
    (h : sameName f.name g.name = true) : i = j := by
  have hfields := (List.pairwise_append.mp hp.distinct).1
  rw [Schema.fieldNames, List.pairwise_map] at hfields
  obtain ⟨hi, rfl⟩ := List.getElem?_eq_some_iff.mp hf
  obtain ⟨hj, rfl⟩ := List.getElem?_eq_some_iff.mp hg
  rcases Nat.lt_trichotomy i j with hij | hij | hij
  · have := List.pairwise_iff_getElem.mp hfields i j hi hj hij
    rw [h] at this
    cases this
  · exact hij
  · have := List.pairwise_iff_getElem.mp hfields j i hj hi hij
    rw [sameName_comm, h] at this
    cases this

theorem field_ne_parent (hp : s.Proper) {i : Nat} {f : Field} {p : String}
    (hf : s.fields[i]? = some f) (hs : s.parentColumn = some p) :
    sameName f.name p = false :=
  (List.pairwise_append.mp hp.distinct).2.2 _ (List.mem_map_of_mem (List.mem_of_getElem? hf)) _
    (by simp [hs])

theorem find?_listed_key (hp : s.Proper) :
    (listedCells s n id values parent).find? (fun e => sameName e.1 keyColumn) =
      some (keyColumn, .blob id.bytes) := by
  refine find?_of_unique (by simp [listedCells]) (sameName_refl _) fun ⟨a, y⟩ hb hsame => ?_
  rcases mem_listedCells hb with ⟨rfl, rfl⟩ | ⟨i, v, f, hf, -, rfl, rfl⟩ | ⟨hs, rfl⟩ | ⟨rfl, rfl⟩
  · have hkey : sameName "rowid" keyColumn = false := by decide
    rw [hkey] at hsame
    cases hsame
  · rw [hp.unkeyed _ (field_mem_columnNames hf)] at hsame
    cases hsame
  · rw [hp.unkeyed _ (parent_mem_columnNames hs)] at hsame
    cases hsame
  · rfl

theorem find?_listed_parent (hp : s.Proper) {p : String} (hs : s.parentColumn = some p)
    (hu : sameName p "rowid" = false) :
    (listedCells s n id values parent).find? (fun e => sameName e.1 p) =
      some (p, .ofValue (.ofId? parent)) := by
  refine find?_of_unique (by simp [listedCells, hs]) (sameName_refl _) fun ⟨a, y⟩ hb hsame => ?_
  rcases mem_listedCells hb with ⟨rfl, rfl⟩ | ⟨i, v, f, hf, -, rfl, rfl⟩ | ⟨hs', rfl⟩ | ⟨rfl, rfl⟩
  · rw [sameName_comm, hu] at hsame
    cases hsame
  · rw [field_ne_parent hp hf hs] at hsame
    cases hsame
  · rw [hs] at hs'
    cases hs'
    rfl
  · rw [sameName_comm, hp.unkeyed _ (parent_mem_columnNames hs)] at hsame
    cases hsame

theorem find?_listed_field (hp : s.Proper) {i : Nat} {f : Field} {v : Value}
    (hf : s.fields[i]? = some f) (hv : values[i]? = some v)
    (hu : sameName f.name "rowid" = false) :
    (listedCells s n id values parent).find? (fun e => sameName e.1 f.name) =
      some (f.name, .ofValue v) := by
  have hmem : (f.name, Cell.ofValue v) ∈ s.fieldNames.zip (values.map Cell.ofValue) := by
    refine List.mem_iff_getElem?.mpr ⟨i, List.getElem?_zip_eq_some.mpr ⟨?_, ?_⟩⟩
    · simp [Schema.fieldNames, hf]
    · simp [hv]
  refine find?_of_unique (by simp [listedCells, hmem]) (sameName_refl _) fun e hb hsame => ?_
  obtain ⟨a, y⟩ := e
  rcases mem_listedCells hb with ⟨rfl, rfl⟩ | ⟨j, u, g, hg, hw, rfl, rfl⟩ | ⟨hs, rfl⟩ | ⟨rfl, rfl⟩
  · rw [sameName_comm, hu] at hsame
    cases hsame
  · cases field_index_unique hp hg hf hsame
    rw [hf] at hg
    rw [hv] at hw
    cases hg
    cases hw
    rfl
  · rw [sameName_comm, field_ne_parent hp hf hs] at hsame
    cases hsame
  · rw [sameName_comm, hp.unkeyed _ (field_mem_columnNames hf)] at hsame
    cases hsame

/-- The row of an image comes from what is listed for the key, the parent and
the fields. -/
theorem assemble_cells (hn : s.Named) {listed : List (String × Cell)} {x : RowImage}
    (hlen : x.values.length = s.fields.length)
    (hkey : ∃ y, listed.find? (fun e => sameName e.1 Column.key.name) = some y ∧
      Column.key.affinity.store y.2 = .blob x.id.bytes)
    (hparent : ∀ p, s.parentColumn = some p →
      ∃ y, listed.find? (fun e => sameName e.1 p) = some y ∧
        (Column.ofParent p).affinity.store y.2 = .ofValue (.ofId? x.parent))
    (hfield : ∀ {i : Nat} {f v}, s.fields[i]? = some f → x.values[i]? = some v →
      ∃ y, listed.find? (fun e => sameName e.1 f.name) = some y ∧
        (Column.ofField f).affinity.store y.2 = .ofValue v) :
    Table.assemble listed (Column.ofSchema s) = .ok (x.cells s) := by
  refine assemble_eq ?_ fun i c y hc hy => ?_
  · rw [ofSchema_of_named hn, RowImage.cells]
    simp [hlen]
  rw [ofSchema_of_named hn] at hc
  rw [RowImage.cells] at hy
  cases i with
  | zero =>
    cases hc
    cases hy
    exact hkey
  | succ i =>
    rw [List.getElem?_cons_succ, List.getElem?_append] at hc hy
    rw [List.length_map] at hc hy
    split at hc
    · next hlt =>
      rw [if_pos hlt, List.getElem?_map, Option.map_eq_some_iff] at hy
      rw [List.getElem?_map, Option.map_eq_some_iff] at hc
      obtain ⟨p, hpi, rfl⟩ := hc
      obtain ⟨_, -, rfl⟩ := hy
      exact hparent p (by simpa using List.mem_of_getElem? hpi)
    · next hlt =>
      rw [if_neg hlt, List.getElem?_map, Option.map_eq_some_iff] at hy
      rw [List.getElem?_map, Option.map_eq_some_iff] at hc
      obtain ⟨f, hfi, rfl⟩ := hc
      obtain ⟨v, hvi, rfl⟩ := hy
      exact hfield hfi hvi

/-- What is listed makes up the row of an image. -/
theorem assemble_listed (hp : s.Proper) (hu : s.Unnumbered) (hn : s.Named) {x : RowImage}
    (hf : x.Fits s) (hpar : s.parentColumn ≠ none → x.parent = parent) :
    Table.assemble (listedCells s n x.id x.values parent) (Column.ofSchema s) =
      .ok (x.cells s) := by
  refine assemble_cells hn hf.length ⟨_, find?_listed_key hp, rfl⟩ (fun p hs => ?_)
    fun hfi hvi => ?_
  · rw [hpar (by rw [hs]; simp)]
    exact ⟨_, find?_listed_parent hp hs (hu _ (parent_mem_columnNames hs)), rfl⟩
  · exact ⟨_, find?_listed_field hp hfi hvi (hu _ (field_mem_columnNames hfi)),
      Table.Affinity.store_ofValue_of_fits (hf.values hfi hvi)⟩

/-! ## Insertions -/

/-- A number that the row with a key may have beside the rows of other keys. -/
structure Numbers (es : List Shelved) (id : RecordId) (n : Int) : Prop where
  range : -0x8000000000000000 ≤ n ∧ n ≤ Table.maxNumber
  others : ∀ x ∈ es, x.image.id ≠ id → x.number ≠ n
  own : ∀ e, shelved? es id = some e → e.number = n
  last : shelved? es id = none → (∀ x ∈ es, x.number < Table.maxNumber) → ∀ x ∈ es, x.number < n

theorem listed_meansNumber (hp : s.Proper) (hn : s.Named) {a : String} {y : Cell}
    (h : (a, y) ∈ listedCells s n id values parent)
    (hm : (tableOf s es).meansNumber a = true) : (a, y) = ("rowid", n) := by
  have hnot : ∀ {c : Column}, (tableOf s es).column? a = some c → False := by
    intro c hc
    rw [Table.meansNumber, Table.hasColumn, hc] at hm
    cases hm
  rcases mem_listedCells h with ⟨rfl, rfl⟩ | ⟨i, v, f, hf, -, rfl, rfl⟩ | ⟨hs, rfl⟩ | ⟨rfl, rfl⟩
  · rfl
  · exact absurd (hasColumn_field hp hn hf) hnot
  · exact absurd (hasColumn_parent hp hn hs) hnot
  · have hkey : Table.isRowNumberName keyColumn = false := by decide
    rw [Table.meansNumber, hkey, Bool.and_false] at hm
    cases hm

theorem numberFor_listed (hp : s.Proper) (hn : s.Named)
    (hmeans : (tableOf s es).meansNumber "rowid" = true) :
    (((listedCells s n id values parent).filter
      fun e => (tableOf s es).meansNumber e.1).getLast?) = some ("rowid", n) := by
  have hmem : ("rowid", n) ∈ (listedCells s n id values parent).filter
      fun e => (tableOf s es).meansNumber e.1 :=
    List.mem_filter.mpr ⟨by simp [listedCells], hmeans⟩
  cases hlast : ((listedCells s n id values parent).filter
      fun e => (tableOf s es).meansNumber e.1).getLast? with
  | none => simp [List.getLast?_eq_none_iff.mp hlast] at hmem
  | some b =>
    obtain ⟨hb, hm⟩ := List.mem_filter.mp (List.mem_of_getLast? hlast)
    exact congrArg some (listed_meansNumber hp hn hb hm)

theorem numberOf?_integer (n : Int64) : Table.numberOf? (.integer n) = some n.toInt := rfl

theorem cell_rowid (hmeans : (tableOf s es).meansNumber "rowid" = true) :
    (tableOf s es).cell (e.row s) "rowid" = .integer (Int64.ofInt e.number) := by
  have hcol : (tableOf s es).column? "rowid" = none := by
    simpa [Table.hasColumn] using (Bool.and_eq_true_iff.mp hmeans).1
  have hindex : (tableOf s es).columnIndex? "rowid" = none :=
    List.findIdx?_eq_none_iff.mpr (by simpa [Table.column?] using hcol)
  rw [Table.cell, hindex]
  rfl

theorem toInt_number (h : Shelf s es) (he : e ∈ es) : (Int64.ofInt e.number).toInt = e.number := by
  obtain ⟨hlow, hhigh⟩ := h.range e he
  unfold Table.maxNumber at hhigh
  exact Int64.toInt_ofInt_of_le hlow (by omega)

/-- The number of the row with the key is carried over, or a new one is made. -/
theorem numberFor_carried (h : Shelf s es) (hp : s.Proper) (hn : s.Named)
    (hmeans : (tableOf s es).meansNumber "rowid" = true)
    (hnone : shelved? es id = none → n = .null)
    (hsome : ∀ e, shelved? es id = some e → n = .integer (Int64.ofInt e.number)) {m : Int}
    (hm : (tableOf s es).numberFor (listedCells s n id values parent) = .ok m) :
    Numbers es id m := by
  rw [Table.numberFor, numberFor_listed hp hn hmeans] at hm
  cases he : shelved? es id with
  | none =>
    rw [hnone he] at hm
    obtain ⟨hrange, hfree⟩ := nextNumber_tableOf h hm
    exact ⟨hrange, fun x hx _ => hfree x hx, by simp [he], fun _ hroom =>
      nextNumber_last h hroom hm⟩
  | some e =>
    obtain ⟨hmem, hid⟩ := mem_of_shelved? he
    rw [hsome e he] at hm
    simp only [numberOf?_integer, toInt_number h hmem] at hm
    cases hm
    refine ⟨h.range e hmem, fun x hx hne hsame => hne ?_, ?_, by simp [he]⟩
    · rw [number_injective h hx hmem hsame, hid]
    · intro e' he'
      rw [he] at he'
      cases he'
      rfl

theorem unshelve_eq_self (h : shelved? es id = none) : unshelve es id = es :=
  List.filter_eq_self.mpr fun x hx => by simpa using shelved?_eq_none.mp h x hx

variable {x : RowImage}

/-- The row with a key is the only rival of a row that is to have that key. -/
theorem rival?_eq_some (h : Shelf s es) (he : shelved? es x.id = some e) {m : Int}
    (hm : e.number ≠ m) {k : UniqueKey} (hk : k.parts = UniqueKey.primary.parts) :
    (tableOf s es).rival? k ((Shelved.mk m x).row s) m = some (e.row s) := by
  obtain ⟨hmem, hid⟩ := mem_of_shelved? he
  have hagree : ∀ y : Shelved, (tableOf s es).agree k ((Shelved.mk m x).row s) (y.row s) = true ↔
      y.image.id = x.id := by
    intro y
    simp only [Table.agree, hk, UniqueKey.primary, List.all_cons, List.all_nil, cell_key,
      Cell.compareBy, Bool.and_true, Bool.and_eq_true, beq_iff_eq]
    constructor
    · rintro ⟨-, hsame⟩
      exact (RecordId.bytes_inj (Table.compareOctets_eq hsame)).symm
    · rintro hy
      rw [hy]
      exact ⟨rfl, Table.compareOctets_self _⟩
  refine find?_of_unique (List.mem_map_of_mem hmem) ?_ fun r hr hrival => ?_
  · rw [Bool.and_eq_true, bne_iff_ne]
    exact ⟨hm, (hagree e).mpr hid⟩
  · obtain ⟨y, hy, rfl⟩ := List.mem_map.mp hr
    have hyid := (hagree y).mp (Bool.and_eq_true_iff.mp hrival).2
    rw [(shelved?_eq_some h.ids).mpr ⟨hy, hyid⟩] at he
    cases he
    rfl

/-- Room for a row is made by removing the one with its key, either for its number
or for the key. -/
theorem makeRoom_eq (hd : d.Plain) (h : d.Holds s es) {m : Int}
    (hm : ∀ y ∈ es, y.image.id ≠ x.id → y.number ≠ m) :
    ∃ d₁ : Database, (Pending.perform maxDepth { database := d } (.erase false s.table m)).map
        (·.2) = .ok { database := d₁ } ∧
      makeRoom (fun p q => (Pending.perform maxDepth p q).map (·.2)) s.table m
        ((Shelved.mk m x).row s) ((tableOf s es).keysUnder (some .replace)) { database := d₁ } =
        .ok (some { database := d.shelve s (LiveRecords.unshelve es x.id) }) := by
  have hkeys : (tableOf s es).keysUnder (some .replace) =
      [⟨UniqueKey.primary.parts, some .replace⟩] := rfl
  have hheld := h.shelve (h.shelf.unshelve x.id)
  have hrival : (tableOf s (LiveRecords.unshelve es x.id)).rival?
      ⟨UniqueKey.primary.parts, some .replace⟩ ((Shelved.mk m x).row s) m = none :=
    rival?_eq_none rfl fun y hy _ => (mem_unshelve.mp hy).2
  -- once the row with the key is gone, nothing is in the way
  have hfree : makeRoom (fun p q => (Pending.perform maxDepth p q).map (·.2)) s.table m
      ((Shelved.mk m x).row s) ((tableOf s es).keysUnder (some .replace))
        { database := d.shelve s (LiveRecords.unshelve es x.id) } =
      .ok (some { database := d.shelve s (LiveRecords.unshelve es x.id) }) := by
    rw [hkeys, makeRoom]
    simp only [hheld.table, hrival]
    rfl
  cases he : shelved? es x.id with
  | none =>
    have hnone : ∀ y ∈ es, y.number ≠ m := fun y hy => hm y hy (shelved?_eq_none.mp he y hy)
    have herase : Pending.perform maxDepth { database := d } (.erase false s.table m) = _ :=
      perform_erase_none h hnone 1000 false
    rw [unshelve_eq_self he, h.shelve_self hd] at hfree ⊢
    exact ⟨d, by rw [herase]; rfl, hfree⟩
  | some e =>
    have herase : Pending.perform maxDepth { database := d } (.erase false s.table e.number) = _ :=
      perform_erase hd h he 1000 false
    by_cases hnum : e.number = m
    · subst hnum
      exact ⟨_, by rw [herase]; rfl, hfree⟩
    · have hnone : ∀ y ∈ es, y.number ≠ m := by
        intro y hy
        by_cases hy' : y.image.id = x.id
        · rw [(shelved?_eq_some h.shelf.ids).mpr ⟨hy, hy'⟩] at he
          cases he
          exact hnum
        · exact hm y hy hy'
      have hfirst : Pending.perform maxDepth { database := d } (.erase false s.table m) = _ :=
        perform_erase_none h hnone 1000 false
      refine ⟨d, by rw [hfirst]; rfl, ?_⟩
      rw [hkeys, makeRoom]
      simp only [h.table, rival?_eq_some h.shelf he hnum
        (k := ⟨UniqueKey.primary.parts, some .replace⟩) rfl, Shelved.number_row, herase,
        bind, Except.bind, Except.map, makeRoom]

theorem add_eq (hd : d.Plain) (h : d.Holds s es) (hp : s.Proper) (hn : s.Named) (hf : x.Fits s)
    {m : Int} (hm : ∀ y ∈ es, y.image.id ≠ x.id → y.number ≠ m) :
    Pending.add { database := d } (tableOf s es) (some .replace) ((Shelved.mk m x).row s) =
      .ok { database :=
        d.shelve s (insertShelved ⟨m, x⟩ (LiveRecords.unshelve es x.id)) } := by
  have hfit : (tableOf s es).fit (some .replace) (fun _ => true) ((Shelved.mk m x).row s) =
      .ok (some ((Shelved.mk m x).row s)) :=
    fit_tableOf _ _ fun c hc _ hnull => isNull_cell hp hn (e := ⟨m, x⟩) hf hc hnull
  obtain ⟨d₁, herase, hroom⟩ := makeRoom_eq hd h hm
  have hfinal := shelve_shelve (d := d) s (LiveRecords.unshelve es x.id)
    (insertShelved ⟨m, x⟩ (LiveRecords.unshelve es x.id))
  have hplain := hd.shelve s (LiveRecords.unshelve es x.id)
  have hheld := h.shelve (h.shelf.unshelve x.id)
  -- From here on only the database without the old row matters.
  generalize d.shelve s (LiveRecords.unshelve es x.id) = d' at hroom hfinal hplain hheld
  have hsettle : ∀ last, (Pending.claim { database := d' } (tableOf s es) .added last
      ((Shelved.mk m x).row s)).adopt (tableOf s es) .added ((Shelved.mk m x).row s) =
        { database := d' } := by
    intro last
    rw [claim_eq (t := tableOf s es) rfl, adopt_eq hplain]
  have hput : (tableOf s (LiveRecords.unshelve es x.id)).put m ((Shelved.mk m x).row s) =
      tableOf s (insertShelved ⟨m, x⟩ (LiveRecords.unshelve es x.id)) := by
    have hself : (LiveRecords.unshelve es x.id).filter (fun y => y.number != m) =
        LiveRecords.unshelve es x.id :=
      List.filter_eq_self.mpr fun y hy => by
        obtain ⟨hmem, hid⟩ := mem_unshelve.mp hy
        simpa using hm y hmem hid
    have hput := put_tableOf s (LiveRecords.unshelve es x.id) ⟨m, x⟩
    rw [hself] at hput
    exact hput
  have hname : (tableOf s es).name = s.table := rfl
  have hreplace : (some Resolution.replace != some .replace) = false := rfl
  rw [← hfinal]
  unfold Pending.add
  simp only [hfit, bind, Except.bind, hreplace, Bool.false_and, Bool.false_eq_true, if_false, hname,
    Shelved.number_row, herase, hroom, hsettle, hheld.table, Option.getD_some, hput]
  rfl

/-- An insertion puts an image in the place of the one with its key. -/
theorem insertRow_eq_ok (hd : d.Plain) (h : d.Holds s es) (hp : s.Proper) (hu : s.Unnumbered)
    (hn : s.Named) (hf : x.Fits s) (hpar : s.parentColumn ≠ none → x.parent = parent)
    {d' : Database} (hok : d.insertRow (tableOf s es) s x.id x.values parent = .ok d') :
    ∃ m, Numbers es x.id m ∧
      Shelf s (insertShelved ⟨m, x⟩ (LiveRecords.unshelve es x.id)) ∧
      d' = d.shelve s (insertShelved ⟨m, x⟩ (LiveRecords.unshelve es x.id)) := by
  simp only [insertRow, bind_eq_ok, row?_tableOf] at hok
  obtain ⟨_, -, _, -, m, hm, hok⟩ := hok
  have hnumbers : Numbers es x.id m := by
    have hmeans : (tableOf s es).meansNumber "rowid" = true := meansNumber_rowid hu
    refine numberFor_carried h.shelf hp hn hmeans (fun he => ?_) (fun e he => ?_) hm
    · rw [he]
      rfl
    · rw [he]
      exact cell_rowid hmeans
  rw [guarded_tableOf, if_neg (by simp)] at hok
  obtain ⟨cells, hcells, p, hadd, hsettle⟩ := by simpa only [bind_eq_ok] using hok
  have hrow : cells = x.cells s :=
    Except.ok.inj (hcells.symm.trans (assemble_listed hp hu hn hf hpar))
  subst hrow
  have hadd' : Pending.add { database := d } (tableOf s es) (some .replace)
      ((Shelved.mk m x).row s) = .ok p := hadd
  rw [add_eq hd h hp hn hf hnumbers.others] at hadd'
  cases hadd'
  refine ⟨m, hnumbers, h.shelf.insert hnumbers.range hf hn hnumbers.others, ?_⟩
  exact ((Pending.settle_eq_ok _ _).mp hsettle).2.symm

end Database

end LiveRecords
