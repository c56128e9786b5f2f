import LiveRecords.Proofs.Writing
import LiveRecords.Proofs.Updating

/-!
# Where updates land

In a docile database an update that passes changes one row in the column that
it names and in those that are computed from others, and nothing besides: nothing
is overlooked or replaced where a constraint is broken, and no reference has
anything done to other rows. Checks, unique keys and guards may refuse an update,
but they do not bend it. So after a series of updates the row under a key
differs, among the columns that are not computed, in those that were named, which
hold what they were given.
-/

namespace LiveRecords

open Table (Cell Column Refusal Resolution Row UniqueKey)

/-- What is done where a constraint is broken is to refuse the statement. -/
def Table.Strict (r : Option Resolution) : Prop := r ≠ some .ignore ∧ r ≠ some .replace

theorem Table.strict_none : Table.Strict none := ⟨by decide, by decide⟩

/-- A table that takes an update as it is or not at all. -/
structure Table.Docile (t : Table) : Prop where
  /-- The key is not computed from other columns. -/
  keyed : Database.isComputed t keyColumn = false
  /-- The name of a computed column is not that of another. -/
  named : ∀ c ∈ t.columns, c.generated.isSome = true → Database.isComputed t c.name = true
  nulls : ∀ c ∈ t.columns, Table.Strict c.notNull
  keys : ∀ k ∈ t.keys, Table.Strict k.resolution
  /-- No two rows have one number. -/
  numbers : t.rows.Pairwise fun r s => r.number ≠ s.number
  /-- No two rows have one key. -/
  unique : ∀ r ∈ t.rows, ∀ s ∈ t.rows, ∀ id, t.hasKey id r = true → t.hasKey id s = true → r = s
  widths : ∀ r ∈ t.rows, r.cells.length = t.columns.length

/-- The table of a record type is docile, and rows that refer to its rows have
nothing done to them where those are updated. -/
structure Database.Docile (d : Database) (s : Schema) : Prop where
  table : ∀ t, d.table? s.table = some t → t.Docile
  references : ∀ t ∈ d.tables, ∀ r ∈ t.references, sameName r.parent s.table = true →
    r.onUpdate = .none ∨ r.onUpdate = .restrict

namespace Table

variable {t : Table} {r r' : Row} {touched : Column → Bool} {name : String} {i : Nat}

/-! ## Constraints -/

theorem fillNulls_of_strict {cs : List Column} (h : ∀ c ∈ cs, Strict c.notNull) {o : Option Row}
    (ho : t.fillNulls none cs r = .ok o) : o = some r := by
  induction cs with
  | nil =>
    cases ho
    rfl
  | cons c cs ih =>
    have hrest := ih fun c' hc' => h c' (List.mem_cons_of_mem _ hc')
    obtain ⟨hignore, hreplace⟩ := h c List.mem_cons_self
    unfold fillNulls at ho
    split at ho
    · exact hrest ho
    · have hnull : c.onNull none = c.notNull := by cases hn : c.notNull <;> simp [Column.onNull, hn]
      rw [hnull] at ho
      split at ho
      · exact hrest ho
      · next hn => exact absurd hn hignore
      · next hn => exact absurd hn hreplace
      · cases ho

theorem keepsNulls_of_strict {cs : List Column} (h : ∀ c ∈ cs, Strict c.notNull) {b : Bool}
    (hb : t.keepsNulls none r cs = .ok b) : b = true := by
  induction cs with
  | nil =>
    cases hb
    rfl
  | cons c cs ih =>
    have hrest := ih fun c' hc' => h c' (List.mem_cons_of_mem _ hc')
    obtain ⟨hignore, -⟩ := h c List.mem_cons_self
    unfold keepsNulls at hb
    split at hb
    · have hnull : c.onNull none = c.notNull := by cases hn : c.notNull <;> simp [Column.onNull, hn]
      rw [hnull] at hb
      split at hb
      · exact hrest hb
      · next hn => exact absurd hn hignore
      · cases hb
    · exact hrest hb

/-! ## Computed columns -/

/-- The column at a position, if there is one, is not computed from others. -/
def Ordinary (t : Table) (i : Nat) : Prop := ∀ c, t.columns[i]? = some c → c.generated = none

/-- Two forms of a row differ at most in computed columns. -/
structure Alike (t : Table) (r r' : Row) : Prop where
  width : r'.cells.length = r.cells.length
  number : r'.number = r.number
  cells : ∀ i, t.Ordinary i → r'.cells[i]? = r.cells[i]?

theorem Alike.refl (t : Table) (r : Row) : Alike t r r := ⟨rfl, rfl, fun _ _ => rfl⟩

theorem Alike.trans {r'' : Row} (h : Alike t r r') (h' : Alike t r' r'') : Alike t r r'' where
  width := h'.width.trans h.width
  number := h'.number.trans h.number
  cells i hi := (h'.cells i hi).trans (h.cells i hi)

theorem ordinary_iff (h : t.columnIndex? name = some i) :
    t.Ordinary i ↔ Database.isComputed t name = false := by
  rw [Ordinary, column?_of_columnIndex? h, Database.isComputed]
  cases t.column? name <;> simp

theorem alike_setCell (h : Database.isComputed t name = true) (x : Cell) (r : Row) :
    Alike t r (t.setCell name x r) := by
  unfold setCell
  split
  · next j hj =>
    refine ⟨List.length_set, rfl, fun i hi => List.getElem?_set_ne fun hij => ?_⟩
    rw [← hij, ordinary_iff hj, h] at hi
    cases hi
  · exact .refl t r

theorem alike_compute {cs : List Column} (h : ∀ c ∈ cs, Database.isComputed t c.name = true)
    {r r' : Row} (hr : t.compute cs r = .ok r') : Alike t r r' := by
  induction cs generalizing r with
  | nil =>
    cases hr
    exact .refl t _
  | cons c cs ih =>
    have hrest := fun c' hc' => h c' (List.mem_cons_of_mem c hc')
    unfold compute at hr
    split at hr
    · exact ih hrest hr
    · obtain ⟨x, -, hr⟩ := bind_eq_ok.mp hr
      exact (alike_setCell (h c List.mem_cons_self) x r).trans (ih hrest hr)

theorem Docile.alike_generate (ht : t.Docile) (h : t.generate r = .ok r') : Alike t r r' := by
  have hcomputed : ∀ c ∈ t.columns.filter (·.generated.isSome),
      Database.isComputed t c.name = true := fun c hc =>
    ht.named c (List.mem_filter.mp hc).1 (List.mem_filter.mp hc).2
  -- The rounds are counted by the columns, and each computes all of them.
  have hrounds : ∀ (rounds : List Column) {r r' : Row},
      rounds.foldlM (fun r _ => t.compute (t.columns.filter (·.generated.isSome)) r) r = .ok r' →
      Alike t r r' := by
    intro rounds
    induction rounds with
    | nil =>
      intro r r' h
      cases h
      exact .refl t r
    | cons _ rounds ih =>
      intro r r' h
      rw [List.foldlM_cons] at h
      obtain ⟨r₁, h₁, h⟩ := bind_eq_ok.mp h
      exact (alike_compute hcomputed h₁).trans (ih h)
  exact hrounds _ h

/-- A docile table takes a row as it is, but for what is computed. -/
theorem fit_of_docile (ht : t.Docile) {o : Option Row} (ho : t.fit none touched r = .ok o) :
    ∃ r', o = some r' ∧ Alike t r r' := by
  have hstrict : ∀ {p : Column → Bool}, ∀ c ∈ t.columns.filter p, Strict c.notNull :=
    fun c hc => ht.nulls c (List.mem_filter.mp hc).1
  unfold fit at ho
  obtain ⟨r₁, h₁, ho⟩ := bind_eq_ok.mp ho
  obtain ⟨filled, hfill, ho⟩ := bind_eq_ok.mp ho
  rw [fillNulls_of_strict hstrict hfill] at ho
  obtain ⟨r₂, h₂, ho⟩ := bind_eq_ok.mp ho
  obtain ⟨kept, hkeep, ho⟩ := bind_eq_ok.mp ho
  rw [keepsNulls_of_strict hstrict hkeep, if_pos rfl] at ho
  obtain ⟨violation, -, ho⟩ := bind_eq_ok.mp ho
  cases violation with
  | none =>
    cases ho
    exact ⟨r₂, rfl, (ht.alike_generate h₁).trans (ht.alike_generate h₂)⟩
  | some k => cases ho

theorem mem_keysUnder_none {k : UniqueKey} (hk : k ∈ t.keysUnder none) : k ∈ t.keys := by
  rw [keysUnder_none, keysInOrder, List.mem_append, List.mem_filter, List.mem_filter,
    List.mem_reverse] at hk
  exact hk.elim (·.1) (·.1)

end Table

namespace Database

variable {d d' : Database} {p : Pending} {t : Table} {r r' : Row} {s : Schema} {id : RecordId}

theorem makeRoom_of_strict {run : Pending → Step → Except Refusal Pending} {name : String}
    {number : Int} {new : Row} {ks : List UniqueKey} (h : ∀ k ∈ ks, Table.Strict k.resolution)
    {o : Option Pending} (ho : makeRoom run name number new ks p = .ok o) : o = some p := by
  induction ks with
  | nil =>
    cases ho
    rfl
  | cons k ks ih =>
    obtain ⟨hignore, hreplace⟩ := h k List.mem_cons_self
    unfold makeRoom at ho
    split at ho
    · cases ho
      rfl
    · split at ho
      · exact ih (fun k' hk' => h k' (List.mem_cons_of_mem _ hk')) ho
      · split at ho
        · next hn => exact absurd hn hignore
        · next hn => exact absurd hn hreplace
        · cases ho

/-! ## Consequences -/

theorem foldl_database {α : Type} {f : Pending → α → Pending}
    (hf : ∀ p a, (f p a).database = p.database) (as : List α) (p : Pending) :
    (as.foldl f p).database = p.database := by
  induction as generalizing p with
  | nil => rfl
  | cons a as ih => exact (ih (f p a)).trans (hf p a)

/-! Counting rows that dangle changes none. -/

@[simp] theorem database_release (p : Pending) (t : Table) (touch : Touch) (row : Row) :
    (p.release t touch row).database = p.database := by
  refine foldl_database (fun p r => ?_) _ p
  split <;> rfl

@[simp] theorem database_abandon (p : Pending) (t : Table) (touch : Touch) (row : Row) :
    (p.abandon t touch row).database = p.database := by
  refine foldl_database (fun p e => ?_) _ p
  rfl

@[simp] theorem database_claim (p : Pending) (t : Table) (touch : Touch)
    (last : Option Preparation) (row : Row) : (p.claim t touch last row).database = p.database := by
  refine foldl_database (fun p r => ?_) _ p
  split <;> rfl

@[simp] theorem database_adopt (p : Pending) (t : Table) (touch : Touch) (row : Row) :
    (p.adopt t touch row).database = p.database := by
  refine foldl_database (fun p e => ?_) _ p
  dsimp only
  split <;> rfl

theorem mem_of_referencesMet {touch : Touch} {e : Table × Table.Reference}
    (he : e ∈ d.referencesMet t touch) :
    e.1 ∈ d.tables ∧ e.2 ∈ e.1.references ∧ sameName e.2.parent t.name = true := by
  obtain ⟨he, -⟩ := List.mem_filter.mp he
  rw [referencesTo, List.mem_reverse, List.mem_flatMap] at he
  obtain ⟨c, hc, he⟩ := he
  obtain ⟨r, hr, rfl⟩ := List.mem_map.mp he
  obtain ⟨hr, hparent⟩ := List.mem_filter.mp hr
  exact ⟨hc, hr, hparent⟩

theorem foldlM_eq_self {ε α β : Type} {f : β → α → Except ε β} {as : List α} {b b' : β}
    (hf : ∀ a ∈ as, ∀ b', f b a = .ok b' → b' = b) (h : as.foldlM f b = .ok b') : b' = b := by
  induction as with
  | nil =>
    cases h
    rfl
  | cons a as ih =>
    rw [List.foldlM_cons] at h
    obtain ⟨next, hnext, h⟩ := bind_eq_ok.mp h
    rw [hf a List.mem_cons_self next hnext] at h
    exact ih (fun a' ha' => hf a' (List.mem_cons_of_mem _ ha')) h

/-- In a docile database nothing follows from an update. -/
theorem followAll_of_docile (hd : p.database.Docile s) (ht : sameName t.name s.table = true)
    {run : Pending → Step → Except Refusal Pending} {touch : Touch} {old new : Row} {q : Pending}
    (h : followAll run t touch old (some new) p = .ok q) : q = p := by
  unfold followAll at h
  refine foldlM_eq_self (fun e he q hq => ?_) h
  obtain ⟨hc, hr, hparent⟩ := mem_of_referencesMet (List.mem_filter.mp he).1
  obtain ⟨c, r⟩ := e
  obtain ⟨steps, hsteps, hq⟩ := bind_eq_ok.mp hq
  have hnone : steps = [] := by
    obtain hact | hact := hd.references c hc r hr (sameName_trans hparent ht)
    · rw [if_neg (by simp), hact] at hsteps
      cases hsteps
      rfl
    · rw [if_neg (by simp), hact] at hsteps
      unfold followUp at hsteps
      dsimp only at hsteps
      split at hsteps <;> cases hsteps
      rfl
  rw [hnone] at hq
  cases hq
  rfl

end Database

/-! ## Rows -/

namespace Table

variable {t : Table} {r r' : Row} {number : Int} {id : RecordId}

/-- Which columns a table has decides what a cell is. -/
theorem cell_congr {u : Table} (h : u.columns = t.columns) (r : Row) (name : String) :
    u.cell r name = t.cell r name := by
  simp only [cell, columnIndex?, h]

theorem hasKey_congr {u : Table} (h : u.columns = t.columns) : u.hasKey = t.hasKey := by
  funext id r
  rw [hasKey, hasKey, cell_congr h]

/-- A row that is the only one with its key is found under it. -/
theorem row?_of_unique (hr : r ∈ t.rows) (hk : t.hasKey id r = true)
    (hu : ∀ s ∈ t.rows, t.hasKey id s = true → s = r) : t.row? id = some r := by
  have hsome : (t.row? id).isSome := List.find?_isSome.mpr ⟨r, hr, hk⟩
  obtain ⟨s, hs⟩ := Option.isSome_iff_exists.mp hsome
  rw [hs, hu s (List.mem_of_find?_eq_some hs) (List.find?_some hs)]

theorem Docile.rowAt? (ht : t.Docile) (hr : r ∈ t.rows) : t.rowAt? r.number = some r := by
  have hsome : (t.rowAt? r.number).isSome :=
    List.find?_isSome.mpr ⟨r, hr, beq_self_eq_true _⟩
  obtain ⟨s, hs⟩ := Option.isSome_iff_exists.mp hsome
  have hmem : s ∈ t.rows := List.mem_of_find?_eq_some hs
  have hnum : s.number = r.number := by simpa using List.find?_some hs
  obtain ⟨i, hi, rfl⟩ := List.mem_iff_getElem.mp hmem
  obtain ⟨j, hj, rfl⟩ := List.mem_iff_getElem.mp hr
  have hp := List.pairwise_iff_getElem.mp ht.numbers
  obtain hij | hij | hij := Nat.lt_trichotomy i j
  · exact absurd hnum (hp i j hi hj hij)
  · subst hij
    exact hs
  · exact absurd hnum.symm (hp j i hj hi hij)

theorem place_perm (r : Row) (rows : List Row) : (place r rows).Perm (r :: rows) := by
  induction rows with
  | nil => exact .refl _
  | cons s rest ih =>
    unfold place
    split
    · exact .refl _
    · exact (ih.cons s).trans (.swap _ _ _)

/-- A row takes the place of another, with its key and a number that is free. -/
theorem Docile.put (ht : t.Docile) (hr : r ∈ t.rows)
    (hfree : r'.number = r.number ∨ t.rowAt? r'.number = none)
    (hkey : ∀ id, t.hasKey id r' = t.hasKey id r) (hwidth : r'.cells.length = r.cells.length) :
    (t.put r.number r').Docile where
  keyed := ht.keyed
  named := ht.named
  nulls := ht.nulls
  keys := ht.keys
  numbers := by
    have hrest : (t.without r.number).rows.Pairwise fun r s => r.number ≠ s.number :=
      ht.numbers.filter _
    refine ((place_perm r' _).pairwise_iff fun h => h.symm).mpr
      (List.pairwise_cons.mpr ⟨fun s hs heq => ?_, hrest⟩)
    obtain ⟨hs, hne⟩ := (without_rows t r.number s).mp hs
    obtain hsame | hnone := hfree
    · exact hne (heq.symm.trans hsame)
    · exact List.find?_eq_none.mp hnone s hs (by simpa using heq.symm)
  unique := by
    have hkeys : (t.put r.number r').hasKey = t.hasKey := hasKey_congr rfl
    intro a ha b hb id hka hkb
    rw [hkeys] at hka hkb
    rw [mem_put] at ha hb
    have hother : ∀ s, s ∈ t.rows → s.number ≠ r.number → t.hasKey id s = true →
        t.hasKey id r' = true → False := fun s hs hne hks hkr => by
      rw [hkey] at hkr
      rw [ht.unique s hs r hr id hks hkr] at hne
      exact hne rfl
    rcases ha with rfl | ⟨ha, hna⟩ <;> rcases hb with rfl | ⟨hb, hnb⟩
    · rfl
    · exact (hother b hb hnb hkb hka).elim
    · exact (hother a ha hna hka hkb).elim
    · exact ht.unique a ha b hb id hka hkb
  widths := by
    intro s hs
    rw [mem_put] at hs
    rcases hs with rfl | ⟨hs, -⟩
    · exact hwidth.trans (ht.widths r hr)
    · exact ht.widths s hs

theorem Docile.row?_put (ht : t.Docile) (hr : r ∈ t.rows)
    (hkey : ∀ id, t.hasKey id r' = t.hasKey id r) (hk : t.hasKey id r = true) :
    (t.put r.number r').row? id = some r' := by
  have hkeys : (t.put r.number r').hasKey = t.hasKey := hasKey_congr rfl
  refine row?_of_unique ((mem_put t r.number r' r').mpr (.inl rfl))
    (by rw [hkeys, hkey]; exact hk) fun s hs hks => ?_
  rw [hkeys] at hks
  obtain rfl | ⟨hs, hne⟩ := (mem_put t r.number r' s).mp hs
  · rfl
  · rw [ht.unique s hs r hr id hks hk] at hne
    exact absurd rfl hne

end Table

namespace Database

variable {d d' : Database} {t : Table} {s : Schema} {id : RecordId}

theorem Docile.setTable {u : Table} (hd : d.Docile s) (hu : d.table? t.name = some u)
    (hs : sameName t.name s.table = true) (ht : t.Docile) (href : t.references = u.references) :
    (d.setTable t).Docile s where
  table := by
    intro v hv
    rw [table?_setTable hu, if_pos hs] at hv
    cases hv
    exact ht
  references := by
    intro v hv
    obtain ⟨w, hw, rfl⟩ := List.mem_map.mp hv
    split
    · rw [href]
      exact hd.references u (mem_of_table? hu).1
    · exact hd.references w hw

/-! ## One update -/

/-- A row is written in one column, with what that makes of a cell. -/
structure Sets (t : Table) (column : String) (x : Cell) (r r' : Row) : Prop where
  width : r'.cells.length = r.cells.length
  /-- Only what means the row number changes that. -/
  number : t.hasColumn column = true → r'.number = r.number
  written : ∀ i, t.Ordinary i → t.columnIndex? column = some i → i < r.cells.length →
    r'.cells[i]? = some ((t.affinity column).store x)
  others : ∀ i, t.Ordinary i → t.columnIndex? column ≠ some i → r'.cells[i]? = r.cells[i]?

theorem sets_assigned {r r' : Row} {column : String} {x : Cell}
    (h : assigned t r [(column, x)] = .ok r') : Sets t column x r r' := by
  unfold assigned at h
  split at h
  · next hmeans =>
    have hcolumn : t.hasColumn column = false := by
      rw [Table.meansNumber, Bool.and_eq_true, Bool.not_eq_true'] at hmeans
      exact hmeans.1
    have hindex : t.columnIndex? column = none := by
      rw [Table.columnIndex?, List.findIdx?_eq_none_iff]
      rw [Table.hasColumn, Table.column?, Option.isSome_eq_false_iff, Option.isNone_iff_eq_none,
        List.find?_eq_none] at hcolumn
      intro a ha
      simpa using hcolumn a ha
    split at h
    · cases h
      refine ⟨rfl, fun hc => ?_, fun i _ hi => ?_, fun _ _ _ => rfl⟩
      · rw [hc] at hcolumn
        cases hcolumn
      · rw [hindex] at hi
        cases hi
    · cases h
  · cases h
    unfold Table.setCell
    split
    · next i hi =>
      refine ⟨List.length_set, fun _ => rfl, fun j _ hj hlt => ?_, fun j _ hj => ?_⟩
      · rw [hi] at hj
        cases hj
        exact List.getElem?_set_self hlt
      · exact List.getElem?_set_ne fun heq : i = j => hj (heq ▸ hi)
    · next hnone =>
      refine ⟨rfl, fun _ => rfl, fun i _ hi => ?_, fun _ _ _ => rfl⟩
      rw [hnone] at hi
      cases hi

theorem Sets.alike {r r' r'' : Row} {column : String} {x : Cell} (h : Sets t column x r r')
    (ha : Table.Alike t r' r'') : Sets t column x r r'' where
  width := ha.width.trans h.width
  number hc := ha.number.trans (h.number hc)
  written i hi hindex hlt := (ha.cells i hi).trans (h.written i hi hindex hlt)
  others i hi hindex := (ha.cells i hi).trans (h.others i hi hindex)

theorem Sets.congr {u : Table} (hu : u.columns = t.columns) {r r' : Row} {column : String}
    {x : Cell} (h : Sets u column x r r') : Sets t column x r r' where
  width := h.width
  number hc := h.number (by rwa [Table.hasColumn, Table.column?, hu])
  written i hi hindex hlt := by
    have hstored := h.written i (by rwa [Table.Ordinary, hu])
      (by rwa [Table.columnIndex?, hu]) hlt
    rwa [Table.affinity, Table.column?, hu] at hstored
  others i hi hindex := h.others i (by rwa [Table.Ordinary, hu]) (by rwa [Table.columnIndex?, hu])

/-- A cell that is read under another name is not the one that was written. -/
theorem Sets.cell {r r' : Row} {column name : String} {x : Cell} (h : Sets t column x r r')
    (hc : t.hasColumn name = true) (hname : isComputed t name = false)
    (hne : sameName column name = false) : t.cell r' name = t.cell r name := by
  obtain ⟨i, hi⟩ := Table.columnIndex?_of_hasColumn hc
  simp only [Table.cell, hi, List.getD_eq_getElem?_getD,
    h.others i ((Table.ordinary_iff hi).mpr hname) (Table.columnIndex?_ne hne hi)]

/-- What is written elsewhere leaves the key. -/
theorem Sets.hasKey {r r' : Row} {column : String} {x : Cell} (h : Sets t column x r r')
    (ht : isComputed t keyColumn = false) (hne : sameName column keyColumn = false)
    (id : RecordId) : t.hasKey id r' = t.hasKey id r := by
  have hcell : t.cell r' keyColumn = t.cell r keyColumn := by
    cases hi : t.columnIndex? keyColumn with
    | none =>
      have hnumber : Table.isRowNumberName keyColumn = false := by decide
      simp only [Table.cell, hi, hnumber]
      rfl
    | some i =>
      simp only [Table.cell, hi, List.getD_eq_getElem?_getD,
        h.others i ((Table.ordinary_iff hi).mpr ht) (Table.columnIndex?_ne hne hi)]
  rw [Table.hasKey, Table.hasKey, hcell]

/-- A row takes its new form in a docile database. -/
structure Changed (t : Table) (r r' : Row) (column : String) (x : Cell) : Prop where
  sets : Sets t column x r r'
  free : r'.number = r.number ∨ t.rowAt? r'.number = none

theorem Changed.docile {r r' : Row} {column : String} {x : Cell} (h : Changed t r r' column x)
    (ht : t.Docile) (hr : r ∈ t.rows) (hc : sameName column keyColumn = false) :
    (t.put r.number r').Docile :=
  ht.put hr h.free (h.sets.hasKey ht.keyed hc) h.sets.width

/-- Setting a cell of a row does that or nothing in a docile database. -/
theorem perform_assign_of_docile (hd : d.Docile s) (ht : d.table? t.name = some t)
    (hs : sameName t.name s.table = true) {r : Row} (hr : r ∈ t.rows) {column : String} {x : Cell}
    (hc : sameName column keyColumn = false) {depth n : Nat} {p : Pending}
    (h : Pending.perform (depth + 1) { database := d }
      (.assign none t.name r.number [(column, x)]) = .ok (n, p)) :
    ∃ r', Changed t r r' column x ∧ p.database = d.setTable (t.put r.number r') := by
  have hdocile := hd.table t (by rw [← d.table?_congr hs]; exact ht)
  unfold Pending.perform at h
  simp only [ht, hdocile.rowAt? hr] at h
  obtain ⟨r₁, hassigned, h⟩ := bind_eq_ok.mp h
  split at h
  · cases h
  obtain ⟨fitted, hfit, h⟩ := bind_eq_ok.mp h
  obtain ⟨r', hfitted, halike⟩ := Table.fit_of_docile hdocile hfit
  rw [hfitted] at h
  dsimp only at h
  split at h
  · cases h
  next hmoves =>
  obtain ⟨room, hroom, h⟩ := bind_eq_ok.mp h
  rw [makeRoom_of_strict (fun k hk => hdocile.keys k (Table.mem_keysUnder_none hk)) hroom] at h
  have hrow : Changed t r r' column x := by
    refine ⟨(sets_assigned hassigned).alike halike, ?_⟩
    by_cases hnum : r'.number = r.number
    · exact .inl hnum
    · right
      rw [Bool.and_eq_true, not_and, bne_iff_ne] at hmoves
      simpa using hmoves hnum
  refine ⟨r', hrow, ?_⟩
  have hput : (d.setTable (t.put r.number r')).Docile s :=
    hd.setTable (t := t.put r.number r') ht hs (hrow.docile hdocile hr hc) rfl
  have hwithout : (d.setTable (t.without r.number)).setTable (t.put r.number r') =
      d.setTable (t.put r.number r') := setTable_setTable (sameName_refl t.name)
  simp only [ht, Option.getD_some] at h
  obtain ⟨q, hfollow, h⟩ := bind_eq_ok.mp h
  cases h
  -- Whether or not rows that dangle are counted, the database is the same.
  have hsame : ∀ {p : Pending} {run : Pending → Step → Except Refusal Pending} {touch : Touch}
      {q : Pending}, p.database = d.setTable (t.put r.number r') →
      followAll run t touch r (some r') p = .ok q → q.database = d.setTable (t.put r.number r') :=
    fun hp hq => by rw [followAll_of_docile (hp ▸ hput) hs hq, hp]
  split at hfollow
  · refine hsame ?_ hfollow
    simp only [Pending.setTable, database_adopt, database_claim, database_abandon,
      database_release, hwithout]
  · exact hsame rfl hfollow

/-- A row is stored under a key in the table of a record type. -/
structure Stores (d : Database) (s : Schema) (id : RecordId) (t : Table) (r : Row) : Prop where
  table : d.table? s.table = some t
  row : t.row? id = some r

theorem Stores.mem {r : Row} (h : d.Stores s id t r) : r ∈ t.rows ∧ t.hasKey id r = true :=
  ⟨List.mem_of_find?_eq_some h.row, List.find?_some h.row⟩

/-- A statement that updates runs on the table of its type. -/
theorem updateRow_of_execute {e : String × Value} {n : Nat}
    (h : d.execute (Link.update s id e) = .ok (n, d')) :
    ∃ t, d.table? s.table = some t ∧ d.updateRow t id e.1 (Cell.ofValue e.2) = .ok (n, d') := by
  obtain ⟨t, ht, h⟩ := bind_eq_ok.mp h
  refine ⟨t, ?_, h⟩
  unfold target at ht
  split at ht
  · cases ht
  · split at ht
    · next u hu =>
      cases ht
      exact hu
    · cases ht

/-- An update that passes sets the column of the row under the key, which is not a
computed one. -/
theorem execute_update_of_docile (hd : d.Docile s) {e : String × Value} {n : Nat} {r : Row}
    (hc : sameName e.1 keyColumn = false) (hr : d.Stores s id t r)
    (h : d.execute (Link.update s id e) = .ok (n, d')) :
    isComputed t e.1 = false ∧
      ∃ r', Changed t r r' e.1 (Cell.ofValue e.2) ∧ d' = d.setTable (t.put r.number r') := by
  obtain ⟨u, hu, h⟩ := updateRow_of_execute h
  rw [hr.table] at hu
  cases hu
  have hself : d.table? t.name = some t := by
    rw [d.table?_congr (mem_of_table? hr.table).2]
    exact hr.table
  unfold updateRow at h
  obtain ⟨_, hfault, h⟩ := bind_eq_ok.mp h
  obtain ⟨-, -, h⟩ := bind_eq_ok.mp h
  rw [hr.row] at h
  obtain ⟨⟨m, p⟩, hp, h⟩ := bind_eq_ok.mp h
  obtain ⟨d₁, hd₁, h⟩ := bind_eq_ok.mp h
  cases h
  have hordinary : isComputed t e.1 = false := by
    cases hcomputed : isComputed t e.1 with
    | false => rfl
    | true =>
      rw [hcomputed, if_pos rfl] at hfault
      split at hfault <;> cases hfault
  obtain ⟨r', hchanged, hdb⟩ :=
    perform_assign_of_docile hd hself (mem_of_table? hr.table).2 hr.mem.1 hc hp
  exact ⟨hordinary, r', hchanged, ((p.settle_eq_ok _).mp hd₁).2.symm.trans hdb⟩

/-! ## Several updates -/

/-- Columns of a row are written one after another. -/
inductive Lands (t : Table) : List (String × Value) → Row → Row → Prop
  | nil (r : Row) : Lands t [] r r
  | cons {e : String × Value} {es : List (String × Value)} {r₁ r₂ r₃ : Row} :
      isComputed t e.1 = false → Sets t e.1 (Cell.ofValue e.2) r₁ r₂ → Lands t es r₂ r₃ →
        Lands t (e :: es) r₁ r₃

section Lands

variable {es es' : List (String × Value)} {r r' : Row}

theorem Lands.congr {u : Table} (hu : u.columns = t.columns) (h : Lands u es r r') :
    Lands t es r r' := by
  induction h with
  | nil r => exact .nil r
  | cons hc hsets _ ih =>
    exact .cons (by rwa [isComputed, Table.column?, hu] at hc) (hsets.congr hu) ih

theorem Lands.split (h : Lands t (es ++ es') r r') :
    ∃ r₁, Lands t es r r₁ ∧ Lands t es' r₁ r' := by
  induction es generalizing r with
  | nil => exact ⟨r, .nil r, h⟩
  | cons e es ih =>
    cases h with
    | cons hc hsets h =>
      obtain ⟨r₁, h₁, h₂⟩ := ih h
      exact ⟨r₁, .cons hc hsets h₁, h₂⟩

theorem Lands.width (h : Lands t es r r') : r'.cells.length = r.cells.length := by
  induction h with
  | nil r => rfl
  | cons _ hsets _ ih => exact ih.trans hsets.width

theorem Lands.number (h : Lands t es r r') (hes : ∀ e ∈ es, t.hasColumn e.1 = true) :
    r'.number = r.number := by
  induction h with
  | nil r => rfl
  | cons _ hsets _ ih =>
    exact (ih fun e he => hes e (List.mem_cons_of_mem _ he)).trans
      (hsets.number (hes _ List.mem_cons_self))

theorem Lands.others (h : Lands t es r r') {i : Nat} (hi : t.Ordinary i)
    (hes : ∀ e ∈ es, t.columnIndex? e.1 ≠ some i) : r'.cells[i]? = r.cells[i]? := by
  induction h with
  | nil r => rfl
  | cons _ hsets _ ih =>
    exact (ih fun e he => hes e (List.mem_cons_of_mem _ he)).trans
      (hsets.others i hi (hes _ List.mem_cons_self))

theorem Lands.cell (h : Lands t es r r') {name : String} (hc : t.hasColumn name = true)
    (hname : isComputed t name = false) (hes : ∀ e ∈ es, sameName e.1 name = false) :
    t.cell r' name = t.cell r name := by
  induction h with
  | nil r => rfl
  | cons _ hsets _ ih =>
    exact (ih fun e he => hes e (List.mem_cons_of_mem _ he)).trans
      (hsets.cell hc hname (hes _ List.mem_cons_self))

end Lands

/-- A row holds what some fields were given, as its columns store it, and is
otherwise as it was, but for what is computed. -/
structure Revised (t : Table) (es : List (String × Value)) (r r' : Row) : Prop where
  written : ∀ e ∈ es, t.hasColumn e.1 = true →
    t.cell r' e.1 = (t.affinity e.1).store (Cell.ofValue e.2)
  others : ∀ name, t.hasColumn name = true → isComputed t name = false →
    (∀ e ∈ es, sameName e.1 name = false) → t.cell r' name = t.cell r name
  number : (∀ e ∈ es, t.hasColumn e.1 = true) → r'.number = r.number

/-- A written column holds what it makes of the cell, if it is written once. -/
theorem Lands.cell_written {es : List (String × Value)} {r r' : Row} (h : Lands t es r r')
    (hw : r.cells.length = t.columns.length)
    (hes : es.Pairwise fun a b => sameName a.1 b.1 = false) {e : String × Value} (he : e ∈ es)
    (hc : t.hasColumn e.1 = true) :
    t.cell r' e.1 = (t.affinity e.1).store (Cell.ofValue e.2) := by
  induction h with
  | nil => cases he
  | cons hordinary hsets hlands ih =>
    obtain ⟨hfirst, hrest⟩ := List.pairwise_cons.mp hes
    rcases List.mem_cons.mp he with rfl | he
    · obtain ⟨i, hi⟩ := Table.columnIndex?_of_hasColumn hc
      obtain ⟨hlt, -, -⟩ := List.findIdx?_eq_some_iff_getElem.mp hi
      rw [hlands.cell hc hordinary fun a ha => by rw [sameName_comm]; exact hfirst a ha]
      simp only [Table.cell, hi, List.getD_eq_getElem?_getD,
        hsets.written i ((Table.ordinary_iff hi).mpr hordinary) hi (hw ▸ hlt), Option.getD_some]
    · exact ih (hsets.width.trans hw) hrest he

theorem Lands.revised {es : List (String × Value)} {r r' : Row} (h : Lands t es r r')
    (hw : r.cells.length = t.columns.length)
    (hes : es.Pairwise fun a b => sameName a.1 b.1 = false) : Revised t es r r' where
  written _ he hc := h.cell_written hw hes he hc
  others _ hc hname hne := h.cell hc hname hne
  number := h.number

/-- Updates that pass write the row under the key. -/
theorem updates_of_docile {es : List (String × Value)} (hd : d.Docile s)
    (hes : ∀ e ∈ es, sameName e.1 keyColumn = false) {r : Row} (hr : d.Stores s id t r)
    (h : d.updates s id es = .ok d') :
    ∃ t' r', t'.columns = t.columns ∧ d'.Stores s id t' r' ∧ Lands t es r r' := by
  induction es generalizing d t r with
  | nil =>
    cases h
    exact ⟨t, r, rfl, hr, .nil r⟩
  | cons e es ih =>
    obtain ⟨n, d₁, hex, h⟩ := updates_cons.mp h
    have hc := hes e List.mem_cons_self
    obtain ⟨hordinary, r₁, hchanged, rfl⟩ := execute_update_of_docile hd hc hr hex
    have hdocile := hd.table t hr.table
    have hs := (mem_of_table? hr.table).2
    have hself : d.table? (t.put r.number r₁).name = some t := by
      rw [d.table?_congr (a := (t.put r.number r₁).name) hs]
      exact hr.table
    have hstores : (d.setTable (t.put r.number r₁)).Stores s id (t.put r.number r₁) r₁ := by
      refine ⟨?_, hdocile.row?_put hr.mem.1 (hchanged.sets.hasKey hdocile.keyed hc) hr.mem.2⟩
      rw [table?_setTable hself]
      exact if_pos hs
    have hnext : (d.setTable (t.put r.number r₁)).Docile s :=
      hd.setTable hself hs (hchanged.docile hdocile hr.mem.1 hc) rfl
    obtain ⟨t', r', hcols, hr', hlands⟩ :=
      ih hnext (fun e he => hes e (List.mem_cons_of_mem _ he)) hstores h
    have hcols₁ : (t.put r.number r₁).columns = t.columns := rfl
    exact ⟨t', r', hcols.trans hcols₁, hr', .cons hordinary hchanged.sets (hlands.congr hcols₁)⟩

/-- The row that a series of updates is about, after it. -/
theorem revised_of_updates {es : List (String × Value)} (hd : d.Docile s)
    (hkey : ∀ e ∈ es, sameName e.1 keyColumn = false)
    (hes : es.Pairwise fun a b => sameName a.1 b.1 = false) {r : Row} (hr : d.Stores s id t r)
    (h : d.updates s id es = .ok d') :
    ∃ t' r', t'.columns = t.columns ∧ d'.Stores s id t' r' ∧ Revised t es r r' := by
  obtain ⟨t', r', hcols, hr', hlands⟩ := updates_of_docile hd hkey hr h
  exact ⟨t', r', hcols, hr', hlands.revised ((hd.table t hr.table).widths r hr.mem.1) hes⟩

/-! ## Updates that are taken back -/

/-- A row that holds what is written to it at last is as it was before. -/
theorem Lands.back {es back : List (String × Value)} {r r' : Row}
    (hw : r.cells.length = t.columns.length)
    (hback : back.Pairwise fun a b => sameName a.1 b.1 = false)
    (hagree : ∀ e ∈ back, t.hasColumn e.1 = true ∧
      t.cell r e.1 = (t.affinity e.1).store (Cell.ofValue e.2))
    (hnames : ∀ e ∈ es, ∃ e' ∈ back, e'.1 = e.1) (h : Lands t (es ++ back) r r') :
    Table.Alike t r r' where
  width := h.width
  number := by
    refine h.number fun e he => ?_
    rcases List.mem_append.mp he with he | he
    · obtain ⟨e', he', hname⟩ := hnames e he
      exact hname ▸ (hagree e' he').1
    · exact (hagree e he).1
  cells i hi := by
    obtain ⟨r₁, h₁, h₂⟩ := h.split
    have hrevised := h₂.revised (h₁.width.trans hw) hback
    by_cases hmem : ∃ e ∈ back, t.columnIndex? e.1 = some i
    · obtain ⟨e, he, hindex⟩ := hmem
      obtain ⟨hlt, -, -⟩ := List.findIdx?_eq_some_iff_getElem.mp hindex
      have hcell : t.cell r' e.1 = t.cell r e.1 := by
        rw [hrevised.written e he (hagree e he).1, (hagree e he).2]
      have hlt₁ : i < r.cells.length := by omega
      have hlt₂ : i < r'.cells.length := by rw [h.width]; exact hlt₁
      simp only [Table.cell, hindex, List.getD_eq_getElem?_getD, List.getElem?_eq_getElem hlt₁,
        List.getElem?_eq_getElem hlt₂, Option.getD_some] at hcell
      rw [List.getElem?_eq_getElem hlt₁, List.getElem?_eq_getElem hlt₂, hcell]
    · refine h.others hi fun e he hindex => hmem ?_
      rcases List.mem_append.mp he with he | he
      · obtain ⟨e', he', hname⟩ := hnames e he
        exact ⟨e', he', hname ▸ hindex⟩
      · exact ⟨e, he, hindex⟩

/-- Updates that put back what a row held leave it as it was. -/
theorem alike_of_updates_back {es back : List (String × Value)} (hd : d.Docile s)
    (hkey : ∀ e ∈ back, sameName e.1 keyColumn = false)
    (hback : back.Pairwise fun a b => sameName a.1 b.1 = false) {r : Row}
    (hr : d.Stores s id t r)
    (hagree : ∀ e ∈ back, t.hasColumn e.1 = true ∧
      t.cell r e.1 = (t.affinity e.1).store (Cell.ofValue e.2))
    (hnames : ∀ e ∈ es, ∃ e' ∈ back, e'.1 = e.1)
    (h : d.updates s id (es ++ back) = .ok d') :
    ∃ t' r', t'.columns = t.columns ∧ d'.Stores s id t' r' ∧ Table.Alike t r r' := by
  have hkeys : ∀ e ∈ es ++ back, sameName e.1 keyColumn = false := by
    intro e he
    rcases List.mem_append.mp he with he | he
    · obtain ⟨e', he', hname⟩ := hnames e he
      exact hname ▸ hkey e' he'
    · exact hkey e he
  obtain ⟨t', r', hcols, hr', hlands⟩ := updates_of_docile hd hkeys hr h
  have hwidth := (hd.table t hr.table).widths r hr.mem.1
  exact ⟨t', r', hcols, hr', hlands.back hwidth hback hagree hnames⟩

/-! ## Tables of record types -/

/-- What a record type declares and its statements write is docile. -/
theorem docile_tableOf {es : List Shelved} (h : Shelf s es) : (tableOf s es).Docile where
  keyed := by
    rw [isComputed]
    cases hc : (tableOf s es).column? keyColumn with
    | none => rfl
    | some c => rw [Option.any_some, (generated_ofSchema (List.mem_of_find?_eq_some hc)).1]; rfl
  named c hc hgenerated := by
    rw [(generated_ofSchema hc).1] at hgenerated
    cases hgenerated
  nulls := by
    intro c hc
    have hc' : c ∈ Column.ofSchema s := hc
    rw [ofSchema_eq_cons] at hc'
    rcases List.mem_cons.mp hc' with rfl | hc'
    · exact ⟨by decide, by decide⟩
    rcases List.mem_append.mp (List.mem_filter.mp hc').1 with hc' | hc'
    · obtain ⟨p, -, rfl⟩ := List.mem_map.mp hc'
      exact Table.strict_none
    · obtain ⟨f, -, rfl⟩ := List.mem_map.mp hc'
      cases hn : f.notNull <;> simp [Table.Strict, Column.ofField, hn]
  keys := by
    intro k hk
    rw [show k = .primary from List.mem_singleton.mp hk]
    exact Table.strict_none
  numbers := by
    refine List.pairwise_map.mpr (h.sorted.imp fun {a b} hab => ?_)
    exact Int.ne_of_lt hab
  unique := by
    intro r hr q hq id hkr hkq
    obtain ⟨a, ha, rfl⟩ := List.mem_map.mp hr
    obtain ⟨b, hb, rfl⟩ := List.mem_map.mp hq
    rw [hasKey_row, decide_eq_true_iff] at hkr hkq
    have hfound := (shelved?_eq_some h.ids).mpr ⟨ha, hkr⟩
    rw [(shelved?_eq_some h.ids).mpr ⟨hb, hkq⟩] at hfound
    rw [Option.some.inj hfound]
  widths := by
    intro r hr
    obtain ⟨e, he, rfl⟩ := List.mem_map.mp hr
    have hlen := (h.fits e he).length
    have hcols : (tableOf s es).columns = Column.ofSchema s := rfl
    rw [hcols, ofSchema_of_named (h.named (List.ne_nil_of_mem he))]
    simp [Shelved.row, RowImage.cells, hlen]

/-- Guards may refuse an update, but they do not bend it. -/
theorem docile_guards (h : t.Docile) (guards : List Table.Guard) : { t with guards }.Docile :=
  ⟨h.keyed, h.named, h.nulls, h.keys, h.numbers, h.unique, h.widths⟩

/-- No references come from a database of one table that has none. -/
theorem docile_alone (h : t.Docile) (hr : t.references = []) :
    Docile { tables := [t] } s where
  table u hu := by
    rw [List.mem_singleton.mp (List.mem_of_find?_eq_some hu)]
    exact h
  references u hu r hmem := by
    rw [List.mem_singleton.mp hu, hr] at hmem
    cases hmem

/-- In the database of a program whatever its tables hold is docile. -/
theorem Holds.docile {es : List Shelved} (h : d.Holds s es) (hd : d.Plain) : d.Docile s where
  table t ht := by
    rw [h.table] at ht
    cases ht
    exact docile_tableOf h.shelf
  references t ht r hr := by
    rw [hd.references t ht] at hr
    cases hr

end Database

end LiveRecords
