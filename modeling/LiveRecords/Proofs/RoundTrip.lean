import LiveRecords.Proofs.Granting
import LiveRecords.Proofs.Outlook

/-!
# Rows on a round trip

A record type that has a table to itself stores rows as a map from keys to images
does: whatever was written before, a row that is put in is read back under its
key as it is, and the rows of other keys stay. The names of the type must be able
to stand in statements, and no column may take the name of the row number.
-/

namespace LiveRecords

/-! ## What fits can be seen -/

instance Schema.decidableTabular (s : Schema) : Decidable s.Tabular :=
  decidable_of_iff ((∀ n ∈ s.table :: s.columnNames, Keyword.isReserved n = false) ∧
      (∀ n ∈ s.columnNames, sameName n "rowid" = false) ∧
      Keyword.isSystemTable s.table = false ∧ Keyword.isLost s.table = false ∧
      s.columnNames.length < Database.maxColumns)
    ⟨fun ⟨h₁, h₂, h₃, h₄, h₅⟩ => ⟨h₁, h₂, h₃, h₄, h₅⟩,
      fun h => ⟨h.named, h.unnumbered, h.own, h.found, h.room⟩⟩

/-! ## Errands on the rows of a type -/

/-- What a program has done to the rows of a record type. -/
inductive Errand where
  | insert (x : RowImage)
  | setField (id : RecordId) (field : String) (v : Value)
  | setParent (id : RecordId) (parent : Option RecordId)
  | delete (id : RecordId)

namespace Errand

/-- Whether what is written fits the type. -/
def Fits (s : Schema) : Errand → Prop
  | .insert x => x.Fits s
  | .setField _ field v => ∃ f ∈ s.fields, f.name = field ∧ v.fits f.type f.notNull = true
  | .setParent .. => s.parentColumn ≠ none
  | .delete _ => True

instance decidableFits (s : Schema) : (e : Errand) → Decidable (e.Fits s)
  | .insert x => inferInstanceAs (Decidable (x.Fits s))
  | .setField _ field v => inferInstanceAs
      (Decidable (∃ f ∈ s.fields, f.name = field ∧ v.fits f.type f.notNull = true))
  | .setParent .. => inferInstanceAs (Decidable (s.parentColumn ≠ none))
  | .delete _ => .isTrue trivial

def run (s : Schema) (l : Link) : Errand → Except StoreError Unit × Link
  | .insert x => l.insertRow s x.id x.values x.parent
  | .setField id field v => l.updateField s id field v
  | .setParent id parent => l.updateParent s id parent
  | .delete id => ((fun _ => ()) <$> (l.deleteRow s id).1, (l.deleteRow s id).2)

/-- Runs errands up to the first that is refused. -/
def runAll (s : Schema) : List Errand → Link → Except StoreError Unit × Link
  | [], l => (.ok (), l)
  | e :: errands, l =>
    match e.run s l with
    | (.error x, l) => (.error x, l)
    | (.ok _, l) => runAll s errands l

/-- The images under their keys after an errand. -/
def apply (s : Schema) (stored : RecordId → Option RowImage) :
    Errand → RecordId → Option RowImage
  | .insert x => fun id => if id = x.id then some x else stored id
  | .setField k field v => fun id =>
    if id = k then (stored id).map (RowImage.setValue s field v) else stored id
  | .setParent k parent => fun id =>
    if id = k then (stored id).map fun x => { x with parent } else stored id
  | .delete k => fun id => if id = k then none else stored id

end Errand

namespace Link

variable {l : Link} {s : Schema} {es : List Shelved} {id : RecordId} {x : RowImage}

/-- A statement that the database grants is run. -/
theorem execute_of_unrefused (hl : l.Unrefused) {q : Statement} {n : Nat} {d : Database}
    (h : l.database.execute q = .ok (n, d)) :
    (l.execute q).1 = .ok n ∧ (l.execute q).2.database = d := by
  have hnow := hl _ (Nat.le_refl _)
  simp [execute, hnow, h]

/-! ## One errand -/

/-- A link to a database in which a record type has rows of its own, and on which no
statement is refused for a reason of its own. -/
structure Serves (l : Link) (s : Schema) (es : List Shelved) : Prop where
  unrefused : l.Unrefused
  plain : l.database.Plain
  holds : l.database.Holds s es

/-- What a statement turns the rows of the type into, they are afterwards. -/
theorem Serves.execute (h : l.Serves s es) {q : Statement} {n : Nat} {es' : List Shelved}
    (hex : l.database.execute q = .ok (n, l.database.shelve s es')) (hes : Shelf s es') :
    (l.execute q).1 = .ok n ∧ (l.execute q).2.Serves s es' := by
  obtain ⟨hok, hd⟩ := execute_of_unrefused h.unrefused hex
  refine ⟨hok, h.unrefused.later (later_execute l q), ?_, ?_⟩
  · rw [hd]
    exact h.plain.shelve s es'
  · rw [hd]
    exact h.holds.shelve hes

/-- Whether a statement succeeded, whatever number of rows it touched. -/
theorem answer_eq (r : Except StoreError Nat × Link) :
    (match r with
      | (.ok _, l) => (.ok (), l)
      | (.error e, l) => (.error e, l)) =
      (((fun _ => ()) <$> r.1, r.2) : Except StoreError Unit × Link) := by
  obtain ⟨_ | _, _⟩ := r <;> rfl

theorem Serves.insertRow (h : l.Serves s es) (hp : s.Proper) (ht : s.Tabular)
    (hlen : (es.length : Int) < Table.maxTried) (hf : x.Fits s) :
    (l.insertRow s x.id x.values x.parent).1 = .ok () ∧
      ∃ m, (l.insertRow s x.id x.values x.parent).2.Serves s
        (insertShelved ⟨m, x⟩ (unshelve es x.id)) := by
  obtain ⟨m, hshelf, hex⟩ := Database.execute_insertRow_ok h.plain h.holds hp ht.unnumbered
    ht.named hlen hf
  obtain ⟨hok, hserves⟩ := h.execute hex hshelf
  have heq : l.insertRow s x.id x.values x.parent = _ :=
    (if_neg (by simp [hf.length])).trans
      (answer_eq (l.execute ⟨s, .insertRow x.id x.values x.parent⟩))
  rw [heq, hok]
  exact ⟨rfl, m, hserves⟩

theorem Serves.setColumn (h : l.Serves s es) (hp : s.Proper) (ht : s.Tabular) {column : String}
    {v : Value} {f : RowImage → RowImage} (hw : Database.Writes s es column v f) (id : RecordId) :
    (l.setColumn s id column v).1 = .ok () ∧
      (l.setColumn s id column v).2.Serves s (revise es id f) := by
  obtain ⟨n, hex⟩ := Database.execute_updateColumn_ok h.plain h.holds hp ht.named hw id
  obtain ⟨hok, hserves⟩ := h.execute hex (h.holds.shelf.revise hw.id hw.fits)
  have heq : l.setColumn s id column v = _ :=
    answer_eq (l.execute ⟨s, .updateColumn id column v⟩)
  rw [heq, hok]
  exact ⟨rfl, hserves⟩

theorem Serves.updateField (h : l.Serves s es) (hp : s.Proper) (ht : s.Tabular) {f : Field}
    (hf : f ∈ s.fields) {v : Value} (hv : v.fits f.type f.notNull = true) (id : RecordId) :
    (l.updateField s id f.name v).1 = .ok () ∧
      (l.updateField s id f.name v).2.Serves s (revise es id (RowImage.setValue s f.name v)) := by
  obtain ⟨i, hi⟩ := List.mem_iff_getElem?.mp hf
  have hfield : (s.field? f.name).isNone = false := by
    rw [Option.isNone_eq_false_iff]
    exact List.find?_isSome.mpr ⟨f, hf, beq_self_eq_true _⟩
  have heq : l.updateField s id f.name v = l.setColumn s id f.name v := by
    simp [Link.updateField, hfield]
  rw [heq]
  exact h.setColumn hp ht (Database.writes_field es hp (hp.fieldIndex? hi) hi hv) id

theorem Serves.updateParent (h : l.Serves s es) (hp : s.Proper) (ht : s.Tabular)
    (hs : s.parentColumn ≠ none) (id : RecordId) (parent : Option RecordId) :
    (l.updateParent s id parent).1 = .ok () ∧
      (l.updateParent s id parent).2.Serves s (revise es id fun x => { x with parent }) := by
  obtain ⟨p, hparent⟩ := Option.ne_none_iff_exists'.mp hs
  have heq : l.updateParent s id parent = l.setColumn s id p (.ofId? parent) := by
    simp [Link.updateParent, hparent]
  rw [heq]
  exact h.setColumn hp ht (Database.writes_parent es hp hparent parent) id

theorem Serves.deleteRow (h : l.Serves s es) (ht : s.Tabular) (id : RecordId) :
    (∃ n, (l.deleteRow s id).1 = .ok n) ∧ (l.deleteRow s id).2.Serves s (unshelve es id) := by
  obtain ⟨n, hex⟩ := Database.execute_deleteRow_ok h.plain h.holds ht.named id
  obtain ⟨hok, hserves⟩ := h.execute hex (h.holds.shelf.unshelve id)
  exact ⟨⟨n, hok⟩, hserves⟩

theorem length_insert_le (m : Int) (x : RowImage) :
    (insertShelved ⟨m, x⟩ (unshelve es x.id)).length ≤ es.length + 1 := by
  rw [(perm_insertShelved _ _).length_eq, List.length_cons]
  exact Nat.succ_le_succ (List.length_filter_le _ _)

/-- An errand that fits succeeds, and does to the rows what it says. -/
theorem Serves.errand (h : l.Serves s es) (hp : s.Proper) (ht : s.Tabular)
    (hlen : (es.length : Int) < Table.maxTried) {e : Errand} (he : e.Fits s) :
    (e.run s l).1 = .ok () ∧ ∃ es', (e.run s l).2.Serves s es' ∧ es'.length ≤ es.length + 1 ∧
      stored? es' = e.apply s (stored? es) := by
  cases e with
  | insert x =>
    obtain ⟨hok, m, hserves⟩ := h.insertRow hp ht hlen he
    exact ⟨hok, _, hserves, length_insert_le m x,
      funext fun id => stored?_insert h.holds.shelf.ids m x id⟩
  | setField id field v =>
    obtain ⟨f, hf, rfl, hv⟩ := he
    obtain ⟨hok, hserves⟩ := h.updateField hp ht hf hv id
    refine ⟨hok, _, hserves, ?_, funext fun j => stored?_revise (RowImage.id_setValue s _ v) j⟩
    rw [revise, List.length_map]
    exact Nat.le_succ _
  | setParent id parent =>
    obtain ⟨hok, hserves⟩ := h.updateParent hp ht he id parent
    have hid : ∀ x : RowImage, ({ x with parent } : RowImage).id = x.id := fun _ => rfl
    refine ⟨hok, _, hserves, ?_, funext fun j => stored?_revise hid j⟩
    rw [revise, List.length_map]
    exact Nat.le_succ _
  | delete id =>
    obtain ⟨⟨n, hok⟩, hserves⟩ := h.deleteRow ht id
    refine ⟨?_, _, hserves, Nat.le_succ_of_le (List.length_filter_le _ _),
      funext fun j => stored?_unshelve j⟩
    show (fun _ => ()) <$> (l.deleteRow s id).1 = .ok ()
    rw [hok]
    rfl

/-- Rows are stored as a map from keys to images does, whatever is done to them. -/
theorem Serves.errands (h : l.Serves s es) (hp : s.Proper) (ht : s.Tabular) {errands : List Errand}
    (hlen : (es.length + errands.length : Int) ≤ Table.maxTried) (he : ∀ e ∈ errands, e.Fits s) :
    (Errand.runAll s errands l).1 = .ok () ∧ ∃ es', (Errand.runAll s errands l).2.Serves s es' ∧
      es'.length ≤ es.length + errands.length ∧
      stored? es' = errands.foldl (Errand.apply s) (stored? es) := by
  induction errands generalizing l es with
  | nil => exact ⟨rfl, es, h, Nat.le_refl _, rfl⟩
  | cons e errands ih =>
    rw [List.length_cons] at hlen
    obtain ⟨hok, es₁, hserves, hlength, hstored⟩ :=
      h.errand hp ht (by omega) (he e List.mem_cons_self)
    obtain ⟨hrest, es₂, hserves₂, hlength₂, hstored₂⟩ := ih hserves (by omega)
      fun e' he' => he e' (List.mem_cons_of_mem _ he')
    have heq : Errand.runAll s (e :: errands) l = Errand.runAll s errands (e.run s l).2 := by
      rw [Errand.runAll]
      split
      · next hs =>
        rw [hs] at hok
        cases hok
      · next hs => rw [hs]
    rw [heq]
    refine ⟨hrest, es₂, hserves₂, ?_, ?_⟩
    · rw [List.length_cons]
      omega
    · rw [hstored₂, hstored]
      rfl

/-! ## A fresh database -/

theorem serves_ensureTable (ht : s.Tabular) (hl : l.Unrefused) (hd : l.database = {}) :
    (l.ensureTable s).1 = .ok () ∧ (l.ensureTable s).2.Serves s [] := by
  have hnone : l.database.table? s.table = none := by
    rw [hd]
    rfl
  have hplain : l.database.Plain := by
    rw [hd]
    exact Database.plain_empty
  obtain ⟨hok, hmade⟩ := execute_of_unrefused hl
    (Database.execute_createTable_of_tabular ht hnone)
  have heq : l.ensureTable s = _ := answer_eq (l.execute ⟨s, .createTable⟩)
  rw [heq, hok]
  refine ⟨rfl, hl.later (later_execute l _), ?_, ?_⟩
  · show (l.execute ⟨s, .createTable⟩).2.database.Plain
    rw [hmade]
    exact hplain.append hnone
  · show (l.execute ⟨s, .createTable⟩).2.database.Holds s []
    rw [hmade]
    exact Database.holds_made hnone

/-- A row is put in, and then is the one that is read under its key. -/
structure Takes (l : Link) (s : Schema) (x : RowImage) : Prop where
  written : (l.insertRow s x.id x.values x.parent).1 = .ok ()
  found : ((l.insertRow s x.id x.values x.parent).2.selectOne s x.id).1 = .ok (some x)
  alone : ((l.insertRow s x.id x.values x.parent).2.selectWhere s (keyFilter x.id)).1 = .ok [x]
  others : ∀ id, id ≠ x.id →
    ((l.insertRow s x.id x.values x.parent).2.selectOne s id).1 = (l.selectOne s id).1

theorem Serves.takes (h : l.Serves s es) (hp : s.Proper) (ht : s.Tabular)
    (hlen : (es.length : Int) < Table.maxTried) (hf : x.Fits s) : l.Takes s x := by
  obtain ⟨hok, m, hserves⟩ := h.insertRow hp ht hlen hf
  have hstored := stored?_insert h.holds.shelf.ids m x
  have hone := fun id => selectOne_eq hserves.holds hp ht.unnumbered ht.named
    (hserves.unrefused _ (Nat.le_refl _)) id
  have hwhere := selectWhere_keyFilter hserves.holds hp ht.unnumbered ht.named
    (hserves.unrefused _ (Nat.le_refl _)) x.id
  refine ⟨hok, ?_, ?_, fun id hid => ?_⟩
  · rw [hone, hstored, if_pos rfl]
  · rw [hwhere, hstored, if_pos rfl]
    rfl
  · rw [hone, hstored, if_neg hid, selectOne_eq h.holds hp ht.unnumbered ht.named
      (h.unrefused _ (Nat.le_refl _)) id]

/-- On a fresh database the table of a type is made, and whatever is done to its rows
then, the next row that fits is put in and read back as it is. -/
theorem takes_of_errands {t : Draft} (hs : t.build = .ok s) (ht : s.Tabular) (hl : l.Unrefused)
    (hd : l.database = {}) {errands : List Errand} (he : ∀ e ∈ errands, e.Fits s)
    (hlen : (errands.length : Int) < Table.maxTried) (hf : x.Fits s) :
    (l.ensureTable s).1 = .ok () ∧ (Errand.runAll s errands (l.ensureTable s).2).1 = .ok () ∧
      (Errand.runAll s errands (l.ensureTable s).2).2.Takes s x ∧
      ∀ id, ((Errand.runAll s errands (l.ensureTable s).2).2.selectOne s id).1 =
        .ok (errands.foldl (Errand.apply s) (fun _ => none) id) := by
  have hp := Schema.proper_of_build hs
  obtain ⟨hmade, hserves⟩ := serves_ensureTable ht hl hd
  have hroom : ((List.length ([] : List Shelved) : Int) + errands.length : Int) ≤ Table.maxTried := by
    simpa using Int.le_of_lt hlen
  obtain ⟨hrun, es, hafter, hlength, hstored⟩ := hserves.errands hp ht hroom he
  refine ⟨hmade, hrun, hafter.takes hp ht ?_ hf, fun id => ?_⟩
  · rw [List.length_nil, Nat.zero_add] at hlength
    omega
  · rw [selectOne_eq hafter.holds hp ht.unnumbered ht.named
      (hafter.unrefused _ (Nat.le_refl _)) id, hstored]
    rfl

/-- A record type whose rows form a tree. -/
def treeDraft : Draft :=
  Draft.selfReferencing
    { table := "NOTES", fields := [⟨"TITLE", .text, true⟩, ⟨"RANK", .integer, false⟩] }

def treeSchema : Schema := ⟨treeDraft.table, treeDraft.fields, treeDraft.parentColumn⟩

/-- A program that writes two notes, changes the first and takes out the second. -/
def writesNotes : List Errand :=
  [.insert ⟨.ofOrdinal 1, none, [.text "milk", .integer 1]⟩,
    .insert ⟨.ofOrdinal 2, some (.ofOrdinal 1), [.text "bread", .null]⟩,
    .setField (.ofOrdinal 1) "TITLE" (.text "jam"), .setParent (.ofOrdinal 1) (some (.ofOrdinal 2)),
    .delete (.ofOrdinal 2)]

/-- The first note is written anew. -/
theorem takes_writesNotes :
    treeDraft.build = .ok treeSchema ∧ treeSchema.Tabular ∧ ({} : Link).Unrefused ∧
      (∀ e ∈ writesNotes, e.Fits treeSchema) ∧ (writesNotes.length : Int) < Table.maxTried ∧
      (⟨.ofOrdinal 1, none, [.text "salt", .null]⟩ : RowImage).Fits treeSchema ∧
      (Errand.runAll treeSchema writesNotes (({} : Link).ensureTable treeSchema).2).2.Takes treeSchema
        ⟨.ofOrdinal 1, none, [.text "salt", .null]⟩ := by
  have hs : treeDraft.build = .ok treeSchema := by rfl
  have ht : treeSchema.Tabular := by decide +kernel
  have he : ∀ e ∈ writesNotes, e.Fits treeSchema := by decide +kernel
  have hf : (⟨.ofOrdinal 1, none, [.text "salt", .null]⟩ : RowImage).Fits treeSchema := by
    decide +kernel
  exact ⟨hs, ht, fun _ _ => rfl, he, by decide, hf,
    (takes_of_errands hs ht (fun _ _ => rfl) rfl he (by decide) hf).2.2.1⟩

/-- A record type with a column called like row numbers. -/
def numbered : Draft := { table := "NOTES", fields := [⟨"rowid", .text, false⟩] }

/-- A value is lost where the number of its row is carried over in its place. -/
theorem losesValue :
    ∃ s, numbered.build = .ok s ∧ (({} : Link).ensureTable s).1 = .ok () ∧
      (⟨.ofOrdinal 1, none, [.text "milk"]⟩ : RowImage).Fits s ∧
      ((({} : Link).ensureTable s).2.insertRow s (.ofOrdinal 1) [.text "milk"] none).1 = .ok () ∧
      (((({} : Link).ensureTable s).2.insertRow s (.ofOrdinal 1) [.text "milk"] none).2.selectOne s
        (.ofOrdinal 1)).1 = .ok (some ⟨.ofOrdinal 1, none, [.null]⟩) := by
  refine ⟨⟨"NOTES", [⟨"rowid", .text, false⟩], none⟩, by rfl, by rfl, by decide +kernel, ?_, ?_⟩
  · rfl
  · rfl

end Link

end LiveRecords
