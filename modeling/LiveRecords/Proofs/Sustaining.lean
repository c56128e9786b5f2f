import LiveRecords.Proofs.Declaring
import LiveRecords.Proofs.Runs
import LiveRecords.Proofs.Sending

/-!
# Databases of declared tables

As long as no table is declared by anybody else, all tables of a database stay in the
order in which record types declare them, whoever writes to them and whatever values.
So do those of all databases, in every run.
-/

namespace LiveRecords

open Table (Cell Column Refusal Resolution Row UniqueKey)

namespace Database

variable {d d' : Database} {p q : Pending} {t : Table} {name : String} {number : Int} {n : Nat}

/-! ## Steps -/

/-- Record types declared all tables. -/
def Declared (d : Database) : Prop := ∀ t ∈ d.tables, t.Declared

theorem declared_empty : Declared {} := fun _ ht => absurd ht List.not_mem_nil

theorem Declared.table (hd : d.Declared) (ht : d.table? name = some t) : t.Declared :=
  hd t (mem_of_table? ht).1

theorem Declared.setTable (hd : d.Declared) (ht : t.Declared) : (d.setTable t).Declared := by
  intro u hu
  obtain ⟨v, hv, rfl⟩ := List.mem_map.mp hu
  split
  · exact ht
  · exact hd v hv

theorem Declared.followAll (hd : p.database.Declared)
    {run : Pending → Step → Except Refusal Pending} {touch : Touch} {old : Row} {new : Option Row}
    (h : Database.followAll run t touch old new p = .ok q) : q = p := by
  have hnone : p.database.referencesMet t touch = [] := by
    refine List.eq_nil_iff_forall_not_mem.mpr fun e he => ?_
    obtain ⟨hmem, href, -⟩ := mem_of_referencesMet he
    rw [(hd e.1 hmem).references] at href
    exact absurd href List.not_mem_nil
  unfold Database.followAll at h
  rw [hnone] at h
  cases h
  rfl

theorem without_of_rowAt?_none (h : t.rowAt? number = none) : t.without number = t := by
  have hrows : t.rows.filter (·.number != number) = t.rows := by
    refine List.filter_eq_self.mpr fun r hr => ?_
    simpa using List.find?_eq_none.mp h r hr
  rw [Table.without, hrows]

/-- A row that is erased leaves its table. -/
theorem Declared.erase (hd : p.database.Declared) {depth : Nat} {guarded : Bool}
    (h : Pending.perform depth p (.erase guarded name number) = .ok (n, q)) :
    q.database.Declared ∧
      q.database.table? name = (p.database.table? name).map (·.without number) := by
  cases depth with
  | zero => cases h
  | succ depth =>
    unfold Pending.perform at h
    split at h
    · next ht =>
      cases h
      exact ⟨hd, by rw [ht]; rfl⟩
    next t ht =>
    split at h
    · next hrow =>
      cases h
      refine ⟨hd, ?_⟩
      rw [ht, Option.map_some, without_of_rowAt?_none hrow]
    next row hrow =>
    split at h
    · cases h
    obtain ⟨p₁, hfollow, h⟩ := bind_eq_ok.mp h
    cases h
    have hname : sameName (t.without number).name name = true := (mem_of_table? ht).2
    have hmade := hd.setTable ((hd.table ht).without number)
    have hset : q.database = p.database.setTable (t.without number) := by
      rw [Declared.followAll (p := _) ?_ hfollow]
      · simp [Pending.setTable]
      · simpa [Pending.setTable] using hmade
    rw [hset]
    refine ⟨hmade, ?_⟩
    rw [table?_setTable (u := t) ((p.database.table?_congr hname).trans ht), if_pos hname, ht]
    rfl

/-- Where room is made for a row, no other has its key. -/
theorem Declared.makeRoom (hd : p.database.Declared) {depth : Nat} {new : Row} {k : UniqueKey}
    (hk : k.parts = UniqueKey.primary.parts) (ht : p.database.table? name = some t)
    (h : Database.makeRoom (fun p s => (Pending.perform depth p s).map (·.2)) name number new
      [k] p = .ok (some q)) :
    q.database.Declared ∧ ∃ u, q.database.table? name = some u ∧ u.columns = t.columns ∧
      (∀ r ∈ u.rows, r ∈ t.rows) ∧
      ∀ r ∈ u.rows, r.number ≠ number → t.agree k new r = false := by
  unfold Database.makeRoom at h
  simp only [ht] at h
  split at h
  · next hrival =>
    cases h
    refine ⟨hd, t, ht, rfl, fun _ hr => hr, fun r hr hne => ?_⟩
    have hnone := List.find?_eq_none.mp hrival r hr
    simpa [hne] using hnone
  next rival hrival =>
  obtain ⟨hmem, hagree⟩ : rival ∈ t.rows ∧ t.agree k new rival = true := by
    refine ⟨List.mem_of_find?_eq_some hrival, ?_⟩
    have hfound := List.find?_some hrival
    simp only [Bool.and_eq_true] at hfound
    exact hfound.2
  split at h
  · cases h
  · obtain ⟨p₁, herase, h⟩ := bind_eq_ok.mp h
    cases h
    obtain ⟨⟨m, _⟩, hperform, rfl⟩ := map_eq_ok.mp herase
    obtain ⟨hdeclared, htable⟩ := hd.erase hperform
    refine ⟨hdeclared, t.without rival.number, by rw [htable, ht]; rfl, rfl,
      fun r hr => ((Table.without_rows t _ r).mp hr).1, fun r hr hne => ?_⟩
    obtain ⟨hr, hnumber⟩ := (Table.without_rows t _ r).mp hr
    refine Bool.eq_false_iff.mpr fun hagain => hnumber ?_
    obtain ⟨-, hequal⟩ := (Table.agree_iff hk).mp hagree
    obtain ⟨-, hequal'⟩ := (Table.agree_iff hk).mp hagain
    rw [(hd.table ht).distinct r hr rival hmem (hequal'.symm.trans hequal)]
  · cases h

/-- A row comes into the table in which room was made for it. -/
theorem Declared.put (hd : d.Declared) {u : Table} (hu : d.table? name = some u)
    (hcolumns : u.columns = t.columns) (ht : t.Declared) {new : Row} (hnew : t.Kept new)
    (hnumber : new.Numbered) {k : UniqueKey} (hk : k.parts = UniqueKey.primary.parts)
    (hroom : ∀ r ∈ u.rows, r.number ≠ number → t.agree k new r = false)
    (hnumbers : ∀ r ∈ u.rows, r.number ≠ number → r.number ≠ new.number) :
    (d.setTable (u.put number new)).Declared := by
  refine hd.setTable ((hd.table hu).put (hnew.congr hcolumns) hnumber fun s hs hne => ?_)
  refine ⟨hnumbers s hs hne, fun hequal => ?_⟩
  rw [Table.cell_congr hcolumns, Table.cell_congr hcolumns] at hequal
  have hagree := hroom s hs hne
  rw [(Table.agree_iff hk).mpr ⟨hnew.given keyColumn .key ht.key rfl, hequal⟩] at hagree
  cases hagree

/-- A row that is added leaves all tables in order. -/
theorem Declared.add (hd : p.database.Declared) (ht : p.database.table? t.name = some t)
    {override : Option Resolution} {row : Row} (hrow : t.Stored row) (hnumber : row.Numbered)
    (h : p.add t override row = .ok q) : q.database.Declared := by
  have hdeclared := hd.table ht
  unfold Pending.add at h
  obtain ⟨fitted, hfit, hrest⟩ := bind_eq_ok.mp h
  cases fitted with
  | none =>
    cases hrest
    exact hd
  | some new =>
    obtain ⟨rfl, hgiven⟩ := hdeclared.fit hfit
    have hkept : t.Kept new :=
      Table.kept_of_given hrow fun c hc => hgiven c (List.mem_of_find?_eq_some hc) rfl
    dsimp only at hrest
    split at hrest
    · cases hrest
    obtain ⟨p₁, herase, hrest⟩ := bind_eq_ok.mp hrest
    obtain ⟨⟨m, _⟩, hperform, rfl⟩ := map_eq_ok.mp herase
    obtain ⟨hd₁, ht₁⟩ := hd.erase hperform
    obtain ⟨room, hroom, hlast⟩ := bind_eq_ok.mp hrest
    cases room with
    | none =>
      cases hlast
      exact hd
    | some p₂ =>
      obtain ⟨k, hkeys, hk⟩ := hdeclared.keysUnder override
      rw [hkeys] at hroom
      rw [ht, Option.map_some] at ht₁
      obtain ⟨hd₂, u, hu, hcolumns, -, hfree⟩ := hd₁.makeRoom hk ht₁ hroom
      cases hlast
      simp only [Pending.setTable, database_adopt, database_claim, hu, Option.getD_some]
      exact hd₂.put hu hcolumns (hdeclared.without _)
        ⟨hkept.stored, hkept.given⟩ hnumber hk hfree fun _ _ hne => hne

theorem stored_assigned (ht : t.Declared) {row new : Row} (hrow : t.Stored row) {column : String}
    {x : Cell} (h : assigned t row [(column, x)] = .ok new) : t.Stored new := by
  unfold assigned at h
  split at h
  · split at h
    · cases h
      intro name hname
      have hsame := hrow name hname
      obtain ⟨i, hi⟩ := Table.columnIndex?_of_hasColumn hname
      rw [Table.cell, hi] at hsame ⊢
      exact hsame
    · cases h
  · cases h
    exact Table.stored_setCell ht.exact hrow column x

theorem numbered_assigned {row new : Row} (hrow : row.Numbered) {column : String} {x : Cell}
    (h : assigned t row [(column, x)] = .ok new) : new.Numbered := by
  unfold assigned at h
  split at h
  · split at h
    · next hn =>
      cases h
      exact Table.numbered_of_numberOf? hn row.cells
    · cases h
  · cases h
    unfold Table.setCell
    split <;> exact hrow

/-- A row that is assigned to leaves all tables in order. -/
theorem Declared.assign (hd : p.database.Declared) {depth : Nat}
    {override : Option Resolution} {column : String} {x : Cell}
    (h : Pending.perform depth p (.assign override name number [(column, x)]) = .ok (n, q)) :
    q.database.Declared := by
  cases depth with
  | zero => cases h
  | succ depth =>
    unfold Pending.perform at h
    split at h
    · cases h
      exact hd
    next t ht =>
    split at h
    · cases h
      exact hd
    next row hrow =>
    have hdeclared := hd.table ht
    have hmem := List.mem_of_find?_eq_some hrow
    have hold := hdeclared.kept row hmem
    obtain ⟨new, hassigned, hrest⟩ := bind_eq_ok.mp h
    have hnumber := numbered_assigned (hdeclared.numbered row hmem) hassigned
    split at hrest
    · cases hrest
    obtain ⟨fitted, hfit, hrest⟩ := bind_eq_ok.mp hrest
    cases fitted with
    | none =>
      cases hrest
      exact hd
    | some fitted =>
      obtain ⟨hsame, hgiven⟩ := hdeclared.fit hfit
      rw [hsame] at hrest
      -- A column that is not assigned to has the value that it had.
      have hkept : t.Kept new := by
        have hstored := stored_assigned hdeclared hold.stored hassigned
        refine Table.kept_of_given hstored fun c hc hnull => ?_
        by_cases hname : sameName c.name column = true
        · refine hgiven c (List.mem_of_find?_eq_some hc) ?_ hnull
          simp [Table.changedColumns_eq fun c hc => (hdeclared.columns c hc).1, hname]
        · have hne : sameName column c.name = false := by
            rw [sameName_comm]
            simpa using hname
          rw [(sets_assigned hassigned).cell (by rw [Table.hasColumn, hc]; rfl)
            (hdeclared.not_computed _) hne]
          exact hold.given c.name c hc hnull
      dsimp only at hrest
      split at hrest
      · cases hrest
      next hmoves =>
      obtain ⟨room, hroom, hlast⟩ := bind_eq_ok.mp hrest
      cases room with
      | none =>
        cases hlast
        exact hd
      | some p₁ =>
        obtain ⟨k, hkeys, hk⟩ := hdeclared.keysUnder override
        rw [hkeys] at hroom
        obtain ⟨hd₁, u, hu, hcolumns, hmem, hfree⟩ := hd.makeRoom hk ht hroom
        have hnumbers : ∀ r ∈ u.rows, r.number ≠ number → r.number ≠ new.number := by
          intro r hr hne hr'
          refine hmoves (Bool.and_eq_true_iff.mpr ⟨?_, List.find?_isSome.mpr ⟨r, hmem r hr, ?_⟩⟩)
          · rw [← hr']
            simpa using hne
          · simpa using hr'
        have hput := hd₁.put hu hcolumns hdeclared hkept hnumber hk hfree hnumbers
        have hagain : (p₁.database.setTable (u.without number)).setTable (u.put number new) =
            p₁.database.setTable (u.put number new) := setTable_setTable (sameName_refl u.name)
        simp only [hu, Option.getD_some] at hlast
        obtain ⟨p₂, hfollow, hlast⟩ := bind_eq_ok.mp hlast
        cases hlast
        -- Whether or not rows that dangle are counted, the database is the same.
        split at hfollow
        · rw [Declared.followAll _ hfollow]
          all_goals simpa [Pending.setTable, hagain] using hput
        · rw [Declared.followAll _ hfollow]
          all_goals exact hput

/-! ## Statements -/

theorem declared_tableOf (s : Schema) : (tableOf s []).Declared where
  keys := rfl
  references := rfl
  key := rfl
  columns c hc := generated_ofSchema hc
  exact := by
    intro c hc
    obtain ⟨hmem, -⟩ := List.mem_filter.mp (show c ∈ Column.ofSchema s from hc)
    simp only [List.mem_append, List.mem_cons, List.mem_map] at hmem
    rcases hmem with (rfl | ⟨name, -, rfl⟩) | ⟨f, -, rfl⟩
    · decide
    · simp [Column.ofParent]
    · cases hf : f.type <;> simp [Column.ofField, hf, Table.Affinity.ofField]
  sorted := .nil
  numbered _ hr := absurd hr List.not_mem_nil
  distinct _ ha := absurd ha List.not_mem_nil
  kept _ hr := absurd hr List.not_mem_nil

theorem Declared.append (hd : d.Declared) (s : Schema) :
    Declared { tables := d.tables ++ [tableOf s []] } := by
  intro t ht
  rcases List.mem_append.mp ht with ht | ht
  · exact hd t ht
  · rw [List.mem_singleton.mp ht]
    exact declared_tableOf s

theorem Declared.settle (hp : p.database.Declared) (h : p.settle = .ok d) : d.Declared :=
  ((p.settle_eq_ok d).mp h).2 ▸ hp

theorem Declared.insertRow (hd : d.Declared) (ht : d.table? t.name = some t) {s : Schema}
    {id : RecordId} {values : List Value} {parent : Option RecordId}
    (h : d.insertRow t s id values parent = .ok d') : d'.Declared := by
  simp only [Database.insertRow, bind_eq_ok] at h
  obtain ⟨_, -, _, -, m, hnumber, h⟩ := h
  split at h
  · cases h
  obtain ⟨cells, hcells, p, hadd, hsettle⟩ := by simpa only [bind_eq_ok] using h
  have hrow := Table.stored_assemble (hd.table ht) hcells m
  have hnumbered := Table.numbered_of_numberFor (hd.table ht).numbered hnumber cells
  exact (Declared.add (p := { database := d }) hd ht hrow hnumbered hadd).settle hsettle

theorem Declared.updateRow (hd : d.Declared) {id : RecordId} {column : String} {x : Cell}
    (h : d.updateRow t id column x = .ok (n, d')) : d'.Declared := by
  simp only [Database.updateRow, bind_eq_ok] at h
  obtain ⟨_, -, _, -, h⟩ := h
  split at h
  · cases h
    exact hd
  · obtain ⟨⟨m, p⟩, hperform, d₁, hsettle, hpair⟩ := by simpa only [bind_eq_ok] using h
    cases hpair
    exact (Declared.assign (p := { database := d }) hd hperform).settle hsettle

theorem Declared.deleteRow (hd : d.Declared) {id : RecordId}
    (h : d.deleteRow t id = .ok (n, d')) : d'.Declared := by
  simp only [Database.deleteRow, bind_eq_ok] at h
  obtain ⟨_, -, h⟩ := h
  split at h
  · cases h
    exact hd
  · obtain ⟨⟨m, p⟩, hperform, d₁, hsettle, hpair⟩ := by simpa only [bind_eq_ok] using h
    cases hpair
    exact (Declared.erase (p := { database := d }) hd hperform).1.settle hsettle

/-- Every statement leaves all tables in order. -/
theorem Declared.execute (hd : d.Declared) {q : Statement} (h : d.execute q = .ok (n, d')) :
    d'.Declared := by
  obtain ⟨s, request⟩ := q
  cases request with
  | createTable =>
    obtain ⟨rfl, -⟩ | ⟨-, rfl⟩ := execute_createTable h
    · exact hd
    · exact hd.append s
  | insertRow id values parent =>
    simp only [Database.execute, bind_eq_ok] at h
    obtain ⟨t, htarget, d₁, hinsert, hpair⟩ := h
    cases hpair
    have ht := (target_eq_ok htarget).2
    exact hd.insertRow ((d.table?_congr (mem_of_table? ht).2).trans ht) hinsert
  | updateColumn id column value =>
    simp only [Database.execute, bind_eq_ok] at h
    obtain ⟨t, -, h⟩ := h
    exact hd.updateRow h
  | deleteRow id =>
    simp only [Database.execute, bind_eq_ok] at h
    obtain ⟨t, -, h⟩ := h
    exact hd.deleteRow h
  | selectRows k =>
    cases h
    exact hd
  | selectKeys k limit offset =>
    cases h
    exact hd

/-! ## Changes from elsewhere -/

/-- Whether a change is that a table comes from elsewhere. -/
def Change.declares : Change → Bool
  | .declareTable .. => true
  | _ => false

theorem Declared.addRow (hd : d.Declared) (name : String) (listed : List (String × Cell)) :
    (d.addRow name listed).Declared := by
  have hadded : ∀ {added : Except Refusal Database}, (∀ d', added = .ok d' → d'.Declared) →
      (added.toOption.getD d).Declared := by
    intro added h
    cases added with
    | error e => exact hd
    | ok d' => exact h d' rfl
  refine hadded fun d' h => ?_
  split at h
  · cases h
    exact hd
  next t ht =>
  split at h
  · cases h
  obtain ⟨m, hnumber, cells, hcells, p, hadd, hsettle⟩ := by simpa only [bind_eq_ok] using h
  have ht' : d.table? t.name = some t := (d.table?_congr (mem_of_table? ht).2).trans ht
  have hrow := Table.stored_assemble (hd.table ht) hcells m
  have hnumbered := Table.numbered_of_numberFor (hd.table ht).numbered hnumber cells
  exact (Declared.add (p := { database := d }) hd ht' hrow hnumbered hadd).settle hsettle

/-- Rows that are erased one after another leave all tables in order. -/
theorem Declared.eraseAll {rows : List Row} (hp : p.database.Declared)
    (h : rows.foldlM (fun p r =>
      (Pending.perform maxDepth p (.erase false name r.number)).map (·.2)) p = .ok q) :
    q.database.Declared := by
  induction rows generalizing p with
  | nil =>
    cases h
    exact hp
  | cons r rows ih =>
    rw [List.foldlM_cons] at h
    obtain ⟨p₁, herase, h⟩ := bind_eq_ok.mp h
    obtain ⟨⟨m, _⟩, hperform, rfl⟩ := map_eq_ok.mp herase
    exact ih (hp.erase hperform).1 h

/-- Whatever another user does but make tables, tables stay in order. -/
theorem Declared.apply (hd : d.Declared) {c : Change} (hc : c.declares = false) :
    (d.apply c).Declared := by
  cases c with
  | declareTable name declarations => cases hc
  | addRow name cells => exact hd.addRow name cells
  | freeze name guard =>
    show (d.freeze name guard).Declared
    unfold Database.freeze
    split
    · exact hd
    · next t ht => exact hd.setTable ((hd.table ht).withGuards _)
  | thaw e =>
    intro t ht
    obtain ⟨u, hu, rfl⟩ := List.mem_map.mp ht
    exact (hd u hu).withGuards _
  | dropTable name =>
    show (d.dropTable name).Declared
    unfold Database.dropTable
    split
    · exact hd
    next t ht =>
    dsimp only
    split
    · exact hd
    · next d₁ hemptied =>
      obtain ⟨p, hall, hsettle⟩ := bind_eq_ok.mp hemptied
      intro u hu
      exact (Declared.eraseAll (p := { database := d }) hd hall).settle hsettle u
        (List.mem_filter.mp hu).1

end Database

/-! ## Commands -/

/-- Whatever statements are run on a link, all tables stay in order. -/
theorem Link.closed_declared : Link.Closed fun l => l.database.Declared where
  execute := by
    intro l q h
    obtain ⟨e, -, hd⟩ | ⟨n, d, -, hexecute, hd⟩ := l.execute_cases q
    · rw [hd]
      exact h
    · rw [hd]
      exact h.execute hexecute
  report _ h := h

namespace Core

variable {k k' : Core} {c : ConnectionRef} {d : Database}

/-- Record types declared all tables of all databases. -/
def Declared (k : Core) : Prop := ∀ d ∈ k.databases, d.Declared

theorem Declared.of_databases (hk : k.Declared) (h : k'.databases = k.databases) : k'.Declared := by
  unfold Declared
  rw [h]
  exact hk

theorem Declared.databaseOf (hk : k.Declared) (c : ConnectionRef) : (k.databaseOf c).Declared := by
  unfold Core.databaseOf
  cases hd : (k.connections[c]?).bind fun d => k.databases[d]? with
  | none => exact Database.declared_empty
  | some d =>
    obtain ⟨i, -, hi⟩ := Option.bind_eq_some_iff.mp hd
    exact hk d (List.mem_of_getElem? hi)

theorem Declared.setDatabase (hk : k.Declared) (hd : d.Declared) :
    (k.setDatabase c d).Declared := by
  unfold Core.setDatabase
  split
  · exact hk
  · intro x hx
    rcases List.mem_or_eq_of_mem_set hx with hx | rfl
    · exact hk x hx
    · exact hd

theorem Declared.commands (hk : k.Declared) {r : RecordRef} {e : Record.Command}
    {reply : Except StoreError Record.Reply} (h : Commands r e reply k k') : k'.Declared := by
  obtain ⟨i, l, -, -, hl, -, rfl⟩ := h
  have hrun := Link.closed_declared.run (hl ▸ hk.databaseOf i.connection) i.record e
  exact (hk.setDatabase hrun).of_databases (impose_databases _ _ _)

theorem Declared.asked (hk : k.Declared) {r : RecordRef}
    {cs : List (Record.Command × Except StoreError Record.Reply)} (h : Asked r cs k k') :
    k'.Declared :=
  Chain.preserves (P := Core.Declared) (fun hc hs => hs.commands hc) h hk

theorem Declared.takenIn (hk : k.Declared) {m : MapRef} {answered : RecordRef → Prop}
    {images : List RowImage} (h : TakenIn m answered images k k') : k'.Declared := by
  induction h with
  | nil => exact hk
  | cons hm _ hc _ _ ih =>
    refine ih (Declared.asked (Declared.of_databases hk ?_) hc)
    rw [impose_databases]
    obtain ⟨map, -, ⟨-, rfl⟩ | ⟨-, -, rfl⟩⟩ := hm <;> rfl

/-- All that is ever done leaves tables in order, but changes past the records. -/
theorem Declared.does (hk : k.Declared) {e : Deed} (h : Does e k k')
    (hforeign : ∀ i, e ≠ .foreign i) : k'.Declared := by
  cases e with
  | command r c reply => exact hk.commands h
  | read m images answered =>
    obtain ⟨map, -, -, htaken⟩ := h
    exact hk.takenIn htaken
  | enrol m id isNew =>
    obtain ⟨map, -, -, rfl⟩ := h
    exact hk.of_databases rfl
  | place r parent =>
    obtain ⟨i, -, -, rfl⟩ := h
    exact hk.of_databases (impose_databases _ _ _)
  | adopt m r parent =>
    obtain ⟨map, i, l, -, -, -, hl, -, rfl⟩ := h
    have hwritten := Link.closed_declared.updateParent (hl ▸ hk.databaseOf map.connection)
      map.schema i.record.id parent
    exact (hk.setDatabase hwritten).of_databases (impose_databases _ _ _)
  | free m r =>
    obtain ⟨map, i, l, -, -, -, hl, rfl⟩ := h
    have hdismissed : (k.dismiss m r i.hub).Declared := hk.of_databases rfl
    split
    · exact hdismissed.setDatabase (Link.closed_declared.deleteRow
        (hl ▸ hk.databaseOf map.connection) map.schema i.record.id)
    · exact hdismissed
  | ground =>
    obtain ⟨n, cs, j, -, rfl⟩ := h
    intro x hx
    rcases List.mem_append.mp hx with hx | hx
    · exact hk x hx
    · rw [(List.mem_replicate.mp hx).2]
      exact Database.declared_empty
  | addMap s c h' =>
    obtain ⟨l, -, -, -, hl, -, rfl⟩ := h
    have hmade := Link.closed_declared.ensureTable (hl ▸ hk.databaseOf c) s
    exact (hk.setDatabase hmade).of_databases rfl
  | foreign i => exact absurd rfl (hforeign i)

end Core

/-! ## Runs -/

namespace Workspace

open LiveRecords.Core

variable {w w' : Workspace} {own : Prop}

/-- Whether an action is that a table comes from elsewhere. -/
def Action.declares : Action → Bool
  | .elsewhere _ _ c => c.declares
  | _ => false

/-- Statements past the records leave tables in order. -/
theorem query_declared (hw : w.core.Declared) (m : MapRef) (q : Query) :
    (query m w q).2.core.Declared := by
  have hrun : ∀ {α : Type} {f : Schema → Link → Except StoreError α × Link} {missing : α},
      (∀ s l, l.database.Declared → (f s l).2.database.Declared) →
      (w.onTable m f missing).2.core.Declared := by
    intro α f missing hf
    unfold onTable
    split
    · exact hw
    · next map _ =>
      have hlink := hw.databaseOf map.connection
      rw [core_databaseOf] at hlink
      rw [core_through]
      exact hw.setDatabase (hf _ _ hlink)
  cases q <;> rw [query, snd_answer] <;> refine hrun fun s l hl => ?_
  case ensureTable => exact Link.closed_declared.ensureTable hl s
  case insertRow id values parent => exact Link.closed_declared.insertRow hl s id values parent
  case updateField id field v => exact Link.closed_declared.updateField hl s id field v
  case updateParent id parent => exact Link.closed_declared.updateParent hl s id parent
  case deleteRow id => exact Link.closed_declared.deleteRow hl s id
  case selectWhere f => exact l.database_selectWhere s f ▸ hl
  case selectOne id => exact l.database_selectOne s id ▸ hl
  case selectKeys f offset limit => exact l.database_selectKeys s f offset limit ▸ hl

theorem elsewhere_declared (hw : Holding own w) (hd : w.core.Declared) (directory file : String)
    {c : Database.Change} (hc : c.declares = false) :
    (w.elsewhere directory file c).2.core.Declared := by
  have hidle := makeDirectory_idle directory w
  unfold elsewhere
  split
  · next hq =>
    rw [hq] at hidle
    exact hd.of_databases (congrArg Core.databases hidle.1)
  next w₁ hq =>
  rw [hq] at hidle
  have hd₁ : w₁.core.Declared := hd.of_databases (congrArg Core.databases hidle.1)
  obtain ⟨⟨⟨ds, hcourse⟩, -⟩, -⟩ := databaseAt_acts (P := fun e _ => e = .ground) (hidle.2 hw)
    (Path.join directory file) rfl
  have hd₂ : (w₁.databaseAt (Path.join directory file)).2.core.Declared :=
    Chain.preserves (P := Core.Declared)
      (fun he hk => hk.does he.2 fun i hi => by rw [he.1] at hi; cases hi) hcourse hd₁
  split
  · next hq' => rw [hq'] at hd₂; exact hd₂
  next i w₂ hq' =>
  rw [hq'] at hd₂
  intro x (hx : x ∈ w₂.databases.modify i fun d => d.apply c)
  obtain ⟨j, hj⟩ := List.mem_iff_getElem?.mp hx
  rw [List.getElem?_modify] at hj
  obtain ⟨y, hy, rfl⟩ := Option.map_eq_some_iff.mp hj
  have hmem : y.Declared := hd₂ y (List.mem_of_getElem? hy)
  split
  · exact hmem.apply hc
  · exact hmem

theorem perform_declared (hs : w.core.Sound) (hw : Holding own w) {a : Action} (ha : a.Suits own)
    (hd : w.core.Declared) (hdeclares : a.declares = false) : (w.perform a).2.core.Declared := by
  by_cases hover : ∃ i, a.Overwrites w i
  · obtain ⟨i, hover⟩ := hover
    cases a with
    | query map q =>
      rw [perform, withMap]
      split
      · exact query_declared hd _ q
      · exact hd
    | elsewhere directory file c => exact elsewhere_declared hw hd directory file hdeclares
    | _ => cases hover
  · obtain ⟨⟨ds, hc⟩, -⟩ := perform_acts hs hw ha
    refine Chain.preserves (P := Core.Declared) (fun he hk => hk.does he.2 ?_) hc hd
    rintro i rfl
    cases he.1 with
    | foreign h => exact hover ⟨i, h⟩

/-- Where nobody else declares tables, all stay in order in every run. -/
theorem declared_of_run (hb : Boots w) (hd : ∀ d ∈ w.databases, d.Declared) {actions : List Action}
    (h : (∀ a ∈ actions, a.sharesHub = false) ∨ ∀ a ∈ actions, a.steps = false)
    (hdeclares : ∀ a ∈ actions, a.declares = false) :
    (w.performAll actions).core.Declared := by
  have hfollows := (follows_of_forall (w := w) (suits_of_run h)).and (follows_of_forall hdeclares)
  have hgood := hfollows.preserves (P := fun w => w.core.Sound ∧
    Holding (∀ a ∈ actions, a.sharesHub = false) w ∧ w.core.Declared) ?_ ⟨hb.sound, hb.holding, hd⟩
  · exact hgood.2.2
  · intro w a hsuits ⟨hs, hw, hk⟩
    have hacts := perform_acts hs hw hsuits.1
    exact ⟨hacts.sound hs, hacts.2, perform_declared hs hw hsuits.1 hk hsuits.2⟩

end Workspace

end LiveRecords
