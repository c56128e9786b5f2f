import LiveRecords.Proofs.Alignment
import LiveRecords.Proofs.Reading
import LiveRecords.Proofs.Opening

/-!
# One connection over a run

What records of one connection have to do with the rows of its database. Which
connections and tables there will be in the end is known beforehand, since
neither ever goes away, so what must hold of the database for a table that is
not registered yet can be said from the start.
-/

namespace LiveRecords

/-! ## Rows by key -/

namespace Database

variable {d d' : Database} {s s' : Schema} {es es' : List Shelved} {id : RecordId}

/-- The row with a key, as its type reads it. -/
def image? (d : Database) (s : Schema) (id : RecordId) : Option RowImage :=
  (d.table? s.table).bind fun t => (t.row? id).bind fun r => (RowImage.ofRow s t r).toOption

theorem Holds.image? (h : d.Holds s es) (hp : s.Proper) (id : RecordId) :
    d.image? s id = stored? es id := by
  unfold Database.image?
  rw [h.table, Option.bind_some, row?_tableOf]
  cases he : shelved? es id with
  | none =>
    rw [stored?, he]
    rfl
  | some e =>
    obtain ⟨hmem, -⟩ := mem_of_shelved? he
    have hn : s.Named := h.shelf.named (List.ne_nil_of_mem hmem)
    rw [Option.map_some, Option.bind_some, ofRow_row hp hn (h.shelf.fits e hmem), stored?, he]
    rfl

/-- The rows of a type in the order of their numbers, as the type reads them. -/
def listing (d : Database) (s : Schema) : List Shelved :=
  (d.table? s.table).elim [] fun t => t.rows.filterMap fun r =>
    (RowImage.ofRow s t r).toOption.map fun x => ⟨r.number, x⟩

theorem Holds.listing (h : d.Holds s es) (hp : s.Proper) : d.listing s = es := by
  unfold Database.listing
  rw [h.table, Option.elim_some]
  show (es.map (Shelved.row s)).filterMap _ = es
  have hread : ∀ e ∈ es, (RowImage.ofRow s (tableOf s es) (e.row s)).toOption = some e.image :=
    fun e he => by
      rw [ofRow_row hp (h.shelf.named (List.ne_nil_of_mem he)) (h.shelf.fits e he)]
      rfl
  generalize tableOf s es = t at hread
  rw [List.filterMap_map]
  clear h
  induction es with
  | nil => rfl
  | cons e es ih =>
    rw [List.filterMap_cons_some (b := e), ih fun x hx => hread x (List.mem_cons_of_mem _ hx)]
    show (RowImage.ofRow s t (e.row s)).toOption.map _ = some e
    rw [hread e List.mem_cons_self]
    rfl

/-- A table holds its rows in one way. -/
theorem Holds.unique (h : d.Holds s es) (hp : s.Proper) (h' : d.Holds s es') : es = es' :=
  (h.listing hp).symm.trans (h'.listing hp)

theorem image?_shelve_of_ne (h : d.Holds s es) (es' : List Shelved)
    (hn : sameName s.table s'.table = false) (id : RecordId) :
    (d.shelve s es').image? s' id = d.image? s' id := by
  unfold Database.image?
  rw [table?_shelve_of_ne h es' hn]

theorem Edits.holds (h : d.Edits s id es d' es') (hes : d.Holds s es) : d'.Holds s es' := by
  rw [h.database]
  exact hes.shelve h.shelf

/-- Other rows of the type are read as before. -/
theorem Edits.image?_of_ne (h : d.Edits s id es d' es') (hes : d.Holds s es) (hp : s.Proper)
    {j : RecordId} (hj : j ≠ id) : d'.image? s j = d.image? s j := by
  rw [(h.holds hes).image? hp, hes.image? hp, h.others j hj]

/-- A type has no table yet, or one with rows of its own. -/
def Ready (d : Database) (s : Schema) : Prop :=
  d.table? s.table = none ∨ ∃ es, d.Holds s es

theorem ready_empty (s : Schema) : ({} : Database).Ready s := .inl rfl

theorem Holds.of_ne (h : d.Holds s es) {s₁ : Schema} {es₁ : List Shelved}
    (h₁ : d.Holds s₁ es₁) (es' : List Shelved) (hn : sameName s₁.table s.table = false) :
    (d.shelve s₁ es').Holds s es :=
  ⟨(table?_shelve_of_ne h₁ es' hn).trans h.table, h.shelf⟩

theorem Ready.of_ne (h : d.Ready s) {s₁ : Schema} {es₁ : List Shelved} (h₁ : d.Holds s₁ es₁)
    (es' : List Shelved) (hn : sameName s₁.table s.table = false) :
    (d.shelve s₁ es').Ready s := by
  obtain hnone | ⟨es, hes⟩ := h
  · exact .inl ((table?_shelve_of_ne h₁ es' hn).trans hnone)
  · exact .inr ⟨es, hes.of_ne h₁ es' hn⟩

/-- The table of another type is made. -/
theorem Holds.append (h : d.Holds s es) {s₁ : Schema} (h₁ : d.table? s₁.table = none)
    (hn : sameName s₁.table s.table = false) :
    ({ tables := d.tables ++ [tableOf s₁ []] } : Database).Holds s es := by
  refine ⟨?_, h.shelf⟩
  have hne : ¬sameName (tableOf s₁ []).name s.table = true := by
    rw [Bool.not_eq_true]
    exact hn
  rw [table?_append h₁, if_neg hne]
  exact h.table

theorem image?_append {s₁ : Schema} (h₁ : d.table? s₁.table = none)
    (hn : sameName s₁.table s.table = false) (id : RecordId) :
    ({ tables := d.tables ++ [tableOf s₁ []] } : Database).image? s id = d.image? s id := by
  have hne : ¬sameName (tableOf s₁ []).name s.table = true := by
    rw [Bool.not_eq_true]
    exact hn
  unfold Database.image?
  rw [table?_append h₁, if_neg hne]

theorem Ready.append (h : d.Ready s) {s₁ : Schema} (h₁ : d.table? s₁.table = none)
    (hn : sameName s₁.table s.table = false) :
    ({ tables := d.tables ++ [tableOf s₁ []] } : Database).Ready s := by
  have hne : ¬sameName (tableOf s₁ []).name s.table = true := by
    rw [Bool.not_eq_true]
    exact hn
  obtain hnone | ⟨es, hes⟩ := h
  · refine .inl ?_
    rw [table?_append h₁, if_neg hne]
    exact hnone
  · exact .inr ⟨es, hes.append h₁ hn⟩

theorem holds_made (h : d.table? s.table = none) :
    ({ tables := d.tables ++ [tableOf s []] } : Database).Holds s [] := by
  refine ⟨?_, shelf_nil s⟩
  rw [table?_append h]
  exact if_pos (sameName_refl s.table)

end Database

/-! ## Databases by position -/

namespace Core

variable {k k' K : Core} {c : ConnectionRef} {i : DatabaseRef}

def database (k : Core) (i : DatabaseRef) : Database := (k.databases[i]?).getD {}

theorem databaseOf_eq (h : k.connections[c]? = some i) : k.databaseOf c = k.database i := by
  rw [databaseOf, h]
  rfl

theorem database_setDatabase (h : k.connections[c]? = some i) (hi : i < k.databases.length)
    (d : Database) : (k.setDatabase c d).database i = d := by
  simp [database, setDatabase, h, hi]

theorem database_setDatabase_of_ne (h : k.connections[c]? ≠ some i) (d : Database) :
    (k.setDatabase c d).database i = k.database i := by
  unfold database setDatabase
  split
  · rfl
  · next j hj =>
    have hne : j ≠ i := fun he => h (he ▸ hj)
    rw [List.getElem?_set_ne hne]

@[simp] theorem database_impose (k : Core) (r : RecordRef) (e : Effect) :
    (k.impose r e).database i = k.database i := by
  rw [database, impose_databases, database]

theorem Grounds.database (h : k.Grounds k') : k'.database i = k.database i := by
  obtain ⟨n, cs, j, -, rfl⟩ := h
  unfold Core.database
  dsimp only
  rw [List.getElem?_append]
  by_cases hi : i < k.databases.length
  · rw [if_pos hi]
  · have hnone : k.databases[i]? = none := List.getElem?_eq_none (Nat.le_of_not_lt hi)
    rw [if_neg hi, hnone, List.getElem?_replicate]
    split <;> rfl

/-! ## What lies ahead -/

/-- The connections and identity maps of one core are found in another. -/
structure Precedes (k K : Core) : Prop where
  connections : ∀ {c : ConnectionRef} {i}, k.connections[c]? = some i →
    K.connections[c]? = some i
  shape : ∀ {m : MapRef} {b}, k.shape[m]? = some b → K.shape[m]? = some b

theorem Precedes.refl (k : Core) : k.Precedes k := ⟨id, id⟩

theorem Precedes.trans {k₁ k₂ k₃ : Core} (h₁ : k₁.Precedes k₂) (h₂ : k₂.Precedes k₃) :
    k₁.Precedes k₃ :=
  ⟨fun h => h₂.connections (h₁.connections h), fun h => h₂.shape (h₁.shape h)⟩

theorem Stays.precedes (h : Stays k k') : k.Precedes k' :=
  ⟨fun hc => h.frame.connections ▸ hc, fun hb => h.frame.shape ▸ hb⟩

theorem Stays.precedes_of (h : Stays k k') (hk : k.Precedes K) : k'.Precedes K :=
  ⟨fun hc => hk.connections (h.frame.connections ▸ hc), fun hb => hk.shape (h.frame.shape ▸ hb)⟩

theorem Precedes.map (h : k.Precedes K) {m : MapRef} {map : IdentityMap}
    (hm : k.maps[m]? = some map) : ∃ map', K.maps[m]? = some map' ∧ map.Alike map' := by
  obtain ⟨map', hm', hlike⟩ := map_of_bare (h.shape (shape_of_map hm))
  exact ⟨map', hm', hlike.schema.symm, hlike.connection.symm, hlike.hub.symm⟩

theorem Does.precedes {d : Deed} (h : Does d k k') : k.Precedes k' := by
  cases hd : d.isGentle with
  | true => exact (h.stays hd).precedes
  | false =>
    cases d with
    | free m r =>
      obtain ⟨map, x, l, -, -, -, -, rfl⟩ := h
      have hshape : (k.dismiss m r x.hub).shape = k.shape := shape_setMap k m fun _ => rfl
      split
      · exact ⟨fun hc => by simpa [dismiss, unregister, setMap] using hc, fun hb => by
          rw [shape_of_maps (setDatabase_maps _ _ _), hshape]
          exact hb⟩
      · exact ⟨fun hc => hc, fun hb => hshape ▸ hb⟩
    | ground =>
      refine ⟨fun {c i} hc => ?_, (Grounds.grows h).shape⟩
      obtain ⟨n, cs, j, -, rfl⟩ := h
      exact (List.getElem?_append_left (List.getElem?_eq_some_iff.mp hc).1).trans hc
    | addMap s c h =>
      obtain ⟨l, -, -, -, -, -, rfl⟩ := h
      refine ⟨fun hc => (setDatabase_connections k c _).symm ▸ hc, fun hb => ?_⟩
      refine (grows_addMap _ s c h).shape ?_
      rw [shape_of_maps (setDatabase_maps _ _ _)]
      exact hb
    | _ => cases hd

theorem Course.precedes {allowed : Deed → Core → Prop} {ds : List Deed}
    (h : Course allowed ds k k') : k.Precedes k' :=
  Chain.preserves (P := fun j => k.Precedes j) (fun hd hj => hj.trans hd.2.precedes) h (.refl k)

/-- What each deed before a core preserves, a course up to it preserves. -/
theorem Course.preserves_within {allowed : Deed → Core → Prop} {P : Core → Prop} {ds : List Deed}
    (hP : ∀ {d j j'}, allowed d j → Does d j j' → j'.Precedes K → P j → P j')
    (h : Course allowed ds k k') (hK : k'.Precedes K) (hk : P k) : P k' := by
  induction h with
  | nil _ => exact hk
  | cons hd hrest ih => exact ih hK (hP hd.1 hd.2 ((Course.precedes hrest).trans hK) hk)

end Core

end LiveRecords
