import LiveRecords.Proofs.Shelves

/-!
# Databases of record types

A database that only record types use has tables without references, whose
names differ in more than the case of letters. A table is found under its name,
and its new form takes its place and no other.
-/

namespace LiveRecords

open Table (Row)

theorem sameName_congr {a b : String} (h : sameName a b = true) (c : String) :
    sameName a c = sameName b c := by
  simp only [sameName, beq_iff_eq] at *
  rw [h]

namespace Database

/-- The tables of record types and nothing like them twice. -/
structure Plain (d : Database) : Prop where
  references : ∀ t ∈ d.tables, t.references = []
  distinct : d.tables.Pairwise fun a b => sameName a.name b.name = false

variable {d : Database} {t u : Table}

theorem plain_empty : Plain {} := ⟨fun _ ht => absurd ht List.not_mem_nil, .nil⟩

theorem ext_tables {d d' : Database} (h : d.tables = d'.tables) : d = d' := by
  cases d
  cases d'
  cases h
  rfl

theorem mem_of_table? {name : String} (h : d.table? name = some t) :
    t ∈ d.tables ∧ sameName t.name name = true :=
  ⟨List.mem_of_find?_eq_some h, by simpa using List.find?_some h⟩

theorem Plain.table?_of_mem (hd : d.Plain) (ht : t ∈ d.tables) {name : String}
    (hn : sameName t.name name = true) : d.table? name = some t := by
  obtain ⟨i, hi, rfl⟩ := List.mem_iff_getElem.mp ht
  refine List.find?_eq_some_iff_getElem.mpr ⟨hn, i, hi, rfl, fun j hj => ?_⟩
  have hne := List.pairwise_iff_getElem.mp hd.distinct j i (Nat.lt_trans hj hi) hi hj
  have hfalse : sameName d.tables[j].name name = false := by
    refine Bool.eq_false_iff.mpr fun h => ?_
    rw [sameName_trans h (by rw [sameName_comm]; exact hn)] at hne
    cases hne
  simpa using hfalse

theorem Plain.referencesTo (hd : d.Plain) (t : Table) : d.referencesTo t = [] := by
  have hnil : d.tables.flatMap (fun c =>
      (c.references.filter fun r => sameName r.parent t.name).map fun r => (c, r)) = [] := by
    rw [List.flatMap_eq_nil_iff]
    intro c hc
    rw [hd.references c hc]
    rfl
  rw [Database.referencesTo, hnil]
  rfl

theorem Plain.referencesMet (hd : d.Plain) (t : Table) (touch : Touch) :
    d.referencesMet t touch = [] := by
  rw [Database.referencesMet, hd.referencesTo]
  rfl

/-- The form that a table has after another took its new one. -/
theorem sameName_update (t u : Table) (name : String) :
    sameName (if sameName u.name t.name then t else u).name name = sameName u.name name := by
  split
  · next h => exact sameName_congr (by rw [sameName_comm]; exact h) name
  · rfl

theorem Plain.setTable (hd : d.Plain) (ht : t.references = []) : (d.setTable t).Plain where
  references := by
    intro u hu
    obtain ⟨v, hv, rfl⟩ := List.mem_map.mp hu
    split
    · exact ht
    · exact hd.references v hv
  distinct := by
    refine List.pairwise_map.mpr (hd.distinct.imp fun {a b} hab => ?_)
    rw [sameName_update, sameName_comm, sameName_update, sameName_comm]
    exact hab

theorem table?_setTable_eq_map (d : Database) (t : Table) (name : String) :
    (d.setTable t).table? name =
      (d.table? name).map fun u => if sameName u.name t.name then t else u := by
  have hp : (fun v : Table => sameName v.name name) ∘
      (fun u : Table => if sameName u.name t.name then t else u) =
        fun v => sameName v.name name := funext fun u => sameName_update t u name
  unfold table? Database.setTable
  rw [List.find?_map, hp]

theorem table?_congr (d : Database) {a b : String} (h : sameName a b = true) :
    d.table? a = d.table? b := by
  unfold table?
  congr 1
  funext t
  rw [sameName_comm, sameName_comm t.name, sameName_congr h]

/-- The new form of a table is found under its name, all others as before. -/
theorem table?_setTable (hu : d.table? t.name = some u) (name : String) :
    (d.setTable t).table? name = if sameName t.name name then some t else d.table? name := by
  rw [table?_setTable_eq_map]
  by_cases hn : sameName t.name name = true
  · rw [if_pos hn, ← d.table?_congr hn, hu, Option.map_some, if_pos (mem_of_table? hu).2]
  · rw [if_neg hn]
    cases hv : d.table? name with
    | none => rfl
    | some v =>
      have hvn : ¬sameName v.name t.name = true := fun h =>
        hn (sameName_trans (by rw [sameName_comm]; exact h) (mem_of_table? hv).2)
      rw [Option.map_some, if_neg hvn]

theorem setTable_setTable {t' : Table} (h : sameName t.name t'.name = true) :
    (d.setTable t).setTable t' = d.setTable t' := by
  have hmap : ∀ v : Table,
      (if sameName (if sameName v.name t.name then t else v).name t'.name then t'
        else if sameName v.name t.name then t else v) =
      if sameName v.name t'.name then t' else v := by
    intro v
    rw [sameName_update]
    by_cases hv : sameName v.name t'.name = true
    · rw [if_pos hv, if_pos hv]
    · have hvt : ¬sameName v.name t.name = true := fun hvt => hv (sameName_trans hvt h)
      rw [if_neg hv, if_neg hv, if_neg hvt]
  refine ext_tables ?_
  simp only [Database.setTable, List.map_map, Function.comp_def, hmap]

theorem Plain.setTable_self (hd : d.Plain) (ht : d.table? t.name = some t) :
    d.setTable t = d := by
  refine ext_tables ?_
  refine (List.map_congr_left (g := id) fun v hv => ?_).trans (List.map_id _)
  split
  · next hn =>
    rw [hd.table?_of_mem hv hn] at ht
    exact (Option.some.inj ht).symm
  · rfl

/-! ## Shelves -/

/-- The table of a record type holds these rows. -/
structure Holds (d : Database) (s : Schema) (es : List Shelved) : Prop where
  table : d.table? s.table = some (tableOf s es)
  shelf : Shelf s es

/-- The rows of a record type become others. -/
def shelve (d : Database) (s : Schema) (es : List Shelved) : Database :=
  d.setTable (tableOf s es)

variable {s : Schema} {es es' : List Shelved}

theorem Plain.shelve (hd : d.Plain) (s : Schema) (es : List Shelved) : (d.shelve s es).Plain :=
  hd.setTable rfl

theorem Holds.shelve (h : d.Holds s es) (hes : Shelf s es') : (d.shelve s es').Holds s es' where
  table := by
    have hu : d.table? (tableOf s es').name = some (tableOf s es) := h.table
    rw [Database.shelve, table?_setTable hu]
    exact if_pos (sameName_refl s.table)
  shelf := hes

theorem table?_shelve_of_ne (h : d.Holds s es) (es' : List Shelved) {name : String}
    (hn : sameName s.table name = false) : (d.shelve s es').table? name = d.table? name := by
  have hu : d.table? (tableOf s es').name = some (tableOf s es) := h.table
  have hne : ¬sameName (tableOf s es').name name = true := by
    rw [Bool.not_eq_true]
    exact hn
  rw [Database.shelve, table?_setTable hu, if_neg hne]

theorem shelve_shelve (s : Schema) (es es' : List Shelved) :
    (d.shelve s es).shelve s es' = d.shelve s es' :=
  setTable_setTable (sameName_refl _)

theorem Holds.shelve_self (h : d.Holds s es) (hd : d.Plain) : d.shelve s es = d :=
  hd.setTable_self h.table

end Database

end LiveRecords
