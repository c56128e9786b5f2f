import LiveRecords.Proofs.Notices
import LiveRecords.Workspace.Action

/-!
# The core of a workspace

What operations work on once listeners, reports, statistics and names are left
out: databases, the connections to them, coordinators, the records in memory
and the identity maps. Every operation is followed on the core, where it is a
short list of changes.
-/

namespace LiveRecords

/-- A record in memory, with the connection and the coordinator it works with. -/
structure Resident where
  record : Record
  connection : ConnectionRef
  hub : HubRef

@[ext] structure Core where
  databases : List Database
  connections : List DatabaseRef
  coordinators : List Coordinator
  records : List Resident
  maps : List IdentityMap

def Instance.resident (i : Instance) : Resident := ⟨i.record, i.connection, i.hub⟩

namespace Core

/-! ## Parts -/

def databaseOf (k : Core) (c : ConnectionRef) : Database :=
  ((k.connections[c]?).bind fun d => k.databases[d]?).getD {}

def coordinatorOf (k : Core) (h : HubRef) : Coordinator := (k.coordinators[h]?).getD {}

/-- The database behind a connection becomes another. -/
def setDatabase (k : Core) (c : ConnectionRef) (d : Database) : Core :=
  match k.connections[c]? with
  | none => k
  | some i => { k with databases := k.databases.set i d }

def tell (k : Core) (h : HubRef) (f : Coordinator → Coordinator) : Core :=
  { k with coordinators := k.coordinators.modify h f }

def setRecord (k : Core) (r : RecordRef) (x : Record) : Core :=
  { k with records := k.records.modify r fun i => { i with record := x } }

/-- Carries out what an operation did to a record, before anybody hears of it. -/
def impose (k : Core) (r : RecordRef) (e : Effect) : Core :=
  match k.records[r]? with
  | none => k
  | some i => (k.setRecord r e.record).tell i.hub (Notice.told e.notices r)

def setMap (k : Core) (m : MapRef) (f : IdentityMap → IdentityMap) : Core :=
  { k with maps := k.maps.modify m f }

/-- Makes a record with initial values and registers it. -/
def enrol (k : Core) (m : MapRef) (map : IdentityMap) (id : RecordId) (isNew : Bool) : Core :=
  { k with
    records := k.records ++ [⟨.initial id map.schema isNew, map.connection, map.hub⟩]
    maps := k.maps.modify m fun map =>
      { map with registered := map.registered ++ [(id, k.records.length)] } }

def unregister (k : Core) (m : MapRef) (rs : List RecordRef) : Core :=
  k.setMap m fun map => { map with registered := map.registered.filter fun e => !rs.contains e.2 }

/-- A record is registered in an identity map under a key. -/
def Lists (k : Core) (m : MapRef) (id : RecordId) (r : RecordRef) : Prop :=
  ∃ map, k.maps[m]? = some map ∧ (id, r) ∈ map.registered

/-- A record is registered somewhere. -/
def Listed (k : Core) (r : RecordRef) : Prop := ∃ m id, k.Lists m id r

theorem Lists.of_maps {k k' : Core} (hm : k'.maps = k.maps) {m : MapRef} {id : RecordId}
    {r : RecordRef} (h : k.Lists m id r) : k'.Lists m id r := by
  unfold Lists
  rwa [hm]

theorem Listed.of_maps {k k' : Core} (hm : k'.maps = k.maps) {r : RecordRef} (h : k.Listed r) :
    k'.Listed r := by
  obtain ⟨m, id, h⟩ := h
  exact ⟨m, id, h.of_maps hm⟩

theorem maps_setMap {k : Core} {m : MapRef} {f : IdentityMap → IdentityMap} {m' : MapRef}
    {map : IdentityMap} (h : (k.setMap m f).maps[m']? = some map) :
    ∃ old, k.maps[m']? = some old ∧ map = if m' = m then f old else old := by
  simp only [setMap, List.getElem?_modify] at h
  cases hold : k.maps[m']? with
  | none => rw [hold] at h; simp at h
  | some old =>
    rw [hold] at h
    refine ⟨old, rfl, ?_⟩
    by_cases hm : m = m'
    · simpa [hm, eq_comm] using h
    · simpa [hm, Ne.symm hm, eq_comm] using h

/-- Where the entries of one identity map become others. -/
theorem lists_setMap {k : Core} {m : MapRef} {f : IdentityMap → IdentityMap} {m' : MapRef}
    {id : RecordId} {r : RecordRef} :
    (k.setMap m f).Lists m' id r ↔
      ∃ map, k.maps[m']? = some map ∧
        (id, r) ∈ (if m' = m then f map else map).registered := by
  simp only [Lists, setMap, List.getElem?_modify]
  cases k.maps[m']? with
  | none => simp
  | some map =>
    by_cases hm : m = m'
    · simp [hm]
    · simp [hm, Ne.symm hm]

theorem lists_enrol {k : Core} {m : MapRef} {map : IdentityMap} (hm : k.maps[m]? = some map)
    {id : RecordId} {isNew : Bool} {m' : MapRef} {id' : RecordId} {r : RecordRef} :
    (k.enrol m map id isNew).Lists m' id' r ↔
      k.Lists m' id' r ∨ m' = m ∧ id' = id ∧ r = k.records.length := by
  refine (lists_setMap (k := k) (f := fun map =>
    { map with registered := map.registered ++ [(id, k.records.length)] })).trans ?_
  by_cases hmm : m' = m
  · subst hmm; simp [Lists, hm]
  · simp [Lists, hmm]

theorem records_enrol_of_lt (k : Core) (m : MapRef) (map : IdentityMap) (id : RecordId)
    (isNew : Bool) {r : RecordRef} (h : r < k.records.length) :
    (k.enrol m map id isNew).records[r]? = k.records[r]? := by
  simp [enrol, List.getElem?_append, h]

theorem records_enrol_self (k : Core) (m : MapRef) (map : IdentityMap) (id : RecordId)
    (isNew : Bool) :
    (k.enrol m map id isNew).records[k.records.length]? =
      some ⟨.initial id map.schema isNew, map.connection, map.hub⟩ := by
  simp [enrol]

theorem lists_unregister {k : Core} {m : MapRef} {rs : List RecordRef} {m' : MapRef}
    {id : RecordId} {r : RecordRef} :
    (k.unregister m rs).Lists m' id r ↔ k.Lists m' id r ∧ (m' = m → r ∉ rs) := by
  refine lists_setMap.trans ?_
  by_cases hmm : m' = m
  · subst hmm
    simp only [if_true, List.mem_filter, Lists, forall_const]
    constructor
    · rintro ⟨map, hmap, hmem, hr⟩
      exact ⟨⟨map, hmap, hmem⟩, by simpa using hr⟩
    · rintro ⟨⟨map, hmap, hmem⟩, hr⟩
      exact ⟨map, hmap, hmem, by simpa using hr⟩
  · simp [Lists, hmm]

@[simp] theorem tell_databases (k : Core) (h : HubRef) (f : Coordinator → Coordinator) :
    (k.tell h f).databases = k.databases := rfl

@[simp] theorem tell_connections (k : Core) (h : HubRef) (f : Coordinator → Coordinator) :
    (k.tell h f).connections = k.connections := rfl

@[simp] theorem tell_records (k : Core) (h : HubRef) (f : Coordinator → Coordinator) :
    (k.tell h f).records = k.records := rfl

@[simp] theorem tell_maps (k : Core) (h : HubRef) (f : Coordinator → Coordinator) :
    (k.tell h f).maps = k.maps := rfl

theorem coordinatorOf_tell {k : Core} {h : HubRef} (hlt : h < k.coordinators.length)
    (f : Coordinator → Coordinator) (j : HubRef) :
    (k.tell h f).coordinatorOf j = if j = h then f (k.coordinatorOf h) else k.coordinatorOf j := by
  simp only [coordinatorOf, tell, List.getElem?_modify]
  by_cases hj : h = j
  · subst hj; simp [hlt]
  · simp [hj, Ne.symm hj]

theorem records_setRecord (k : Core) (r : RecordRef) (x : Record) (j : RecordRef) :
    (k.setRecord r x).records[j]? =
      if j = r then (k.records[r]?).map fun i => { i with record := x } else k.records[j]? := by
  simp only [setRecord, List.getElem?_modify]
  by_cases hj : r = j
  · subst hj; cases k.records[r]? <;> simp
  · cases k.records[j]? <;> simp [hj, Ne.symm hj]

@[simp] theorem setDatabase_connections (k : Core) (c : ConnectionRef) (d : Database) :
    (k.setDatabase c d).connections = k.connections := by
  unfold setDatabase
  split <;> rfl

@[simp] theorem length_databases_setDatabase (k : Core) (c : ConnectionRef) (d : Database) :
    (k.setDatabase c d).databases.length = k.databases.length := by
  unfold setDatabase
  split <;> simp

@[simp] theorem setDatabase_coordinators (k : Core) (c : ConnectionRef) (d : Database) :
    (k.setDatabase c d).coordinators = k.coordinators := by
  unfold setDatabase
  split <;> rfl

@[simp] theorem setDatabase_records (k : Core) (c : ConnectionRef) (d : Database) :
    (k.setDatabase c d).records = k.records := by
  unfold setDatabase
  split <;> rfl

@[simp] theorem setDatabase_maps (k : Core) (c : ConnectionRef) (d : Database) :
    (k.setDatabase c d).maps = k.maps := by
  unfold setDatabase
  split <;> rfl

theorem setDatabase_databaseOf (k : Core) (c : ConnectionRef) :
    k.setDatabase c (k.databaseOf c) = k := by
  unfold setDatabase databaseOf
  cases hc : k.connections[c]? with
  | none => rfl
  | some i =>
    simp only [Option.bind_some]
    cases hd : k.databases[i]? with
    | none => rw [List.set_eq_of_length_le (by simpa using hd)]
    | some d =>
      obtain ⟨hi, rfl⟩ := List.getElem?_eq_some_iff.mp hd
      simp

theorem impose_of_some {k : Core} {r : RecordRef} {i : Resident} (hr : k.records[r]? = some i)
    (e : Effect) :
    k.impose r e = (k.setRecord r e.record).tell i.hub (Notice.told e.notices r) := by
  simp [impose, hr]

theorem records_impose_self {k : Core} {r : RecordRef} {i : Resident} (hr : k.records[r]? = some i)
    (e : Effect) : (k.impose r e).records[r]? = some { i with record := e.record } := by
  rw [impose_of_some hr, tell_records, records_setRecord, if_pos rfl, hr]
  rfl

theorem records_impose_of_ne (k : Core) {r j : RecordRef} (hj : j ≠ r) (e : Effect) :
    (k.impose r e).records[j]? = k.records[j]? := by
  unfold impose
  split
  · rfl
  · rw [tell_records, records_setRecord, if_neg hj]

@[simp] theorem length_records_impose (k : Core) (r : RecordRef) (e : Effect) :
    (k.impose r e).records.length = k.records.length := by
  unfold impose
  split <;> simp [setRecord]

@[simp] theorem length_coordinators_impose (k : Core) (r : RecordRef) (e : Effect) :
    (k.impose r e).coordinators.length = k.coordinators.length := by
  unfold impose
  split <;> simp [setRecord, tell]

@[simp] theorem impose_databases (k : Core) (r : RecordRef) (e : Effect) :
    (k.impose r e).databases = k.databases := by
  unfold impose
  split <;> rfl

@[simp] theorem impose_connections (k : Core) (r : RecordRef) (e : Effect) :
    (k.impose r e).connections = k.connections := by
  unfold impose
  split <;> rfl

@[simp] theorem impose_maps (k : Core) (r : RecordRef) (e : Effect) :
    (k.impose r e).maps = k.maps := by
  unfold impose
  split <;> rfl

end Core

/-! ## Lists by name -/

theorem mem_of_lookup {α β : Type} [BEq α] [LawfulBEq α] {a : α} {b : β} {l : List (α × β)}
    (h : l.lookup a = some b) : (a, b) ∈ l := by
  obtain ⟨l₁, l₂, rfl, -⟩ := List.lookup_eq_some_iff.mp h
  simp

theorem lookup_of_mem {α β : Type} [BEq α] [LawfulBEq α] {a : α} {b : β} {l : List (α × β)}
    (hn : (l.map (·.1)).Nodup) (h : (a, b) ∈ l) : l.lookup a = some b := by
  obtain ⟨l₁, l₂, rfl⟩ := List.append_of_mem h
  refine List.lookup_eq_some_iff.mpr ⟨l₁, l₂, rfl, ?_⟩
  intro e he
  rw [List.map_append, List.nodup_append] at hn
  have hne : e.1 ≠ a := hn.2.2 e.1 (List.mem_map_of_mem he) a (by simp)
  simpa using fun ha : a = e.1 => hne ha.symm

end LiveRecords
