import LiveRecords.Proofs.Deeds

/-!
# Soundness of the core

What holds of the core of every workspace, whoever writes to the databases and
whatever fails: references lead somewhere, a registered record is of the type
and on the connection of its identity map, a key has one record, and a
coordinator has as many entries of a registered record as the record has change
sets, and no others.
-/

namespace LiveRecords

/-- A record in memory is what an identity map holds under a key. -/
structure Resident.Of (i : Resident) (map : IdentityMap) (id : RecordId) : Prop where
  id : i.record.id = id
  schema : i.record.schema = map.schema
  connection : i.connection = map.connection
  hub : i.hub = map.hub

/-- An identity map is on a connection and a coordinator that exist. -/
structure IdentityMap.Placed (map : IdentityMap) (k : Core) : Prop where
  connection : map.connection < k.connections.length
  hub : map.hub < k.coordinators.length
  schema : ∃ d : Draft, d.build = .ok map.schema

/-- Two identity maps differ in what is registered at most. -/
structure IdentityMap.Alike (a b : IdentityMap) : Prop where
  schema : a.schema = b.schema
  connection : a.connection = b.connection
  hub : a.hub = b.hub

theorem IdentityMap.Placed.alike {a b : IdentityMap} {k : Core} (h : b.Placed k)
    (hab : a.Alike b) : a.Placed k :=
  ⟨hab.connection ▸ h.connection, hab.hub ▸ h.hub, hab.schema ▸ h.schema⟩

theorem Resident.Of.alike {i : Resident} {a b : IdentityMap} {id : RecordId} (h : i.Of b id)
    (hab : a.Alike b) : i.Of a id :=
  ⟨h.id, h.schema.trans hab.schema.symm, h.connection.trans hab.connection.symm,
    h.hub.trans hab.hub.symm⟩

namespace Core

structure Sound (k : Core) : Prop where
  grounded : ∀ {c : ConnectionRef} {d}, k.connections[c]? = some d → d < k.databases.length
  placed : ∀ {m : MapRef} {map}, k.maps[m]? = some map → map.Placed k
  keys : ∀ {m : MapRef} {map}, k.maps[m]? = some map → (map.registered.map (·.1)).Nodup
  kept : ∀ {m : MapRef} {map id r}, k.maps[m]? = some map → (id, r) ∈ map.registered →
    ∃ i, k.records[r]? = some i ∧ i.Of map id
  once : ∀ {m m' id id' r}, k.Lists m id r → k.Lists m' id' r → m = m'
  counted : ∀ {r : RecordRef} {i}, k.records[r]? = some i → k.Listed r →
    i.record.Counted r (k.coordinatorOf i.hub)
  named : ∀ {h t r}, r ∈ (k.coordinatorOf h).entries t →
    k.Listed r ∧ ∃ i, k.records[r]? = some i ∧ i.hub = h

theorem sound_empty : Sound {
    databases := [], connections := [], coordinators := [], records := [], maps := [] } where
  grounded h := by simp at h
  placed h := by simp at h
  keys h := by simp at h
  kept h := by simp at h
  once h := by simp [Lists] at h
  counted h := by simp at h
  named {h t r} hr := by
    have he : (coordinatorOf ⟨[], [], [], [], []⟩ h).entries t = [] := by
      cases t <;> simp [coordinatorOf, Coordinator.entries]
    simp [he] at hr

variable {k : Core}

/-- A registered record is in memory, and its coordinator exists. -/
theorem Sound.resident (hs : k.Sound) {r : RecordRef} (hl : k.Listed r) :
    ∃ i, k.records[r]? = some i ∧ i.hub < k.coordinators.length := by
  obtain ⟨m, id, map, hm, hmem⟩ := hl
  obtain ⟨i, hr, hi⟩ := hs.kept hm hmem
  exact ⟨i, hr, hi.hub ▸ (hs.placed hm).hub⟩

theorem Sound.hub_lt (hs : k.Sound) {r : RecordRef} {i : Resident} (hl : k.Listed r)
    (hr : k.records[r]? = some i) : i.hub < k.coordinators.length := by
  obtain ⟨j, hj, hlt⟩ := hs.resident hl
  rw [hr] at hj
  cases hj
  exact hlt

/-- A key is registered with the record that is looked up for it. -/
theorem Sound.lookup (hs : k.Sound) {m : MapRef} {map : IdentityMap} {id : RecordId}
    {r : RecordRef} (hm : k.maps[m]? = some map) (h : (id, r) ∈ map.registered) :
    map.registered.lookup id = some r :=
  lookup_of_mem (hs.keys hm) h

/-! ## Changes of databases -/

/-- Soundness does not depend on what databases hold. -/
theorem Sound.of_databases (hs : k.Sound) {ds : List Database}
    (hl : k.databases.length ≤ ds.length) : Sound { k with databases := ds } where
  grounded h := Nat.lt_of_lt_of_le (hs.grounded h) hl
  placed h := ⟨(hs.placed h).connection, (hs.placed h).hub, (hs.placed h).schema⟩
  keys := hs.keys
  kept := hs.kept
  once := hs.once
  counted := hs.counted
  named := hs.named

theorem Sound.setDatabase (hs : k.Sound) (c : ConnectionRef) (d : Database) :
    (k.setDatabase c d).Sound := by
  unfold Core.setDatabase
  split
  · exact hs
  · exact hs.of_databases (by simp)

theorem Sound.grounds (hs : k.Sound) {k' : Core} (h : k.Grounds k') : k'.Sound := by
  obtain ⟨n, cs, j, hcs, rfl⟩ := h
  have hc : ∀ h, coordinatorOf { k with
      databases := k.databases ++ List.replicate n {}, connections := k.connections ++ cs,
      coordinators := k.coordinators ++ List.replicate j {} } h = k.coordinatorOf h := by
    intro h
    simp only [coordinatorOf, List.getElem?_append]
    by_cases hlt : h < k.coordinators.length
    · simp [hlt]
    · have hn : k.coordinators[h]? = none := List.getElem?_eq_none (Nat.le_of_not_lt hlt)
      rw [if_neg hlt, hn, List.getElem?_replicate]
      split <;> rfl
  refine ⟨?_, ?_, hs.keys, hs.kept, hs.once, ?_, ?_⟩
  · intro c d h
    rw [List.getElem?_append] at h
    rw [List.length_append, List.length_replicate]
    by_cases hlt : c < k.connections.length
    · rw [if_pos hlt] at h
      exact Nat.lt_of_lt_of_le (hs.grounded h) (Nat.le_add_right _ _)
    · rw [if_neg hlt] at h
      exact hcs d (List.mem_of_getElem? h)
  · intro m map h
    have hp := hs.placed h
    refine ⟨?_, ?_, hp.schema⟩
    · simpa using Nat.lt_of_lt_of_le hp.connection (Nat.le_add_right _ _)
    · simpa using Nat.lt_of_lt_of_le hp.hub (Nat.le_add_right _ _)
  · intro r i hr hl
    rw [hc]
    exact hs.counted hr hl
  · intro h t r hr
    rw [hc] at hr
    exact hs.named hr

/-! ## Changes of records -/

theorem coordinatorOf_impose (hs : k.Sound) {r : RecordRef} {i : Resident}
    (hr : k.records[r]? = some i) (hl : k.Listed r) (e : Effect) (h : HubRef) :
    (k.impose r e).coordinatorOf h =
      if h = i.hub then Notice.told e.notices r (k.coordinatorOf h) else k.coordinatorOf h := by
  rw [impose_of_some hr]
  refine (coordinatorOf_tell (hs.hub_lt hl hr) _ h).trans ?_
  by_cases hh : h = i.hub
  · rw [if_pos hh, if_pos hh, hh]
  · rw [if_neg hh, if_neg hh]

/-- An operation that tells what it does to the stacks keeps the core sound. -/
theorem Sound.impose (hs : k.Sound) {r : RecordRef} {i : Resident} {e : Effect}
    (hr : k.records[r]? = some i) (hl : k.Listed r) (hb : i.record.Balanced e)
    (hi : i.record.Remains e.record) : (k.impose r e).Sound := by
  have hmaps : (k.impose r e).maps = k.maps := impose_maps k r e
  refine ⟨?_, ?_, ?_, ?_, ?_, ?_, ?_⟩
  · intro c d h
    rw [impose_connections] at h
    rw [impose_databases]
    exact hs.grounded h
  · intro m map h
    rw [hmaps] at h
    have hp := hs.placed h
    exact ⟨by simpa using hp.connection, by simpa using hp.hub, hp.schema⟩
  · intro m map h
    rw [hmaps] at h
    exact hs.keys h
  · intro m map id j h hmem
    rw [hmaps] at h
    obtain ⟨x, hx, hof⟩ := hs.kept h hmem
    by_cases hj : j = r
    · subst hj
      rw [hr] at hx
      cases hx
      exact ⟨_, records_impose_self hr e,
        hi.1.trans hof.id, hi.2.trans hof.schema, hof.connection, hof.hub⟩
    · exact ⟨x, by rw [records_impose_of_ne k hj, hx], hof⟩
  · intro m m' id id' j h h'
    exact hs.once (h.of_maps hmaps.symm) (h'.of_maps hmaps.symm)
  · intro j x hx hlj
    replace hlj : k.Listed j := hlj.of_maps hmaps.symm
    rw [coordinatorOf_impose hs hr hl]
    by_cases hj : j = r
    · subst hj
      rw [records_impose_self hr] at hx
      cases hx
      rw [if_pos rfl]
      exact hb _ _ (hs.counted hr hl)
    · rw [records_impose_of_ne k hj] at hx
      intro t
      have hc := hs.counted hx hlj t
      split
      · rw [Notice.count_told_of_ne e.notices hj]; exact hc
      · exact hc
  · intro h t j hj
    rw [coordinatorOf_impose hs hr hl] at hj
    have hold : j ∈ (k.coordinatorOf h).entries t ∨ j = r ∧ h = i.hub := by
      split at hj
      · next hh =>
        rcases Notice.mem_told hj with rfl | hj
        · exact .inr ⟨rfl, hh⟩
        · exact .inl hj
      · exact .inl hj
    rcases hold with hj | ⟨rfl, rfl⟩
    · obtain ⟨hlj, x, hx, hxh⟩ := hs.named hj
      refine ⟨hlj.of_maps hmaps, ?_⟩
      by_cases hjr : j = r
      · subst hjr
        rw [hr] at hx
        cases hx
        exact ⟨_, records_impose_self hr e, hxh⟩
      · exact ⟨x, by rw [records_impose_of_ne k hjr, hx], hxh⟩
    · exact ⟨hl.of_maps hmaps, _, records_impose_self hr e, rfl⟩

/-! ## Changes of identity maps -/

theorem lt_of_record {r : RecordRef} {i : Resident} (h : k.records[r]? = some i) :
    r < k.records.length :=
  (List.getElem?_eq_some_iff.mp h).1

/-- No identity map has a record that is not made yet. -/
theorem Sound.not_lists_new (hs : k.Sound) {m : MapRef} {id : RecordId} :
    ¬ k.Lists m id k.records.length := by
  rintro ⟨map, hm, hmem⟩
  obtain ⟨i, hi, -⟩ := hs.kept hm hmem
  exact Nat.lt_irrefl _ (lt_of_record hi)

/-- No coordinator has an entry of a record that is not made yet. -/
theorem Sound.counted_new (hs : k.Sound) (id : RecordId) (s : Schema) (isNew : Bool)
    (h : HubRef) :
    (Record.initial id s isNew).Counted k.records.length (k.coordinatorOf h) := by
  intro t
  have hz : Record.depth (.initial id s isNew) t = 0 := by cases t <;> rfl
  rw [hz, List.count_eq_zero]
  intro hmem
  obtain ⟨-, i, hi, -⟩ := hs.named hmem
  exact Nat.lt_irrefl _ (lt_of_record hi)

theorem maps_enrol {m : MapRef} {map : IdentityMap} {id : RecordId} {isNew : Bool} {m' : MapRef}
    {map' : IdentityMap} (h : (k.enrol m map id isNew).maps[m']? = some map') :
    ∃ old, k.maps[m']? = some old ∧ map'.Alike old ∧
      (map'.registered = old.registered ∨
        m' = m ∧ map'.registered = old.registered ++ [(id, k.records.length)]) := by
  obtain ⟨old, hold, rfl⟩ := maps_setMap (k := k) h
  refine ⟨old, hold, ?_⟩
  split
  · next hm => exact ⟨⟨rfl, rfl, rfl⟩, .inr ⟨hm, rfl⟩⟩
  · exact ⟨⟨rfl, rfl, rfl⟩, .inl rfl⟩

theorem Sound.keys_enrol (hs : k.Sound) {m : MapRef} {map : IdentityMap} {id : RecordId}
    {isNew : Bool} (hm : k.maps[m]? = some map) (hid : map.registered.lookup id = none)
    {m' : MapRef} {map' : IdentityMap} (h : (k.enrol m map id isNew).maps[m']? = some map') :
    (map'.registered.map (·.1)).Nodup := by
  obtain ⟨old, hold, -, hreg | ⟨rfl, hreg⟩⟩ := maps_enrol h
  · rw [hreg]; exact hs.keys hold
  · rw [hm] at hold
    cases hold
    rw [hreg, List.map_append, List.nodup_append]
    refine ⟨hs.keys hm, by simp, ?_⟩
    intro a ha b hb
    obtain ⟨e, he, rfl⟩ := List.mem_map.mp ha
    rw [List.mem_singleton.mp hb]
    have hne := List.lookup_eq_none_iff.mp hid e he
    rintro rfl
    simp at hne

theorem Sound.kept_enrol (hs : k.Sound) {m : MapRef} {map : IdentityMap} {id : RecordId}
    {isNew : Bool} (hm : k.maps[m]? = some map) {m' : MapRef} {map' : IdentityMap}
    {id' : RecordId} {r : RecordRef} (h : (k.enrol m map id isNew).maps[m']? = some map')
    (hmem : (id', r) ∈ map'.registered) :
    ∃ i, (k.enrol m map id isNew).records[r]? = some i ∧ i.Of map' id' := by
  obtain ⟨old, hold, hlike, hreg⟩ := maps_enrol h
  have hin : (id', r) ∈ old.registered ∨ m' = m ∧ (id', r) = (id, k.records.length) := by
    rcases hreg with hreg | ⟨hmm, hreg⟩
    · exact .inl (hreg ▸ hmem)
    · rw [hreg, List.mem_append, List.mem_singleton] at hmem
      exact hmem.imp_right fun he => ⟨hmm, he⟩
  rcases hin with hin | ⟨rfl, he⟩
  · obtain ⟨i, hi, hof⟩ := hs.kept hold hin
    exact ⟨i, by rw [records_enrol_of_lt k m map id isNew (lt_of_record hi), hi], hof.alike hlike⟩
  · cases he
    rw [hm] at hold
    cases hold
    exact ⟨_, records_enrol_self k m' map id isNew, Resident.Of.alike ⟨rfl, rfl, rfl, rfl⟩ hlike⟩

theorem Sound.once_enrol (hs : k.Sound) {m : MapRef} {map : IdentityMap} {id : RecordId}
    {isNew : Bool} (hm : k.maps[m]? = some map) {m₁ m₂ : MapRef} {id₁ id₂ : RecordId}
    {r : RecordRef} (h₁ : (k.enrol m map id isNew).Lists m₁ id₁ r)
    (h₂ : (k.enrol m map id isNew).Lists m₂ id₂ r) : m₁ = m₂ := by
  rcases (lists_enrol hm).mp h₁ with hl₁ | ⟨rfl, -, rfl⟩
  · rcases (lists_enrol hm).mp h₂ with hl₂ | ⟨rfl, -, rfl⟩
    · exact hs.once hl₁ hl₂
    · exact absurd hl₁ hs.not_lists_new
  · rcases (lists_enrol hm).mp h₂ with hl₂ | ⟨rfl, -, -⟩
    · exact absurd hl₂ hs.not_lists_new
    · rfl

/-- A new record has no change sets, and no coordinator knows of it. -/
theorem Sound.enrol (hs : k.Sound) {m : MapRef} {map : IdentityMap} {id : RecordId}
    {isNew : Bool} (hm : k.maps[m]? = some map) (hid : map.registered.lookup id = none) :
    (k.enrol m map id isNew).Sound := by
  refine ⟨hs.grounded, ?_, hs.keys_enrol hm hid, hs.kept_enrol hm, hs.once_enrol hm, ?_, ?_⟩
  · intro m' map' h
    obtain ⟨old, hold, hlike, -⟩ := maps_enrol h
    have hp := hs.placed hold
    exact IdentityMap.Placed.alike ⟨hp.connection, hp.hub, hp.schema⟩ hlike
  · rintro r i hr ⟨m', id', hl⟩
    rcases (lists_enrol hm).mp hl with hl | ⟨-, -, rfl⟩
    · obtain ⟨map', hm', hmem⟩ := hl
      obtain ⟨x, hx, -⟩ := hs.kept hm' hmem
      rw [records_enrol_of_lt k m map id isNew (lt_of_record hx)] at hr
      exact hs.counted hr ⟨m', id', map', hm', hmem⟩
    · rw [records_enrol_self] at hr
      cases hr
      exact hs.counted_new id map.schema isNew map.hub
  · intro h t r hr
    obtain ⟨⟨m', id', hl⟩, i, hi, hih⟩ := hs.named (k := k) hr
    refine ⟨⟨m', id', (lists_enrol hm).mpr (.inl hl)⟩, i, ?_, hih⟩
    rw [records_enrol_of_lt k m map id isNew (lt_of_record hi), hi]

theorem maps_dismiss {m : MapRef} {r : RecordRef} {h : HubRef} {m' : MapRef}
    {map' : IdentityMap} (hm : (k.dismiss m r h).maps[m']? = some map') :
    ∃ old, k.maps[m']? = some old ∧ map'.Alike old ∧
      map'.registered.Sublist old.registered := by
  obtain ⟨old, hold, rfl⟩ := maps_setMap (k := k) hm
  refine ⟨old, hold, ?_⟩
  split
  · exact ⟨⟨rfl, rfl, rfl⟩, List.filter_sublist⟩
  · exact ⟨⟨rfl, rfl, rfl⟩, .refl _⟩

theorem lists_dismiss {m : MapRef} {r : RecordRef} {h : HubRef} {m' : MapRef} {id : RecordId}
    {j : RecordRef} : (k.dismiss m r h).Lists m' id j ↔ k.Lists m' id j ∧ (m' = m → j ≠ r) := by
  refine (lists_unregister (k := k)).trans ?_
  simp

/-- A record that left its identity map is registered no more. -/
theorem Sound.listed_dismiss (hs : k.Sound) {m : MapRef} {r : RecordRef} {h : HubRef}
    (hl : ∃ id, k.Lists m id r) {j : RecordRef} :
    (k.dismiss m r h).Listed j ↔ k.Listed j ∧ j ≠ r := by
  obtain ⟨id, hid⟩ := hl
  constructor
  · rintro ⟨m', id', hd⟩
    obtain ⟨hj, hm⟩ := lists_dismiss.mp hd
    refine ⟨⟨m', id', hj⟩, ?_⟩
    rintro rfl
    exact hm (hs.once hj hid) rfl
  · rintro ⟨⟨m', id', hj⟩, hne⟩
    exact ⟨m', id', lists_dismiss.mpr ⟨hj, fun _ => hne⟩⟩

theorem Sound.coordinatorOf_dismiss (hs : k.Sound) {m : MapRef} {r : RecordRef} {i : Resident}
    (hr : k.records[r]? = some i) (hl : k.Listed r) (h : HubRef) :
    (k.dismiss m r i.hub).coordinatorOf h =
      if h = i.hub then ((k.coordinatorOf h).forget r).1 else k.coordinatorOf h := by
  refine (coordinatorOf_tell (k := k.unregister m [r]) (hs.hub_lt hl hr) _ h).trans ?_
  by_cases hh : h = i.hub
  · rw [if_pos hh, if_pos hh, hh]; rfl
  · rw [if_neg hh, if_neg hh]; rfl

/-- A record that leaves its identity map takes its entries along. -/
theorem Sound.dismiss (hs : k.Sound) {m : MapRef} {r : RecordRef} {i : Resident}
    (hr : k.records[r]? = some i) (hl : ∃ id, k.Lists m id r) :
    (k.dismiss m r i.hub).Sound := by
  have hlr : k.Listed r := ⟨m, hl⟩
  refine ⟨hs.grounded, ?_, ?_, ?_, ?_, ?_, ?_⟩
  · intro m' map' h
    obtain ⟨old, hold, hlike, -⟩ := maps_dismiss h
    have hp := hs.placed hold
    exact IdentityMap.Placed.alike
      ⟨hp.connection, by simpa [Core.dismiss, tell, unregister, setMap] using hp.hub, hp.schema⟩
      hlike
  · intro m' map' h
    obtain ⟨old, hold, -, hsub⟩ := maps_dismiss h
    exact (hs.keys hold).sublist (hsub.map _)
  · intro m' map' id j h hmem
    obtain ⟨old, hold, hlike, hsub⟩ := maps_dismiss h
    obtain ⟨x, hx, hof⟩ := hs.kept hold (hsub.subset hmem)
    exact ⟨x, hx, hof.alike hlike⟩
  · intro m₁ m₂ id₁ id₂ j h₁ h₂
    exact hs.once (lists_dismiss.mp h₁).1 (lists_dismiss.mp h₂).1
  · intro j x hx hlj t
    obtain ⟨hlj, hne⟩ := (hs.listed_dismiss hl).mp hlj
    rw [hs.coordinatorOf_dismiss hr hlr]
    split
    · rw [Coordinator.entries_forget, List.count_filter (by simpa using hne)]
      exact hs.counted hx hlj t
    · exact hs.counted hx hlj t
  · intro h t j hj
    rw [hs.coordinatorOf_dismiss hr hlr] at hj
    have hold : j ∈ (k.coordinatorOf h).entries t ∧ (h = i.hub → j ≠ r) := by
      split at hj
      · rw [Coordinator.entries_forget, List.mem_filter] at hj
        exact ⟨hj.1, fun _ => by simpa using hj.2⟩
      · next hh => exact ⟨hj, fun he => absurd he hh⟩
    obtain ⟨hlj, x, hx, hxh⟩ := hs.named hold.1
    have hne : j ≠ r := by
      rintro rfl
      rw [hr] at hx
      cases hx
      exact hold.2 hxh.symm rfl
    exact ⟨(hs.listed_dismiss hl).mpr ⟨hlj, hne⟩, x, hx, hxh⟩

theorem maps_addMap {map : IdentityMap} {m : MapRef} {map' : IdentityMap}
    (h : (k.addMap map).maps[m]? = some map') : k.maps[m]? = some map' ∨ map' = map := by
  simp only [Core.addMap, List.getElem?_append] at h
  split at h
  · exact .inl h
  · exact .inr (List.mem_singleton.mp (List.mem_of_getElem? h))

theorem maps_addMap_of_some (map : IdentityMap) {m : MapRef} {map' : IdentityMap}
    (h : k.maps[m]? = some map') : (k.addMap map).maps[m]? = some map' := by
  have hlt := (List.getElem?_eq_some_iff.mp h).1
  rw [Core.addMap, List.getElem?_append_left hlt, h]

/-- In a new identity map nothing is registered. -/
theorem lists_addMap {s : Schema} {c : ConnectionRef} {h : HubRef} {m : MapRef} {id : RecordId}
    {r : RecordRef} :
    (k.addMap { schema := s, connection := c, hub := h }).Lists m id r ↔ k.Lists m id r := by
  constructor
  · rintro ⟨map, hm, hmem⟩
    rcases maps_addMap hm with hm | rfl
    · exact ⟨map, hm, hmem⟩
    · simp at hmem
  · rintro ⟨map, hm, hmem⟩
    exact ⟨map, maps_addMap_of_some _ hm, hmem⟩

theorem Sound.addMap (hs : k.Sound) {s : Schema} {c : ConnectionRef} {h : HubRef}
    (hc : c < k.connections.length) (hh : h < k.coordinators.length)
    (hd : ∃ d : Draft, d.build = .ok s) :
    (k.addMap { schema := s, connection := c, hub := h }).Sound := by
  refine ⟨hs.grounded, ?_, ?_, ?_, ?_, ?_, ?_⟩
  · intro m map hm
    rcases maps_addMap hm with hm | rfl
    · exact ⟨(hs.placed hm).connection, (hs.placed hm).hub, (hs.placed hm).schema⟩
    · exact ⟨hc, hh, hd⟩
  · intro m map hm
    rcases maps_addMap hm with hm | rfl
    · exact hs.keys hm
    · simp
  · intro m map id r hm hmem
    rcases maps_addMap hm with hm | rfl
    · exact hs.kept hm hmem
    · simp at hmem
  · intro m m' id id' r hl hl'
    exact hs.once (lists_addMap.mp hl) (lists_addMap.mp hl')
  · rintro r i hr ⟨m, id, hl⟩
    exact hs.counted (k := k) hr ⟨m, id, lists_addMap.mp hl⟩
  · intro h t r hr
    obtain ⟨⟨m, id, hl⟩, hi⟩ := hs.named (k := k) hr
    exact ⟨⟨m, id, lists_addMap.mpr hl⟩, hi⟩

/-! ## Deeds -/

theorem Sound.commands (hs : k.Sound) {r : RecordRef} {c : Record.Command}
    {reply : Except StoreError Record.Reply} {k' : Core} (h : Commands r c reply k k') :
    k'.Sound := by
  obtain ⟨i, l, hr, hl, -, -, rfl⟩ := h
  exact (hs.setDatabase _ _).impose (by simpa using hr)
    (hl.of_maps (setDatabase_maps k _ _)) (i.record.run_balanced l c) (i.record.run_remains l c)

theorem Sound.asked (hs : k.Sound) {r : RecordRef}
    {cs : List (Record.Command × Except StoreError Record.Reply)} {k' : Core}
    (h : Asked r cs k k') : k'.Sound :=
  Chain.preserves (P := Sound) (fun hc hk => hk.commands hc) h hs

theorem Sound.meets (hs : k.Sound) {m : MapRef} {id : RecordId} {isNew : Bool} {r : RecordRef}
    {k' : Core} (h : Meets m id isNew r k k') : k'.Sound ∧ k'.Lists m id r := by
  obtain ⟨map, hm, ⟨hid, rfl⟩ | ⟨hid, rfl, rfl⟩⟩ := h
  · exact ⟨hs, map, hm, mem_of_lookup hid⟩
  · exact ⟨hs.enrol hm hid, (lists_enrol hm).mpr (.inr ⟨rfl, rfl, rfl⟩)⟩

theorem Sound.takenIn (hs : k.Sound) {m : MapRef} {answered : RecordRef → Prop}
    {images : List RowImage} {k' : Core} (h : TakenIn m answered images k k') : k'.Sound := by
  induction h with
  | nil k => exact hs
  | cons hm hr hc _ _ ih =>
    obtain ⟨hs₁, hl⟩ := hs.meets hm
    exact ih ((hs₁.impose hr ⟨m, _, hl⟩ (Record.hydrate_balanced _ _)
      (Record.hydrate_remains _ _)).asked hc)

/-- Every deed keeps the core sound. -/
theorem Sound.does (hs : k.Sound) {d : Deed} {k' : Core} (h : Does d k k') : k'.Sound := by
  cases d with
  | command r c reply => exact hs.commands h
  | read m images answered =>
    obtain ⟨map, -, -, h⟩ := h
    exact hs.takenIn h
  | enrol m id isNew =>
    obtain ⟨map, hm, hid, rfl⟩ := h
    exact hs.enrol hm hid
  | place r parent =>
    obtain ⟨i, hr, hl, rfl⟩ := h
    exact hs.impose hr hl (i.record.setParent_balanced parent)
      (i.record.setParent_remains parent)
  | adopt m r parent =>
    obtain ⟨map, i, l, -, hr, hl, -, -, rfl⟩ := h
    exact (hs.setDatabase _ _).impose (by simpa using hr)
      (hl.of_maps (setDatabase_maps k _ _)) (i.record.setParent_balanced parent)
      (i.record.setParent_remains parent)
  | free m r =>
    obtain ⟨map, i, l, -, hr, hl, -, rfl⟩ := h
    split
    · exact (hs.dismiss hr hl).setDatabase _ _
    · exact hs.dismiss hr hl
  | ground => exact hs.grounds h
  | addMap s c h =>
    obtain ⟨l, hd, hc, hh, -, -, rfl⟩ := h
    exact (hs.setDatabase _ _).addMap (by simpa using hc) (by simpa using hh) hd
  | foreign d =>
    obtain ⟨x, rfl⟩ := h
    exact hs.of_databases (by simp)

/-- Whatever is done, the core stays sound. -/
theorem Sound.course (hs : k.Sound) {allowed : Deed → Core → Prop} {ds : List Deed} {k' : Core}
    (h : Course allowed ds k k') : k'.Sound :=
  Chain.preserves (P := Sound) (fun hd hk => hk.does hd.2) h hs

end Core

end LiveRecords
