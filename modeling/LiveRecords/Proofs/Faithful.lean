import LiveRecords.Proofs.Outlook

/-!
# Faithful records

The invariant of a connection that nobody else writes past: its tables hold
what their types write, its records are intact, and each of them that was not
set apart takes for stored what is stored under its key. A step either leaves
the database or changes one row of it, and what it changes is all there is to
look at.
-/

namespace LiveRecords

namespace Core

variable {k k' : Core}

theorem Sound.proper (hs : k.Sound) {m : MapRef} {map : IdentityMap}
    (hm : k.maps[m]? = some map) : map.schema.Proper := by
  obtain ⟨d, hd⟩ := (hs.placed hm).schema
  exact Schema.proper_of_build hd

/-- A record has one key. -/
theorem Sound.key_unique (hs : k.Sound) {m m' : MapRef} {id id' : RecordId} {r : RecordRef}
    (h : k.Lists m id r) (h' : k.Lists m' id' r) : m = m' ∧ id = id' := by
  have hmm := hs.once h h'
  subst hmm
  obtain ⟨map, hm, hmem⟩ := h
  obtain ⟨map', hm', hmem'⟩ := h'
  rw [hm] at hm'
  cases hm'
  obtain ⟨x, hx, hof⟩ := hs.kept hm hmem
  obtain ⟨x', hx', hof'⟩ := hs.kept hm hmem'
  rw [hx] at hx'
  cases hx'
  exact ⟨rfl, hof.id.symm.trans hof'.id⟩

/-- A key has one record. -/
theorem Sound.record_unique (hs : k.Sound) {m : MapRef} {id : RecordId} {r r' : RecordRef}
    (h : k.Lists m id r) (h' : k.Lists m id r') : r = r' := by
  obtain ⟨map, hm, hmem⟩ := h
  obtain ⟨map', hm', hmem'⟩ := h'
  rw [hm] at hm'
  cases hm'
  have hr := hs.lookup hm hmem
  rw [hs.lookup hm hmem'] at hr
  exact (Option.some.inj hr).symm

end Core

/-- A connection, its database and the core that a run ends in. Strictly, a new
record has no row and parents are stored. -/
structure Outlook where
  last : Core
  connection : ConnectionRef
  database : DatabaseRef
  strict : Bool

namespace Outlook

/-- An identity map of the connection is for a record type. -/
def Types (o : Outlook) (k : Core) (m : MapRef) (s : Schema) : Prop :=
  ∃ map, k.maps[m]? = some map ∧ map.connection = o.connection ∧ map.schema = s

/-- A record of the connection is registered with its type and key. -/
structure Sees (o : Outlook) (k : Core) (m : MapRef) (s : Schema) (id : RecordId) (r : RecordRef)
    (x : Resident) : Prop where
  types : o.Types k m s
  lists : k.Lists m id r
  record : k.records[r]? = some x

/-- No other connection has record types on the database, and the tables of
those on this one are told apart. -/
structure Sole (o : Outlook) : Prop where
  connection : o.last.connections[o.connection]? = some o.database
  only : ∀ {m : MapRef} {map}, o.last.maps[m]? = some map →
    o.last.connections[map.connection]? = some o.database → map.connection = o.connection
  distinct : ∀ {m m' s s'}, o.Types o.last m s → o.Types o.last m' s' → m ≠ m' →
    sameName s.table s'.table = false
  unnumbered : ∀ {m s}, o.Types o.last m s → s.Unnumbered

/-- The invariant, except for records that are set apart. -/
structure Faithful (o : Outlook) (apart : RecordRef → Prop) (k : Core) : Prop where
  plain : (k.database o.database).Plain
  ready : ∀ {m s}, o.Types o.last m s → (k.database o.database).Ready s
  holds : ∀ {m s}, o.Types k m s → ∃ es, (k.database o.database).Holds s es
  intact : ∀ {m s id r x}, o.Sees k m s id r x → x.record.Intact
  aligned : ∀ {m s id r x}, o.Sees k m s id r x → ¬apart r →
    x.record.Aligned o.strict ((k.database o.database).image? s id)

variable {o : Outlook} {apart apart' : RecordRef → Prop} {k k' : Core} {m m' : MapRef}
  {s s' : Schema} {id : RecordId} {r : RecordRef} {x : Resident}

theorem Types.ahead (h : o.Types k m s) (hk : k.Precedes k') : o.Types k' m s := by
  obtain ⟨map, hm, hc, hs⟩ := h
  obtain ⟨map', hm', hlike⟩ := hk.map hm
  exact ⟨map', hm', hlike.connection.symm.trans hc, hlike.schema.symm.trans hs⟩

theorem Types.proper (h : o.Types k m s) (hk : k.Sound) : s.Proper := by
  obtain ⟨map, hm, -, rfl⟩ := h
  exact hk.proper hm

theorem Types.connection (h : o.Types k m s) (ho : o.Sole) (hs : k.Sound)
    (hk : k.Precedes o.last) :
    k.connections[o.connection]? = some o.database ∧ o.database < k.databases.length := by
  obtain ⟨map, hm, hc, -⟩ := h
  have hget := List.getElem?_eq_getElem (hc ▸ (hs.placed hm).connection)
  have hlast := hk.connections hget
  rw [ho.connection] at hlast
  rw [← hlast] at hget
  exact ⟨hget, hs.grounded hget⟩

theorem Types.unique (h : o.Types k m s) (h' : o.Types k m s') : s = s' := by
  obtain ⟨map, hm, -, rfl⟩ := h
  obtain ⟨map', hm', -, rfl⟩ := h'
  rw [hm] at hm'
  cases hm'
  rfl

/-- Identity maps of other connections are on other databases. -/
theorem Sole.elsewhere (ho : o.Sole) (hk : k.Precedes o.last) {map : IdentityMap}
    (hm : k.maps[m]? = some map) (hc : map.connection ≠ o.connection) :
    k.connections[map.connection]? ≠ some o.database := by
  intro hdb
  obtain ⟨map', hm', hlike⟩ := hk.map hm
  have hlast := hk.connections hdb
  rw [hlike.connection] at hlast
  exact hc (hlike.connection.trans (ho.only hm' hlast))

theorem Sees.of (h : o.Sees k m s id r x) (hs : k.Sound) :
    x.record.id = id ∧ x.record.schema = s ∧ x.connection = o.connection := by
  obtain ⟨⟨map, hm, hc, rfl⟩, ⟨map', hm', hmem⟩, hx⟩ := h
  rw [hm] at hm'
  cases hm'
  obtain ⟨y, hy, hof⟩ := hs.kept hm hmem
  rw [hx] at hy
  cases hy
  exact ⟨hof.id, hof.schema, hof.connection.trans hc⟩

/-- A record that is registered on the connection is seen. -/
theorem sees_of_listed (hs : k.Sound) (hl : k.Listed r) (hx : k.records[r]? = some x)
    (hc : x.connection = o.connection) : ∃ m, o.Sees k m x.record.schema x.record.id r x := by
  obtain ⟨m, id, map, hm, hmem⟩ := hl
  obtain ⟨y, hy, hof⟩ := hs.kept hm hmem
  rw [hx] at hy
  cases hy
  refine ⟨m, ⟨map, hm, hof.connection.symm.trans hc, hof.schema.symm⟩, ?_, hx⟩
  rw [hof.id]
  exact ⟨map, hm, hmem⟩

theorem Faithful.mono (h : o.Faithful apart k) (ha : ∀ r, apart r → apart' r) :
    o.Faithful apart' k :=
  ⟨h.plain, h.ready, h.holds, h.intact, fun hx hr => h.aligned hx fun hr' => hr (ha _ hr')⟩

/-- The database stays, and what becomes of records keeps them aligned. -/
theorem Faithful.frame (h : o.Faithful apart k)
    (hdb : k'.database o.database = k.database o.database)
    (ht : ∀ {m s}, o.Types k' m s → o.Types k m s)
    (hx : ∀ {m s id r x}, o.Sees k' m s id r x → x.record.Intact ∧
      (¬apart' r → x.record.Aligned o.strict ((k.database o.database).image? s id))) :
    o.Faithful apart' k' where
  plain := hdb ▸ h.plain
  ready hs := hdb ▸ h.ready hs
  holds hs := hdb ▸ h.holds (ht hs)
  intact hsees := (hx hsees).1
  aligned hsees hr := hdb ▸ (hx hsees).2 hr

/-- One row of the database changes, and the record under its key keeps up. -/
theorem Faithful.edit (h : o.Faithful apart k) (ho : o.Sole) (hk : k.Precedes o.last)
    (hs : k.Sound) (hm : o.Types k m s) {es es' : List Shelved}
    (hes : (k.database o.database).Holds s es)
    (hd : (k.database o.database).Edits s id es (k'.database o.database) es')
    (ht : ∀ {m s}, o.Types k' m s → o.Types k m s)
    (hrest : ∀ {m' s' id' r x}, o.Sees k' m' s' id' r x → m' = m ∧ id' = id ∨
      (m' ≠ m ∨ id' ≠ id) ∧ o.Sees k m' s' id' r x)
    (hown : ∀ {r x}, o.Sees k' m s id r x → x.record.Intact ∧
      (¬apart r → x.record.Aligned o.strict ((k'.database o.database).image? s id))) :
    o.Faithful apart k' := by
  have hproper := hm.proper hs
  have hother : ∀ {m' s'}, o.Types o.last m' s' → m' ≠ m →
      sameName s.table s'.table = false :=
    fun hm' hne => ho.distinct (hm.ahead hk) hm' (Ne.symm hne)
  -- a record that is seen is the one of the row, or neither it nor its row has changed
  have hcases : ∀ {m' s' id' r x}, o.Sees k' m' s' id' r x → x.record.Intact ∧
      (¬apart r → x.record.Aligned o.strict ((k'.database o.database).image? s' id')) := by
    intro m' s' id' r x hsees
    obtain ⟨rfl, rfl⟩ | ⟨hne, hold⟩ := hrest hsees
    · have hss := (ht hsees.types).unique hm
      subst hss
      exact hown hsees
    · refine ⟨h.intact hold, fun hr => ?_⟩
      have ha := h.aligned hold hr
      by_cases hmm : m' = m
      · subst hmm
        have hid : id' ≠ id := hne.resolve_left fun hn => hn rfl
        have hss := hold.types.unique hm
        subst hss
        rw [hd.image?_of_ne hes hproper hid]
        exact ha
      · rw [hd.database, Database.image?_shelve_of_ne hes es' (hother (hold.types.ahead hk) hmm)]
        exact ha
  refine ⟨?_, ?_, ?_, fun hsees => (hcases hsees).1, fun hsees => (hcases hsees).2⟩
  · rw [hd.database]
    exact h.plain.shelve _ _
  · intro m' s' hm'
    by_cases hmm : m' = m
    · subst hmm
      rw [hm'.unique (hm.ahead hk)]
      exact .inr ⟨es', hd.holds hes⟩
    · rw [hd.database]
      exact (h.ready hm').of_ne hes es' (hother hm' hmm)
  · intro m' s' hm'
    have hold := ht hm'
    by_cases hmm : m' = m
    · subst hmm
      rw [hold.unique hm]
      exact ⟨es', hd.holds hes⟩
    · obtain ⟨es₁, hes₁⟩ := h.holds hold
      rw [hd.database]
      exact ⟨es₁, hes₁.of_ne hes es' (hother (hold.ahead hk) hmm)⟩

end Outlook

end LiveRecords
