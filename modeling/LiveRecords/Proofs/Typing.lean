import LiveRecords.Proofs.Binding
import LiveRecords.Proofs.Orderly

/-!
# Well-typed databases

The invariant of a database whose tables were made for the record types that use
them: its rows and the values of its records fit their types. Every deed keeps it
that does not change the database past the records, on however many connections
and whatever fails. As before, which types there will be is known from the core
that a run ends in.
-/

namespace LiveRecords.Core

variable {K k k' : Core} {d : DatabaseRef} {s s' : Schema} {m : MapRef} {map : IdentityMap}
  {id : RecordId} {r : RecordRef} {x : Resident} {c : ConnectionRef}

/-- A record type has its table in a database. -/
def Hosts (K : Core) (d : DatabaseRef) (s : Schema) : Prop :=
  ∃ (m : MapRef) (map : IdentityMap), K.maps[m]? = some map ∧
    K.connections[map.connection]? = some d ∧ map.schema = s

/-- Record types that share a table are one type. -/
def Uniform (K : Core) (d : DatabaseRef) : Prop :=
  ∀ {s s'}, K.Hosts d s → K.Hosts d s' → sameName s.table s'.table = true → s = s'

/-- The rows of a database and the values of its records fit their types. -/
structure Typed (K : Core) (d : DatabaseRef) (k : Core) : Prop where
  plain : (k.database d).Plain
  ready : ∀ {s}, K.Hosts d s → (k.database d).Ready s
  intact : ∀ {r : RecordRef} {x : Resident}, k.records[r]? = some x →
    K.connections[x.connection]? = some d → x.record.Intact

/-- An identity map of a database has its type there. -/
theorem hosts_of_map (hs : k.Sound) (hk : k.Precedes K) (hm : k.maps[m]? = some map)
    (hc : K.connections[map.connection]? = some d) :
    K.Hosts d map.schema ∧ k.connections[map.connection]? = some d := by
  have hget := List.getElem?_eq_getElem (hs.placed hm).connection
  have hlast := hk.connections hget
  rw [hc] at hlast
  cases hlast
  obtain ⟨map', hm', hlike⟩ := hk.map hm
  exact ⟨⟨m, map', hm', hlike.connection ▸ hc, hlike.schema.symm⟩, hget⟩

namespace Typed

/-! ## Parts of deeds -/

theorem frame (h : Typed K d k) (hdb : k'.database d = k.database d)
    (hr : ∀ {r : RecordRef} {x : Resident}, k'.records[r]? = some x →
      K.connections[x.connection]? = some d → x.record.Intact) : Typed K d k' :=
  ⟨hdb ▸ h.plain, fun hs => hdb ▸ h.ready hs, hr⟩

/-- Rows of a type become others. -/
theorem write (h : Typed K d k) (hu : K.Uniform d) {db : Database}
    (hlt : k.connections[c]? = some d → d < k.databases.length)
    (hhost : k.connections[c]? = some d → K.Hosts d s)
    (hdb : k.connections[c]? = some d → (k.databaseOf c).Plain → (k.databaseOf c).Ready s →
      (k.databaseOf c).Refills s db) : Typed K d (k.setDatabase c db) := by
  by_cases hc : k.connections[c]? = some d
  · have hrefills := hdb hc
    rw [databaseOf_eq hc] at hrefills
    have hself := hrefills h.plain (h.ready (hhost hc))
    refine ⟨?_, fun {s'} hs' => ?_, fun {r x} hx => ?_⟩
    · rw [database_setDatabase hc (hlt hc)]
      exact hself.plain h.plain
    · rw [database_setDatabase hc (hlt hc)]
      by_cases hn : sameName s.table s'.table = true
      · rw [← hu (hhost hc) hs' hn]
        exact hself.ready (h.ready (hhost hc))
      · exact hself.ready_of_ne (Bool.eq_false_iff.mpr hn) (h.ready hs')
    · rw [setDatabase_records] at hx
      exact h.intact hx
  · refine h.frame (database_setDatabase_of_ne hc db) fun {r x} hx => ?_
    rw [setDatabase_records] at hx
    exact h.intact hx

/-- A record becomes another whose values fit. -/
theorem impose (h : Typed K d k) (hx : k.records[r]? = some x) {e : Effect}
    (he : K.connections[x.connection]? = some d → e.record.Intact) : Typed K d (k.impose r e) := by
  refine h.frame (database_impose k r e) fun {j y} hy hon => ?_
  by_cases hj : j = r
  · subst hj
    rw [records_impose_self hx] at hy
    cases hy
    exact he hon
  · rw [records_impose_of_ne k hj] at hy
    exact h.intact hy hon

theorem enrol (h : Typed K d k) (hs : k.Sound) (hm : k.maps[m]? = some map) (id : RecordId)
    (isNew : Bool) : Typed K d (k.enrol m map id isNew) := by
  refine h.frame rfl fun {r x} hx hon => ?_
  obtain hlt | heq | hgt := Nat.lt_trichotomy r k.records.length
  · rw [records_enrol_of_lt k m map id isNew hlt] at hx
    exact h.intact hx hon
  · subst heq
    rw [records_enrol_self] at hx
    cases hx
    exact Record.initial_intact (hs.proper hm) isNew
  · have hnone : (k.enrol m map id isNew).records[r]? = none := by
      refine List.getElem?_eq_none ?_
      show (k.records ++ [_]).length ≤ r
      rw [List.length_append]
      exact hgt
    rw [hnone] at hx
    cases hx

theorem meets (h : Typed K d k) (hs : k.Sound) {isNew : Bool} (hd : Meets m id isNew r k k') :
    Typed K d k' := by
  obtain ⟨map, hm, ⟨-, rfl⟩ | ⟨-, -, rfl⟩⟩ := hd
  · exact h
  · exact h.enrol hs hm id isNew

/-! ## Commands -/

theorem commands (h : Typed K d k) (hu : K.Uniform d) (hs : k.Sound) (hk : k.Precedes K)
    {command : Record.Command} {reply : Except StoreError Record.Reply}
    (hd : Commands r command reply k k') : Typed K d k' := by
  obtain ⟨x, l, hx, ⟨m, id, map, hm, hmem⟩, hl, -, rfl⟩ := hd
  obtain ⟨y, hy, hof⟩ := hs.kept hm hmem
  cases hx.symm.trans hy
  have hhosts : K.connections[x.connection]? = some d → K.Hosts d x.record.schema := fun hc => by
    rw [hof.schema]
    exact (hosts_of_map hs hk hm (hof.connection ▸ hc)).1
  refine impose (h.write hu hs.grounded (fun hc => hhosts (hk.connections hc)) fun hc => ?_)
    (x := x) (by rw [setDatabase_records, hx]) fun hon => (h.intact hx hon).run l command
  rw [← hl]
  exact ((h.intact hx (hk.connections hc)).works l command).refills

theorem asked (h : Typed K d k) (hu : K.Uniform d) (hs : k.Sound) (hk : k.Precedes K)
    {cs : List (Record.Command × Except StoreError Record.Reply)} (hd : Asked r cs k k') :
    Typed K d k' := by
  induction hd with
  | nil _ => exact h
  | cons hc _ ih => exact ih (h.commands hu hs hk hc) (hs.commands hc) (hc.stays.precedes_of hk)

/-! ## Reading -/

/-- A stored row that fits is taken in by its record. -/
theorem hydrate (h : Typed K d k) (hs : k.Sound) {image : RowImage}
    (hd : Meets m image.id false r k k') (hx : k'.records[r]? = some x)
    (hfits : ∀ {map}, k.maps[m]? = some map → K.connections[map.connection]? = some d →
      image.Fits map.schema) : Typed K d (k'.impose r (x.record.hydrate image)) := by
  have h' := h.meets hs hd
  obtain ⟨hs', map, hm, hmem⟩ := hs.meets hd
  obtain ⟨y, hy, hof⟩ := hs'.kept hm hmem
  cases hx.symm.trans hy
  refine h'.impose hx fun hon => (h'.intact hx hon).hydrate ?_
  obtain ⟨old, hold, hlike⟩ := map_of_shape hd.stays.frame.shape.symm hm
  rw [hof.schema, ← hlike.schema]
  exact hfits hold (by rw [hlike.connection, ← hof.connection]; exact hon)

theorem takenIn (h : Typed K d k) (hu : K.Uniform d) (hs : k.Sound) (hk : k.Precedes K)
    {answered : RecordRef → Prop} {images : List RowImage} (hd : TakenIn m answered images k k')
    (hfits : ∀ {map}, k.maps[m]? = some map → K.connections[map.connection]? = some d →
      ∀ y ∈ images, y.Fits map.schema) : Typed K d k' := by
  induction hd with
  | nil _ => exact h
  | @cons image images r x cs k₀ k₁ k₂ k₃ hmeets hx hasked _ _ ih =>
    have h₁ := h.hydrate hs hmeets hx fun hm hc => hfits hm hc _ List.mem_cons_self
    obtain ⟨hs₁, hstays⟩ := Outlook.sound_hydrated hs hmeets hx
    have hk₁ := hstays.precedes_of hk
    refine ih (h₁.asked hu hs₁ hk₁ hasked) (hs₁.asked hasked) (hasked.stays.precedes_of hk₁)
      fun {map} hm hc y hy => ?_
    obtain ⟨old, hold, hlike⟩ := map_of_shape (hstays.trans hasked.stays).frame.shape.symm hm
    rw [← hlike.schema]
    exact hfits hold (by rw [hlike.connection]; exact hc) y (List.mem_cons_of_mem _ hy)

/-- What is read fits. -/
theorem fits_of_reads (h : Typed K d k) (hs : k.Sound) (hk : k.Precedes K)
    (hm : k.maps[m]? = some map) (hc : K.connections[map.connection]? = some d)
    {images : List RowImage} (hr : k.Reads map images) : ∀ y ∈ images, y.Fits map.schema := by
  obtain ⟨hhosts, hconn⟩ := hosts_of_map hs hk hm hc
  obtain ⟨clause, found, hread, hsub⟩ := hr
  rw [databaseOf_eq hconn] at hread
  exact fun y hy =>
    Database.fits_of_read (h.ready hhosts) (hs.proper hm) hread y (hsub.subset hy)

/-! ## Tables -/

/-- A table that is missing is made. -/
theorem makeTable (h : Typed K d k) (hu : K.Uniform d) (hhost : K.Hosts d s) {n : Nat}
    {db : Database} (hok : (k.database d).execute ⟨s, .createTable⟩ = .ok (n, db)) :
    db.Plain ∧ ∀ {s'}, K.Hosts d s' → db.Ready s' := by
  obtain ⟨rfl, -⟩ | ⟨hnone, rfl⟩ := Database.execute_createTable hok
  · exact ⟨h.plain, h.ready⟩
  · refine ⟨h.plain.append hnone, fun {s'} hs' => ?_⟩
    by_cases hn : sameName s.table s'.table = true
    · rw [← hu hhost hs' hn]
      exact .inr ⟨[], Database.holds_made hnone⟩
    · exact (h.ready hs').append hnone (Bool.eq_false_iff.mpr hn)

theorem addMap (h : Typed K d k) (hu : K.Uniform d) (hs : k.Sound) {l : Link} {i : HubRef}
    (hk : ((k.setDatabase c (l.ensureTable s).2.database).addMap
      { schema := s, connection := c, hub := i }).Precedes K)
    (hl : l.database = k.databaseOf c) (hok : (l.ensureTable s).1 = .ok ()) :
    Typed K d ((k.setDatabase c (l.ensureTable s).2.database).addMap
      { schema := s, connection := c, hub := i }) := by
  have hrecords : ∀ {r : RecordRef} {x : Resident},
      ((k.setDatabase c (l.ensureTable s).2.database).addMap
        { schema := s, connection := c, hub := i }).records[r]? = some x →
      K.connections[x.connection]? = some d → x.record.Intact := fun {r x} hx => by
    have hold : k.records[r]? = some x := by
      rw [← setDatabase_records k c (l.ensureTable s).2.database]
      exact hx
    exact h.intact hold
  by_cases hc : k.connections[c]? = some d
  · obtain ⟨e, he, -⟩ | ⟨n, db, -, hex, hdb⟩ := l.ensureTable_cases s
    · rw [hok] at he
      cases he
    have hhost : K.Hosts d s := by
      have hadded : ((k.setDatabase c (l.ensureTable s).2.database).maps ++
          [({ schema := s, connection := c, hub := i } : IdentityMap)])[k.maps.length]? =
            some { schema := s, connection := c, hub := i } := by
        rw [setDatabase_maps]
        exact List.getElem?_concat_length
      obtain ⟨map', hm', hlike⟩ := hk.map hadded
      refine ⟨_, map', hm', hlike.connection ▸ hk.connections ?_, hlike.schema.symm⟩
      show (k.setDatabase c _).connections[c]? = _
      rw [setDatabase_connections]
      exact hc
    rw [hl, databaseOf_eq hc] at hex
    obtain ⟨hplain, hready⟩ := h.makeTable hu hhost hex
    have hset : ((k.setDatabase c (l.ensureTable s).2.database).addMap
        { schema := s, connection := c, hub := i }).database d = db := by
      rw [hdb]
      exact database_setDatabase hc (hs.grounded hc) db
    exact ⟨hset ▸ hplain, fun hs' => hset ▸ hready hs', hrecords⟩
  · exact h.frame (database_setDatabase_of_ne hc _) hrecords

/-! ## Deeds -/

theorem does (h : Typed K d k) (hu : K.Uniform d) (hs : k.Sound) {e : Deed} (he : e ≠ .foreign d)
    (hd : Does e k k') (hk' : k'.Precedes K) : Typed K d k' := by
  have hk : k.Precedes K := hd.precedes.trans hk'
  cases e with
  | command r c reply => exact h.commands hu hs hk hd
  | read m images answered =>
    obtain ⟨map, hm, hr, ht⟩ := hd
    refine h.takenIn hu hs hk ht fun {map'} hm' hc => ?_
    cases hm.symm.trans hm'
    exact h.fits_of_reads hs hk hm hc hr
  | enrol m id isNew =>
    obtain ⟨map, hm, -, rfl⟩ := hd
    exact h.enrol hs hm id isNew
  | place r parent =>
    obtain ⟨x, hx, -, rfl⟩ := hd
    exact h.impose hx fun hon => (h.intact hx hon).setParent parent
  | adopt m r parent =>
    obtain ⟨map, x, l, hm, hx, -, hl, -, rfl⟩ := hd
    refine impose (h.write hu hs.grounded
      (fun hc => (hosts_of_map hs hk hm (hk.connections hc)).1) fun _ => ?_)
      (x := x) (by rw [setDatabase_records, hx]) fun hon => (h.intact hx hon).setParent parent
    rw [← hl]
    exact (Link.works_updateParent (hs.proper hm) parent l).refills
  | free m r =>
    obtain ⟨map, x, l, hm, hx, -, hl, rfl⟩ := hd
    have hdismiss : Typed K d (k.dismiss m r x.hub) := h.frame rfl h.intact
    split
    · refine hdismiss.write hu hs.grounded
        (fun hc => (hosts_of_map hs hk hm (hk.connections hc)).1) fun _ => ?_
      rw [show (k.dismiss m r x.hub).databaseOf map.connection = l.database from hl.symm]
      exact (Link.works_execute (q := .deleteRow x.record.id) (hs.proper hm) trivial
        (fun h => by cases h) l).refills
    · exact hdismiss
  | ground =>
    have hdb := Grounds.database (i := d) hd
    obtain ⟨n, cs, j, -, rfl⟩ := hd
    exact h.frame hdb h.intact
  | addMap s c i =>
    obtain ⟨l, -, -, -, hl, hok, rfl⟩ := hd
    exact h.addMap hu hs hk' hl hok
  | foreign j =>
    obtain ⟨y, rfl⟩ := hd
    refine h.frame ?_ h.intact
    unfold Core.database
    dsimp only
    rw [List.getElem?_set_ne fun hj : j = d => he (hj ▸ rfl)]

/-- Whatever is done and whatever fails, values keep fitting. -/
theorem course (h : Typed K d k) (hu : K.Uniform d) (hs : k.Sound) {ds : List Deed}
    (hd : Course (fun e _ => e ≠ .foreign d) ds k k') (hk' : k'.Precedes K) : Typed K d k' := by
  refine (Course.preserves_within (P := fun j => j.Sound ∧ Typed K d j)
    (fun he hdoes hj hP => ?_) hd hk' ⟨hs, h⟩).2
  exact ⟨hP.1.does hdoes, hP.2.does hu hP.1 he hdoes hj⟩

end Typed

end LiveRecords.Core
