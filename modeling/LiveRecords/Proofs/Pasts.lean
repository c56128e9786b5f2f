import LiveRecords.Proofs.Patching
import LiveRecords.Proofs.Faithful

/-!
# The past of a core

A core with its records and coordinators looked at so that what redo could bring
back is left out. A change that one record has gained is taken back by an undo
of that record, as far as can be seen so; and what an undo took back a redo
brings back, as far as anything can be seen.

The values of the row need no look at what was written. Nothing but values of
the row has changed, and they are the baselines of the record before and after.
-/

namespace LiveRecords

/-! ## Coordinators -/

namespace Coordinator

variable {c c' : Coordinator} {t : Track} {item : Nat} {rest : List Nat}

/-- A coordinator without what redo could bring back. -/
def past (c : Coordinator) : Coordinator := { c with redo := [] }

/-- A coordinator after one of its items went a step. -/
def turned (t : Track) (item : Nat) (c : Coordinator) : Coordinator :=
  Notice.told [.lost t, .gained t.opposite] item c

theorem turned_of_cons (h : c.entries t = item :: rest) :
    (c.turned t item).entries t = rest ∧
      (c.turned t item).entries t.opposite = item :: c.entries t.opposite := by
  cases t with
  | undo =>
    have hu : c.undo = item :: rest := h
    simp [turned, Notice.told, Notice.apply, add, remove, entries, setEntries, Track.opposite, hu]
  | redo =>
    have hr : c.redo = item :: rest := h
    simp [turned, Notice.told, Notice.apply, add, remove, entries, setEntries, Track.opposite, hr]

/-- A step and the step the other way. -/
theorem turned_turned (h : c.entries t = item :: rest) :
    (c.turned t item).turned t.opposite item = c := by
  obtain ⟨hrest, hopp⟩ := turned_of_cons h
  obtain ⟨hrest', hopp'⟩ := turned_of_cons hopp
  refine ext_entries fun u => ?_
  obtain rfl | rfl := Track.eq_or_eq_opposite t u
  · cases u <;> exact hopp'.trans ((congrArg (item :: ·) hrest).trans h.symm)
  · exact hrest'

/-- A step back from where an item had gained something. -/
theorem past_turned (h : c.past = c'.past) {c₀ : Coordinator} (hc : c'.undo = item :: c₀.undo) :
    (c.turned .undo item).past = c₀.past := by
  have hundo : c.entries .undo = item :: c₀.undo := (congrArg Coordinator.undo h).trans hc
  have hrest : (c.turned .undo item).undo = c₀.undo := (turned_of_cons hundo).1
  rw [past, hrest]
  rfl

theorem undo_told_lost (n item : Nat) (c : Coordinator) :
    (Notice.told (List.replicate n (.lost .redo)) item c).undo = c.undo := by
  induction n generalizing c with
  | zero => rfl
  | succ n ih => exact ih _

end Coordinator

/-! ## Records -/

namespace Record

variable {x y : Record} {tr : Track}

/-- A record that is stored and has nothing to write. -/
structure Settled (x : Record) : Prop where
  isNew : x.isNew = false
  deletePending : x.deletePending = false
  unedited : x.Unedited

/-- A record without what redo could bring back. -/
def past (x : Record) : Record := { x with redo := [], canRedo := false }

/-- The past of a record without its edits. -/
def rested (x : Record) : Record :=
  ({ x with slots := x.slots.map fun (t : Slot) => .clean t.field t.baseline }.refresh).1.past

theorem rested_of_unedited (hx : x.Intact) (hd : x.Unedited) : x.rested = x.past := by
  have hslots : x.slots.map (fun t => Slot.clean t.field t.baseline) = x.slots :=
    (List.map_congr_left fun t ht => ((hx.slots t ht).eq_clean (hd t ht)).symm).trans
      (List.map_id' _)
  rw [rested, hslots]
  exact congrArg past hx.flags

/-- Setting a value leaves all but edits and what redo could bring back. -/
theorem rested_set (hx : x.Intact) (field : String) (v : Value) :
    (x.set field v).2.record.rested = x.rested := by
  obtain ⟨hsame, -⟩ | ⟨t, ht, -, -, -, hset⟩ := x.set_cases field v
  · rw [hsame]
    rfl
  · have hslots : (x.setSlot (t.assign v)).slots.map (fun t => Slot.clean t.field t.baseline) =
        x.slots.map fun t => Slot.clean t.field t.baseline := by
      rw [setSlot, List.map_map]
      refine List.map_congr_left fun u hu => ?_
      show Slot.clean (if u.name = t.name then t.assign v else u).field
        (if u.name = t.name then t.assign v else u).baseline = _
      split
      · next hn =>
        rw [eq_of_name (names_nodup hx.toShaped) hu ht hn]
        rfl
      · rfl
    rw [hset, rested, rested, ← hslots]
    rfl

/-- The undo of a commit leads back to what was stored before. -/
theorem past_turned_saved (hx : x.Shaped) : (x.saved.turned .undo).past = x.rested := by
  have hslots : (x.slots.map Slot.settle).map (Slot.restored x.pending) =
      x.slots.map fun t => Slot.clean t.field t.baseline := by
    rw [List.map_map]
    exact List.map_congr_left fun t ht => restored_settle hx ht
  have hstack : x.saved.stack .undo = x.pending :: x.undo := rfl
  rw [turned, hstack, rested, ← hslots]
  rfl

/-- An undo does not look at what redo could bring back. -/
theorem past_turned (x : Record) : (x.turned .undo).past = (x.past.turned .undo).past := by
  have hstack : x.past.stack .undo = x.stack .undo := rfl
  rw [turned, turned, hstack]
  cases x.stack .undo with
  | nil => rfl
  | cons c older => rfl

theorem Settled.saved (hn : x.isNew = false) (hp : x.deletePending = false) : x.saved.Settled :=
  ⟨hn, hp, unedited_saved x⟩

theorem Settled.turned (h : x.Settled) (tr : Track) : (x.turned tr).Settled := by
  obtain ⟨hnew, hpending⟩ := marks_turned tr x
  exact ⟨hnew.trans h.isNew, hpending.trans h.deletePending, unedited_turned h.unedited tr⟩

/-- A command writes values of the row that is there, except for a commit of the
whole row. -/
theorem run_rewrites {l : Link} {es : List Shelved} (hx : x.Intact) (hd : l.database.Plain)
    (hes : l.database.Holds x.schema es) {e : Command}
    (he : e = .commit → x.isNew = false ∧ x.deletePending = false) :
    ∃ es', l.database.Rewrites x.schema x.id es (x.run l e).2.database es' := by
  cases e with
  | commit =>
    obtain ⟨hnew, hpending⟩ := he rfl
    rw [run_commit_of_stored hnew hpending]
    obtain ⟨es', hrows, -⟩ := commitFields_edits (b := false) hx hd hes
    exact ⟨es', hrows⟩
  | replay t =>
    obtain ⟨es', hrows, -⟩ := replay_edits (b := false) hx hd hes t
    exact ⟨es', hrows⟩
  | _ => exact ⟨es, .refl x.id hd hes⟩

/-- The undo entries of a coordinator that is told of a set value. -/
theorem undo_told_set (x : Record) (field : String) (v : Value) (item : Nat) (c : Coordinator) :
    (Notice.told (x.set field v).2.notices item c).undo = c.undo := by
  obtain ⟨hsame, -⟩ | ⟨t, -, -, -, -, hset⟩ := x.set_cases field v
  · rw [hsame]
    rfl
  · rw [hset]
    exact Coordinator.undo_told_lost x.redo.length item c

end Record

/-! ## Cores -/

/-- An element is changed and put back, as far as can be seen. -/
theorem map_modify_back {α β : Type} {F : α → β} {l v : List α} {i : Nat} {a b : α → α}
    (hv : v.map F = (l.modify i a).map F)
    (hb : ∀ z x, l[i]? = some x → F z = F (a x) → F (b z) = F x) :
    (v.modify i b).map F = l.map F := by
  refine List.ext_getElem? fun j => ?_
  have hj := congrArg (·[j]?) hv
  simp only [List.getElem?_map, List.getElem?_modify] at hj ⊢
  by_cases hi : i = j
  · subst hi
    cases hz : v[i]? with
    | none =>
      cases hx : l[i]? with
      | none => simp
      | some x => simp [hz, hx] at hj
    | some z =>
      cases hx : l[i]? with
      | none => simp [hz, hx] at hj
      | some x =>
        have hzx : F z = F (a x) := by simpa [hz, hx] using hj
        simp [hb z x hx hzx]
  · simpa [hi] using hj

namespace Core

variable {k k' k₁ v v' : Core} {d : DatabaseRef} {s : Schema} {id : RecordId} {r : RecordRef}
  {h : HubRef} {x : Resident} {y y' : Record} {c c' : Coordinator} {f : Record → Record}
  {g : Coordinator → Coordinator}

/-- A core whose records and coordinators are looked at. -/
def mapMemory (f : Record → Record) (g : Coordinator → Coordinator) (k : Core) : Core :=
  { k with
    records := k.records.map fun i => { i with record := f i.record }
    coordinators := k.coordinators.map g }

theorem mapMemory_self (k : Core) : k.mapMemory (fun x => x) (fun c => c) = k := by
  simp [mapMemory]

/-- A core without what redo could bring back. -/
def past (k : Core) : Core := k.mapMemory Record.past Coordinator.past

theorem coordinatorOf_of_mapMemory (hk : k.mapMemory f g = k'.mapMemory f g)
    (hlt : h < k'.coordinators.length) : g (k.coordinatorOf h) = g (k'.coordinatorOf h) := by
  have hcoordinators : k.coordinators.map g = k'.coordinators.map g :=
    congrArg Core.coordinators hk
  have hh := congrArg (·[h]?) hcoordinators
  simp only [List.getElem?_map, List.getElem?_eq_getElem hlt, Option.map_some,
    Option.map_eq_some_iff] at hh
  obtain ⟨z, hz, hgz⟩ := hh
  rw [coordinatorOf, coordinatorOf, hz, List.getElem?_eq_getElem hlt]
  exact hgz

theorem records_of_mapMemory (hk : k.mapMemory f g = k'.mapMemory f g) {z : Resident}
    (hz : k.records[r]? = some z) (hx : k'.records[r]? = some x) :
    f z.record = f x.record ∧ z.connection = x.connection ∧ z.hub = x.hub := by
  have hr := congrArg (·.records[r]?) hk
  simp only [mapMemory, List.getElem?_map, hz, hx, Option.map_some, Option.some.injEq] at hr
  exact Resident.mk.inj hr

/-- One record, its coordinator and values of its row are all that may have changed. -/
structure Alters (d : DatabaseRef) (s : Schema) (id : RecordId) (r : RecordRef) (h : HubRef)
    (y : Record) (c : Coordinator) (k k' : Core) : Prop where
  connections : k'.connections = k.connections
  maps : k'.maps = k.maps
  records : k'.records = k.records.modify r fun i => { i with record := y }
  coordinators : k'.coordinators = k.coordinators.modify h fun _ => c
  databases : ∃ e, k'.databases = k.databases.set d e ∧
    ∀ {es}, (k.database d).Holds s es → ∃ es', (k.database d).Rewrites s id es e es'

namespace Alters

theorem records_self (a : Alters d s id r h y c k k') (hx : k.records[r]? = some x) :
    k'.records[r]? = some { x with record := y } := by
  rw [a.records, List.getElem?_modify_eq, hx]
  rfl

theorem records_of_ne (a : Alters d s id r h y c k k') {j : RecordRef} (hj : j ≠ r) :
    k'.records[j]? = k.records[j]? := by
  rw [a.records, List.getElem?_modify_ne _ _ (Ne.symm hj)]

theorem coordinatorOf (a : Alters d s id r h y c k k') (hlt : h < k.coordinators.length) :
    k'.coordinatorOf h = c := by
  simp [Core.coordinatorOf, a.coordinators, hlt]

/-- Nothing has changed. -/
theorem refl (id : RecordId) (hd : (k.database d).Plain) (hlt : d < k.databases.length)
    (hx : k.records[r]? = some x) (hh : h < k.coordinators.length) :
    Alters d s id r h x.record (k.coordinatorOf h) k k where
  connections := rfl
  maps := rfl
  records := by
    refine List.ext_getElem? fun j => ?_
    rw [List.getElem?_modify]
    by_cases hj : r = j
    · subst hj
      simp [hx]
    · simp [hj]
  coordinators := by
    refine List.ext_getElem? fun j => ?_
    rw [List.getElem?_modify]
    by_cases hj : h = j
    · subst hj
      simp [Core.coordinatorOf, hh]
    · simp [hj]
  databases := ⟨k.database d, by simp [database, hlt], fun hes => ⟨_, .refl id hd hes⟩⟩

theorem trans (a : Alters d s id r h y c k k₁) (a' : Alters d s id r h y' c' k₁ k')
    (hd : d < k.databases.length) : Alters d s id r h y' c' k k' where
  connections := a'.connections.trans a.connections
  maps := a'.maps.trans a.maps
  records := by
    rw [a'.records, a.records, List.modify_modify_eq]
    rfl
  coordinators := by
    rw [a'.coordinators, a.coordinators, List.modify_modify_eq]
    rfl
  databases := by
    obtain ⟨e, he, hrows⟩ := a.databases
    obtain ⟨e', he', hrows'⟩ := a'.databases
    have hdb : k₁.database d = e := by simp [database, he, hd]
    rw [hdb] at hrows'
    refine ⟨e', by rw [he', he, List.set_set], fun {es} hes => ?_⟩
    obtain ⟨es₁, hw⟩ := hrows hes
    obtain ⟨es', hw'⟩ := hrows' (hw.edits.holds hes)
    exact ⟨es', hw.trans hw'⟩

/-- What is changed and put back looks as it did, where it changed and elsewhere. -/
theorem mapMemory_back (a : Alters d s id r h y c k k₁)
    (hv : v.mapMemory f g = k₁.mapMemory f g) (a' : Alters d s id r h y' c' v v')
    (hx : k.records[r]? = some x) (hy : f y' = f x.record)
    (hc : g c' = g (k.coordinatorOf h)) (hdb : v'.databases = k.databases) :
    v'.mapMemory f g = k.mapMemory f g := by
  have hconnections := congrArg Core.connections hv
  have hmaps := congrArg Core.maps hv
  have hrecords := congrArg Core.records hv
  have hcoordinators := congrArg Core.coordinators hv
  refine Core.ext hdb (a'.connections.trans (hconnections.trans a.connections)) ?_ ?_
    (a'.maps.trans (hmaps.trans a.maps))
  · refine (congrArg _ a'.coordinators).trans (map_modify_back (a := fun _ => c) ?_ ?_)
    · exact hcoordinators.trans (congrArg _ a.coordinators)
    · intro _ z hz _
      rw [hc, Core.coordinatorOf, hz]
      rfl
  · refine (congrArg _ a'.records).trans
      (map_modify_back (a := fun i => { i with record := y }) ?_ ?_)
    · exact hrecords.trans (congrArg _ a.records)
    · intro z x' hx' hz
      cases hx.symm.trans hx'
      obtain ⟨-, hconnection, hhub⟩ := Resident.mk.inj hz
      simp only [hconnection, hhub, hy]

end Alters

end Core

/-! ## Rows -/

/-- New values under a key are the old ones if a record has both as its baselines. -/
theorem Database.Rewrites.eq_of_agrees {d d' : Database} {s : Schema} {id : RecordId}
    {es es' : List Shelved} (hw : d.Rewrites s id es d' es') (hd : d.Plain) (hes : d.Holds s es)
    {x : Record} (hx : x.Intact) (hs : x.schema = s) {image image' : RowImage}
    (hi : stored? es id = some image) (hi' : stored? es' id = some image')
    (ha : image.Agrees s x.slots) (ha' : image'.Agrees s x.slots) : d' = d := by
  subst hs
  have hlength : ∀ {es : List Shelved} {y}, Shelf x.schema es → stored? es id = some y →
      y.values.length = x.schema.fields.length := fun hshelf hy => (hshelf.stored_fits hy).length
  obtain ⟨f, hfid, hfparent, hf⟩ := hw.rows
  have hfi : image' = f image := by
    rw [hf, stored?_revise hfid, if_pos rfl, hi] at hi'
    exact (Option.some.inj hi').symm
  have hsame : image' = image := by
    refine RowImage.ext_value? hx.proper (hlength hw.shelf hi') (hlength hes.shelf hi)
      (hfi ▸ hfid image) (hfi ▸ hfparent image) fun field hfield => ?_
    obtain ⟨t, ht, rfl⟩ := hx.slot_of_field hfield
    exact (ha' t ht).trans (ha t ht).symm
  have hrows := Rewritten.eq_of_stored hw.rows hes.shelf.ids (hi'.trans (hsame ▸ hi.symm))
  rw [hw.database, hrows, hes.shelve_self hd]

namespace Outlook

open LiveRecords.Core

variable {o : Outlook} {apart : RecordRef → Prop} {k k₁ v v' : Core} {m : MapRef} {s : Schema}
  {id : RecordId} {r : RecordRef} {h : HubRef} {x : Resident} {y y' : Record}
  {c c' : Coordinator} {f : Record → Record} {g : Coordinator → Coordinator}

/-- An operation on a record that writes values of its row. -/
theorem Sees.alters (hx : o.Sees k m s id r x)
    (hc : k.connections[o.connection]? = some o.database) {d : Database} (e : Effect)
    (hrows : ∀ {es}, (k.database o.database).Holds s es →
      ∃ es', (k.database o.database).Rewrites s id es d es') :
    Alters o.database s id r x.hub e.record (Notice.told e.notices r (k.coordinatorOf x.hub)) k
      ((k.setDatabase o.connection d).impose r e) where
  connections := by rw [impose_connections, setDatabase_connections]
  maps := by rw [impose_maps, setDatabase_maps]
  records := by
    rw [impose_of_some (by rw [setDatabase_records]; exact hx.record), tell_records, setRecord,
      setDatabase_records]
  coordinators := by
    rw [impose_of_some (by rw [setDatabase_records]; exact hx.record)]
    show ((k.setDatabase o.connection d).setRecord r e.record).coordinators.modify x.hub _ = _
    rw [setRecord, setDatabase_coordinators]
    refine List.ext_getElem? fun j => ?_
    rw [List.getElem?_modify, List.getElem?_modify]
    by_cases hj : x.hub = j
    · subst hj
      cases hk : k.coordinators[x.hub]? <;> simp [coordinatorOf, hk]
    · simp [hj]
  databases := ⟨d, by rw [impose_databases, setDatabase, hc], hrows⟩

/-- A record that was changed and has its baselines back has its row back. -/
theorem Faithful.databases_back (hk : o.Faithful apart k) (hv' : o.Faithful apart v')
    (hx : o.Sees k m s id r x) (hr : ¬apart r) (hs : k.Sound) (hs' : v'.Sound) (ho : o.Sole)
    (hlast : k.Precedes o.last) (hnew : x.record.isNew = false)
    (a : Alters o.database s id r h y c k k₁) (hdb : v.databases = k₁.databases)
    (a' : Alters o.database s id r h y' c' v v') (hx' : o.Sees v' m s id r { x with record := y' })
    (hslots : y'.slots = x.record.slots) (hnew' : y'.isNew = false) :
    v'.databases = k.databases := by
  obtain ⟨-, hlt⟩ := hx.types.connection ho hs hlast
  obtain ⟨hid, hschema, -⟩ := hx.of hs
  obtain ⟨es, hes⟩ := hk.holds hx.types
  obtain ⟨e, he, hrows⟩ := a.databases
  obtain ⟨e', he', hrows'⟩ := a'.databases
  have hset : v'.databases = k.databases.set o.database e' := by
    rw [he', hdb, he, List.set_set]
  have hdv : v.database o.database = e := by simp [Core.database, hdb, he, hlt]
  have hdv' : v'.database o.database = e' := by simp [Core.database, hset, hlt]
  obtain ⟨es₁, hw⟩ := hrows hes
  rw [hdv] at hrows'
  obtain ⟨es', hw'⟩ := hrows' (hw.edits.holds hes)
  have hall := hw.trans hw'
  obtain ⟨image, hi, hagree⟩ := (hk.aligned hx hr).stored hnew
  obtain ⟨image', hi', hagree'⟩ := (hv'.aligned hx' hr).stored hnew'
  have hproper := hx.types.proper hs
  rw [hes.image? hproper] at hi
  rw [hdv', (hall.edits.holds hes).image? hproper] at hi'
  have hback : e' = k.database o.database :=
    hall.eq_of_agrees hk.plain hes (hk.intact hx) hschema hi hi' (hschema ▸ hagree)
      ((hx'.of hs').2.1 ▸ hslots ▸ hagree')
  rw [hset, hback, Core.database, List.getElem?_eq_getElem hlt]
  exact List.set_getElem_self hlt

end Outlook

end LiveRecords
