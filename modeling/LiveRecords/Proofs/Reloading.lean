import LiveRecords.Proofs.Durability
import LiveRecords.Proofs.Finding
import LiveRecords.Proofs.Freeing
import LiveRecords.Proofs.Granting

/-!
# What is written and loaded again

A value that is set is what the record holds, before and after a commit. A commit
that succeeds leaves the record at rest: the row under its key, where there is one,
has the value. So does the record that is made of that row when the first one was
let go and its key is loaded.
-/

namespace LiveRecords

namespace Record

variable {x : Record} {f : Field} {v : Value} {l : Link} {name : String}

theorem slot_of_field (hfields : x.slots.map (·.field) = x.schema.fields)
    (hf : f ∈ x.schema.fields) : ∃ t ∈ x.slots, t.field = f := by
  rw [← hfields] at hf
  exact List.mem_map.mp hf

theorem get_eq_ok (hn : (x.slots.map (·.name)).Nodup) :
    x.get name = .ok v ↔ ∃ t ∈ x.slots, t.name = name ∧ t.current = v := by
  constructor
  · intro h
    rw [get_eq] at h
    split at h
    · next u hu =>
      obtain ⟨t, ht, rfl⟩ := Option.map_eq_some_iff.mp hu
      have hname : t.name = name := by simpa using List.find?_some ht
      exact ⟨t, List.mem_of_find?_eq_some ht, hname, Except.ok.inj h⟩
    · cases h
  · rintro ⟨t, ht, rfl, rfl⟩
    rw [get_eq, slot?_of_mem hn ht]
    rfl

/-- A value that fits can be set, and is what the record holds then. -/
theorem get_set (hp : x.schema.Proper) (hfields : x.slots.map (·.field) = x.schema.fields)
    (hf : f ∈ x.schema.fields) (hv : v.fits f.type f.notNull = true) :
    ∃ b, (x.set f.name v).1 = .ok b ∧ (x.set f.name v).2.record.get f.name = .ok v := by
  have hn := nodup_of_fields hp hfields
  obtain ⟨t, ht, rfl⟩ := slot_of_field hfields hf
  have hslot : x.slotOf t.field.name = .ok t := by
    rw [slotOf, show x.slot? t.field.name = some t from slot?_of_mem hn ht]
  by_cases hsame : t.current = v
  · refine ⟨false, ?_, ?_⟩
    all_goals simp only [Record.set, hslot, hv, hsame, Bool.not_true, Bool.false_eq_true, if_false,
      if_true]
    exact (get_eq_ok hn).mpr ⟨t, ht, rfl, hsame⟩
  · have hset : x.set t.field.name v = (.ok true, { x.setSlot (t.assign v) with redo := [] }.effect
        (List.replicate x.redo.length (.lost .redo)) [.field t.field.name]) := by
      simp only [Record.set, hslot, hv, hsame, Bool.not_true, Bool.false_eq_true, if_false]
    have hnames : ((x.setSlot (t.assign v)).slots.map (·.name)) = x.slots.map (·.name) := by
      rw [setSlot, List.map_map]
      refine List.map_congr_left fun u _ => ?_
      show (if u.name = t.name then t.assign v else u).name = u.name
      split
      · next hu => exact hu.symm
      · rfl
    rw [hset]
    refine ⟨true, rfl, (get_eq_ok (hnames ▸ hn)).mpr ⟨t.assign v, ?_, rfl, rfl⟩⟩
    exact List.mem_map.mpr ⟨t, ht, if_pos rfl⟩

/-- A commit changes no value that a record holds, whatever it writes. -/
theorem commit_altered (x : Record) (l : Link) :
    altered x.slots (x.commit l).1.2.record.slots = [] := by
  unfold commit
  split
  · unfold commitRow
    split
    · exact altered_self _
    · exact altered_settle x.slots
  · have haltered := writeDirty_altered x.schema x.id x.slots l
    unfold commitFields
    dsimp only
    split <;> exact haltered

theorem get_commit (hx : x.Coherent) (l : Link) (name : String) :
    (x.commit l).1.2.record.get name = x.get name := by
  by_contra hne
  have hmem := ((kindred_turn hx (.asked .commit l)).mem_altered name).mpr (Ne.symm hne)
  have haltered : altered x.slots (x.turn (.asked .commit l)).record.slots = [] :=
    x.commit_altered l
  rw [haltered] at hmem
  cases hmem

/-- A value that is set is held whatever came before, rows that others wrote and failures
included, and a commit does not change that. -/
theorem Lived.get_set (hx : x.Lived) (hf : f ∈ x.schema.fields)
    (hv : v.fits f.type f.notNull = true) :
    ∃ b e, x.set f.name v = (.ok b, e) ∧ e.record.get f.name = .ok v ∧
      ∀ l, (e.record.commit l).1.2.record.get f.name = .ok v := by
  have hcoherent := hx.coherent
  obtain ⟨b, hb, hget⟩ := Record.get_set hcoherent.proper hcoherent.fields hf hv
  refine ⟨b, (x.set f.name v).2, Prod.ext hb rfl, hget, fun l => ?_⟩
  rw [get_commit (hcoherent.set f.name v) l]
  exact hget

/-- A commit that succeeds leaves a record without an edit that is stored. -/
structure Rested (x y : Record) : Prop where
  slots : y.slots = x.slots.map Slot.settle
  isNew : y.isNew = false
  kept : y.deletePending = false

theorem rested_commit (hx : x.Intact) {out : CommitOutcome} (h : (x.commit l).1.1 = .ok out) :
    x.Rested (x.commit l).1.2.record := by
  cases hs : x.isNew || x.deletePending with
  | true =>
    have hcommit : x.commit l = x.commitRow l := if_pos hs
    rw [hcommit] at h ⊢
    unfold commitRow at h ⊢
    split at h
    · cases h
    · exact ⟨rfl, rfl, rfl⟩
  | false =>
    have hcommit : x.commit l = x.commitFields l := if_neg (Bool.not_eq_true _ ▸ hs)
    rw [hcommit] at h ⊢
    obtain ⟨hnew, hkept⟩ := Bool.or_eq_false_iff.mp hs
    obtain ⟨hclean, -, hsame, -⟩ | ⟨-, -, hsaved, -⟩ := commitFields_of_success hx h
    · rw [hsame]
      refine ⟨?_, hnew, hkept⟩
      have hsettled : x.slots.map Slot.settle = x.slots.map (fun t => t) :=
        List.map_congr_left fun t ht => Slot.settle_of_clean (hx.slots t ht).dirty (hclean t ht)
      rw [hsettled, List.map_id']
    · rw [hsaved]
      exact ⟨rfl, hnew, hkept⟩

theorem Rested.unedited {y : Record} (h : x.Rested y) : y.Unedited := by
  intro t ht
  rw [h.slots] at ht
  obtain ⟨u, -, rfl⟩ := List.mem_map.mp ht
  rfl

theorem Rested.names_nodup {y : Record} (h : x.Rested y) (hn : (x.slots.map (·.name)).Nodup) :
    (y.slots.map (·.name)).Nodup := by
  rw [h.slots, List.map_map]
  exact hn

theorem Rested.get {y : Record} (h : x.Rested y) (hn : (x.slots.map (·.name)).Nodup)
    (hx : x.get name = .ok v) : y.get name = .ok v := by
  obtain ⟨t, ht, hname, hv⟩ := (get_eq_ok hn).mp hx
  refine (get_eq_ok (h.names_nodup hn)).mpr ⟨t.settle, ?_, hname, hv⟩
  rw [h.slots]
  exact List.mem_map_of_mem ht

/-- A record that is made of a row has the values of the row. -/
theorem get_hydrate_initial {s : Schema} (hs : s.Proper) {image : RowImage} (hi : image.Fits s)
    (hf : f ∈ s.fields) (hv : image.value? s f.name = some v) (id : RecordId) :
    ((Record.initial id s false).hydrate image).record.get f.name = .ok v := by
  have hx : (Record.initial id s false).Intact := initial_intact hs false
  have hclean : ∀ t ∈ (Record.initial id s false).slots, ¬t.dirty = true := by
    intro t ht
    obtain ⟨g, -, rfl⟩ := List.mem_map.mp ht
    exact Bool.false_ne_true
  have haligned := hydrate_aligned (b := false) hx hi (fun h => nomatch h)
    fun _ t ht hd => absurd hd (hclean t ht)
  have hy := hx.hydrate hi
  have hrecord : ((Record.initial id s false).hydrate image).record =
      { Record.initial id s false with
        slots := (takeIn (Record.initial id s false).slots image.values).1
        parent := image.parent } := record_setParent _ image.parent
  rw [hrecord] at haligned hy ⊢
  obtain ⟨row, hrow, hagrees⟩ := haligned.stored rfl
  obtain rfl := Option.some.inj hrow
  obtain ⟨t, ht, rfl⟩ := slot_of_field hy.fields hf
  have hstill : t.dirty = false := by
    have hany := takeIn_dirty (Record.initial id s false).slots image.values
    rw [List.any_eq_false.mpr hclean] at hany
    exact Bool.not_eq_true _ ▸ List.any_eq_false.mp hany t ht
  refine (get_eq_ok (names_nodup hy.toShaped)).mpr ⟨t, ht, rfl, ?_⟩
  rw [(hy.slots t ht).current_eq hstill]
  exact Option.some.inj ((hagrees t ht).symm.trans hv)

end Record

namespace Core

/-- A row that is taken in under a key without a record becomes one, as nobody answers. -/
theorem TakenIn.fresh {k k' : Core} {m : MapRef} {map : IdentityMap} {answered : RecordRef → Prop}
    {image : RowImage} (h : TakenIn m answered [image] k k') (hm : k.maps[m]? = some map)
    (hnone : map.registered.lookup image.id = none) (hidle : ¬answered k.records.length) :
    k' = (k.enrol m map image.id false).impose k.records.length
      ((Record.initial image.id map.schema false).hydrate image) := by
  cases h with
  | @cons _ _ _ _ cs _ _ _ _ hmeets hi hasked hans hrest =>
    cases hrest
    obtain ⟨map', hm', ⟨hlookup, -⟩ | ⟨-, rfl, rfl⟩⟩ := hmeets <;> cases hm.symm.trans hm'
    · cases hnone.symm.trans hlookup
    · rw [records_enrol_self] at hi
      cases hi
      obtain rfl : cs = [] := by
        by_contra hcs
        exact hidle (hans hcs)
      exact hasked.eq_of_nil

end Core

namespace Workspace

open LiveRecords.Core

variable {w : Workspace} {m : MapRef} {map : IdentityMap} {id : RecordId} {image : RowImage}

/-- A row that is read by a key without a record in memory becomes a new record. -/
theorem load_makes (hs : w.core.Sound) (hmap : w.maps[m]? = some map)
    (hsel : ((w.link map.connection).selectOne map.schema id).1 = .ok (some image))
    (hnone : w.registered? m id = none) :
    ∃ r i, (w.load m id).1 = .ok (some r) ∧
      (w.load m id).2.Finds map.connection map.schema id r i ∧
      i.record = ((Record.initial id map.schema false).hydrate image).record := by
  obtain ⟨r, hr, htakes, hl⟩ := load_takesIn hs hmap hsel
  obtain rfl : image.id = id := Link.selectOne_id hsel
  have hs' := hs.takenIn htakes.taken
  have hfresh : ¬0 < w.armed w.core.records.length := by
    rw [armed, List.getElem?_eq_none (by simp [core])]
    exact Nat.lt_irrefl 0
  rw [registered?, hmap, Option.bind_some] at hnone
  have hcore := htakes.taken.fresh hmap hnone hfresh
  have hlists : (w.load m image.id).2.core.Lists m image.id w.core.records.length := by
    rw [hcore]
    exact ((lists_enrol hmap).mpr (.inr ⟨rfl, rfl, rfl⟩)).of_maps (impose_maps _ _ _)
  obtain rfl := hs'.record_unique hl hlists
  have hrecord := records_impose_self (records_enrol_self w.core m map image.id false)
    ((Record.initial image.id map.schema false).hydrate image)
  rw [← hcore] at hrecord
  obtain ⟨i, hi, hresident⟩ := instance_of_core hrecord
  obtain ⟨map', hm', hlike⟩ := map_of_shape htakes.taken.stays.frame.shape hmap
  exact ⟨_, i, hr,
    ⟨⟨m, map', hm', hlike.connection, hlike.schema, registered_of_lists hs' hl⟩, hi⟩,
    congrArg Resident.record hresident⟩

/-! ## Setting and committing -/

/-- A commit with this outcome wrote a field: with the whole row, or in a row that there
was. -/
def Puts (w : Workspace) (c : ConnectionRef) (s : Schema) (id : RecordId) (field : String) :
    Record.CommitOutcome → Prop
  | .inserted => True
  | .updated fields => field ∈ fields ∧ ((w.databaseOf c).image? s id).isSome
  | .unchanged => False

section Tended

variable {o : Outlook} {unread : RecordRef → Prop} {s : Schema} {r : RecordRef} {x : Resident}
  {f : Field} {v : Value} {out : Record.CommitOutcome}

/-- A value that fits is set, and the record holds it. -/
theorem Tended.set_gets (h : Tended o unread w) (hx : o.Sees w.core m s id r x)
    (hf : f ∈ s.fields) (hv : v.fits f.type f.notNull = true)
    (hq : w.Unanswered r (.set f.name v)) :
    ∃ b y, (w.run r (.set f.name v)).1 = .ok (.flag b) ∧
      Tended o unread (w.run r (.set f.name v)).2 ∧
      o.Sees (w.run r (.set f.name v)).2.core m s id r y ∧ y.record.get f.name = .ok v := by
  obtain ⟨l, -, hreply, hcore, -⟩ := h.run_unanswered hx hq
  obtain ⟨h₁, hx₁, -⟩ := h.after hx hcore
  obtain ⟨hid, hschema, -⟩ := hx.of h.sound
  have hintact := h.faithful.intact hx
  obtain ⟨b, hb, hget⟩ := Record.get_set hintact.proper hintact.fields (hschema.symm ▸ hf) hv
  refine ⟨b, _, ?_, h₁, hx₁, hget⟩
  rw [← hreply, Record.run, hb]
  rfl

/-- A record that was committed is at rest. -/
theorem Tended.commit_rests (h : Tended o unread w) (hx : o.Sees w.core m s id r x)
    (hq : w.Unanswered r .commit) (hok : (w.run r .commit).1 = .ok (.committed out)) :
    ∃ y, Tended o unread (w.run r .commit).2 ∧ o.Sees (w.run r .commit).2.core m s id r y ∧
      x.record.Rested y.record := by
  obtain ⟨l, -, hreply, hcore, -⟩ := h.run_unanswered hx hq
  obtain ⟨h₁, hx₁, -⟩ := h.after hx hcore
  rw [hok] at hreply
  obtain ⟨out', hout, heq⟩ := map_eq_ok.mp hreply
  exact ⟨_, h₁, hx₁, Record.rested_commit (h.faithful.intact hx) hout⟩

/-- What was committed is in the row: what the commit wrote, and what the record took for
stored if it was read. -/
theorem Tended.commit_stores (h : Tended o unread w) (hx : o.Sees w.core m s id r x)
    (hq : w.Unanswered r .commit) (hok : (w.run r .commit).1 = .ok (.committed out))
    (hget : x.record.get f.name = .ok v)
    (hputs : unread r → w.Puts o.connection s id f.name out) :
    ∃ image, ((w.run r .commit).2.databaseOf o.connection).image? s id = some image ∧
      image.value? s f.name = some v := by
  obtain ⟨y, h₁, hy, hrested⟩ := h.commit_rests hx hq hok
  have hnames := Record.names_nodup (h.faithful.intact hx).toShaped
  obtain ⟨t, ht, hname, hv⟩ := (Record.get_eq_ok (hrested.names_nodup hnames)).mp
    (hrested.get hnames hget)
  have hshown {image : RowImage} {fields : List String}
      (himage : image.Shows s y.record.slots fields) (hf : f.name ∈ fields) :
      image.value? s f.name = some v := by
    rw [← hname, ← hv]
    exact himage t ht (hname.symm ▸ hf)
  by_cases hr : unread r
  · cases out with
    | inserted =>
      obtain ⟨y', image, hy', himage, hshows⟩ := h.insert_stores hx hq hok
      cases hy.record.symm.trans hy'.record
      exact ⟨image, himage, hshown (hshows [f.name]) List.mem_cons_self⟩
    | updated fields =>
      obtain ⟨hf, hrow⟩ := hputs hr
      obtain ⟨y', hy', hsome, hshows⟩ := h.update_stores hx hq hok
      cases hy.record.symm.trans hy'.record
      rw [hrow, Option.isSome_iff_exists] at hsome
      obtain ⟨image, himage⟩ := hsome
      exact ⟨image, himage, hshown (hshows image himage) hf⟩
    | unchanged => exact (hputs hr).elim
  · -- A record that was read agrees with its row, and has no edit left.
    obtain ⟨image, himage, hagrees⟩ := (h₁.faithful.aligned hy hr).stored hrested.isNew
    rw [← h₁.databaseOf hy.types] at himage
    have hschema := (hy.of h₁.sound).2.1
    have hclean : ∀ t ∈ y.record.slots, t.current = t.baseline := fun t ht =>
      ((h₁.faithful.intact hy).slots t ht).current_eq (hrested.unedited t ht)
    have hshows := Record.shows_of_agrees hagrees hclean [f.name]
    rw [hschema] at hshows
    exact ⟨image, himage, hshown hshows List.mem_cons_self⟩

end Tended

/-! ## Letting go and loading -/

/-- Where nobody else holds a record, it is let go, and the record that comes into being
when its key is loaded is of a kind. -/
def Returns (w : Workspace) (c : ConnectionRef) (s : Schema) (id : RecordId) (r : RecordRef)
    (P : Record → Prop) : Prop :=
  ∀ {map record : String} {m : MapRef}, w.mapNames.lookup map = some m →
    w.registered? m id = some r → w.handle? record = some r →
    (w.letGo record).isHeld r = false → w.Unrefused c →
    (w.perform (.release map record)).1 = .ok (.flag true) ∧
      ∀ {name : String} (as : Option String),
        (w.perform (.release map record)).2.mapNames.lookup name = some m →
        ∃ r' i, ((w.perform (.release map record)).2.perform (.load name id as)).1 =
            .ok (.found (some r')) ∧
          ((w.perform (.release map record)).2.perform (.load name id as)).2.Finds c s id r' i ∧
          P i.record

section Returns

variable {o : Outlook} {unread : RecordRef → Prop} {s : Schema} {r r' : RecordRef} {x : Resident}
  {c : ConnectionRef} {i : Instance}

theorem Finds.holdAs (h : w.Finds c s id r i) (as : Option String) :
    (w.holdAs as r').Finds c s id r i := by
  cases as <;> exact ⟨h.registered, h.record⟩

/-- A record without a staged deletion leaves nothing behind but its row. -/
theorem Frees.single {w' : Workspace} {errors : List StoreError} (h : Frees w w' m [r] errors)
    (hm : w.maps[m]? = some map) (hi : w.records[r]? = some i)
    (hkept : i.record.deletePending = false) :
    errors = [] ∧ Link.Alike (w'.link map.connection) (w.link map.connection) := by
  have hstaged : w.staged [r] = [] := by simp [staged, hi, hkept]
  have herrors := h.errors hm
  have hlink := h.link hm
  rw [hstaged] at herrors hlink
  exact ⟨herrors, hlink⟩

theorem Frees.unregistered {w' : Workspace} {errors : List StoreError}
    (h : Frees w w' m [r] errors) (hreg : w.registered? m id = some r) :
    w'.registered? m id = none := by
  cases hr : w'.registered? m id with
  | none => rfl
  | some r' =>
    obtain ⟨hr, hne⟩ := h.registered.mp hr
    cases hreg.symm.trans hr
    exact absurd List.mem_cons_self (hne rfl)

/-- A row that is stored is read by its key where no statement is refused. -/
theorem Tended.reads (h : Tended o unread w) (ht : o.Types w.core m s) {l : Link}
    (hl : Link.Alike l (w.link o.connection)) (hu : w.Unrefused o.connection)
    (himage : (w.databaseOf o.connection).image? s id = some image) :
    (l.selectOne s id).1 = .ok (some image) ∧ image.Fits s := by
  obtain ⟨es, hes, hstored⟩ := h.holds ht
  have hrow : stored? es id = some image := (hstored id).symm.trans himage
  obtain ⟨e, he, -⟩ := Option.map_eq_some_iff.mp hrow
  have hnamed : s.Named := hes.shelf.named (List.ne_nil_of_mem (mem_of_shelved? he).1)
  have hsame : l.database = w.core.database o.database := hl.database.trans (h.databaseOf ht)
  have hnext : l.outage l.stats.total = none := by
    rw [hl.outage, hl.stats]
    exact hu _ (Nat.le_refl _)
  refine ⟨?_, hes.shelf.stored_fits hrow⟩
  rw [Link.selectOne_eq (hsame ▸ hes) (ht.proper h.sound) (h.sole.unnumbered (ht.ahead h.ahead))
    hnamed hnext, hrow]

theorem perform_load_found {name : String} (hm : w.mapNames.lookup name = some m)
    (hok : (w.load m id).1 = .ok (some r)) (as : Option String) :
    w.perform (.load name id as) = (.ok (.found (some r)), (w.load m id).2.holdAs as r) := by
  have hpair : w.load m id = (.ok (some r), (w.load m id).2) := Prod.ext hok rfl
  simp only [perform, withMap, hm]
  rw [hpair, answerHeld]

/-- A record without a staged deletion whose row is stored comes back with the values of
the row. -/
theorem Tended.returns (h : Tended o unread w) {m₀ : MapRef} (hx : o.Sees w.core m₀ s id r x)
    (hkept : x.record.deletePending = false)
    (himage : (w.databaseOf o.connection).image? s id = some image) {f : Field} {v : Value}
    (hf : f ∈ s.fields) (hv : image.value? s f.name = some v) :
    w.Returns o.connection s id r fun y => y.get f.name = .ok v := by
  intro name record m hname hreg hrecord hheld hunrefused
  obtain ⟨rfl, -⟩ := h.sound.key_unique (lists_of_registered hreg) hx.lists
  have hproper := hx.types.proper h.sound
  obtain ⟨map, hmap, hconn, hschema⟩ := hx.types
  have hmap : w.maps[m]? = some map := hmap
  obtain ⟨i, hi, rfl⟩ := instance_of_core hx.record
  obtain ⟨errors, hfrees, hreply⟩ :=
    (freesExactly h.sound h.holding).released hname hrecord hreg hheld
  obtain ⟨rfl, halike⟩ := hfrees.single hmap hi hkept
  refine ⟨hreply, fun {name'} as hname' => ?_⟩
  have hsuits : (Action.release name record).Suits True := .of_sharesHub rfl
  have hsound := (perform_acts h.sound h.holding hsuits).sound h.sound
  have hprecedes := perform_precedes h.sound h.holding hsuits
  generalize (w.perform (.release name record)).2 = w' at *
  obtain ⟨map', hmap', hlike⟩ := hprecedes.map hmap
  have hconn' : map'.connection = o.connection := hlike.connection.symm.trans hconn
  have hschema' : map'.schema = s := hlike.schema.symm.trans hschema
  rw [hconn] at halike
  obtain ⟨hsel, hfits⟩ := h.reads hx.types halike hunrefused himage
  obtain ⟨r', j, hok, hfinds, hj⟩ := load_makes hsound hmap'
    (by rw [hconn', hschema']; exact hsel) (hfrees.unregistered hreg)
  rw [hconn', hschema'] at hfinds
  rw [perform_load_found hname' hok]
  refine ⟨r', j, rfl, hfinds.holdAs as, ?_⟩
  rw [hj, hschema']
  exact Record.get_hydrate_initial hproper hfits hf hv id

end Returns

/-! ## From setting to loading -/

/-- A record is of a kind, still is when it was committed, and is again when it was let go
after that and its key is loaded, if the outcome of the commit was such that it is stored. -/
structure Survives (w : Workspace) (c : ConnectionRef) (s : Schema) (id : RecordId)
    (r : RecordRef) (stored : Record.CommitOutcome → Prop) (P : Record → Prop) : Prop where
  held : ∃ i, w.Finds c s id r i ∧ P i.record
  committed : ∀ {out}, w.Unanswered r .commit → (w.run r .commit).1 = .ok (.committed out) →
    (∃ i, (w.run r .commit).2.Finds c s id r i ∧ P i.record) ∧
      (stored out → (w.run r .commit).2.Returns c s id r P)

variable {o : Outlook} {unread : RecordRef → Prop} {s : Schema} {r : RecordRef} {x : Resident}
  {c : ConnectionRef} {d : DatabaseRef} {f : Field} {v : Value} {i : Instance}
  {stored : Record.CommitOutcome → Prop} {P Q : Record → Prop}

theorem Returns.mono (h : w.Returns c s id r P) (hPQ : ∀ x, P x → Q x) : w.Returns c s id r Q := by
  intro map record m hmap hreg hrecord hheld hunrefused
  obtain ⟨hreleased, hloads⟩ := h hmap hreg hrecord hheld hunrefused
  refine ⟨hreleased, fun as hname => ?_⟩
  obtain ⟨r', i, hok, hi, hP⟩ := hloads as hname
  exact ⟨r', i, hok, hi, hPQ _ hP⟩

theorem Survives.mono (h : w.Survives c s id r stored P) (hPQ : ∀ x, P x → Q x) :
    w.Survives c s id r stored Q where
  held := by
    obtain ⟨i, hi, hP⟩ := h.held
    exact ⟨i, hi, hPQ _ hP⟩
  committed hq hok := by
    obtain ⟨⟨i, hi, hP⟩, hreturns⟩ := h.committed hq hok
    exact ⟨⟨i, hi, hPQ _ hP⟩, fun hout => Returns.mono (hreturns hout) hPQ⟩

theorem Tended.survives (h : Tended o unread w) (hx : o.Sees w.core m s id r x) (hf : f ∈ s.fields)
    (hget : x.record.get f.name = .ok v) :
    Survives w o.connection s id r (fun out => unread r → w.Puts o.connection s id f.name out)
      fun y => y.get f.name = .ok v where
  held := by
    obtain ⟨i, hi, rfl⟩ := finds_of_sees h.sound hx
    exact ⟨i, hi, hget⟩
  committed := by
    intro out hq hok
    obtain ⟨y, h₁, hy, hrested⟩ := h.commit_rests hx hq hok
    have hnames := Record.names_nodup (h.faithful.intact hx).toShaped
    obtain ⟨i, hi, rfl⟩ := finds_of_sees h₁.sound hy
    refine ⟨⟨i, hi, hrested.get hnames hget⟩, fun hputs => ?_⟩
    obtain ⟨image, himage, hvalue⟩ := h.commit_stores hx hq hok hget hputs
    exact h₁.returns hy hrested.kept himage hf hvalue

/-- In every state of a run in which a connection is the only writer of its database,
whatever failed before: a value that fits is set, and the record has it from then on. It has
it when it was committed, and again when it was let go after that and is loaded, unless it
was made up, has not been read since and its commit wrote the field in no row. -/
theorem survives_of_run (hb : Boots w) {actions : List Action}
    (ha : Follows (Action.Private d) w actions) (hc : (w.performAll actions).SoleWriter c d)
    (hd : (w.performAll actions).Prepared c (w.core.database d))
    (hx : (w.performAll actions).Finds c s id r i) (hf : f ∈ s.fields)
    (hv : v.fits f.type f.notNull = true)
    (hq : (w.performAll actions).Unanswered r (.set f.name v)) :
    ∃ b, ((w.performAll actions).run r (.set f.name v)).1 = .ok (.flag b) ∧
      ((w.performAll actions).run r (.set f.name v)).2.Survives c s id r
        (fun out => Unread w actions r →
          ((w.performAll actions).run r (.set f.name v)).2.Puts c s id f.name out)
        fun y => y.get f.name = .ok v := by
  have h := tended_of_run hb ha hc hd
  obtain ⟨m, hsees⟩ := Finds.sees (o := (w.performAll actions).outlook c d false) hx
  obtain ⟨b, y, hb, h₁, hy, hget⟩ := h.set_gets hsees hf hv hq
  exact ⟨b, hb, h₁.survives hy hf hget⟩

end Workspace

end LiveRecords
