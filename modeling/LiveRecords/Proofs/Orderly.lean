import LiveRecords.Proofs.Faithful

/-!
# Orderly deeds

Which deeds keep the records of a connection faithful: commands and reading
always do, and so does whatever goes on elsewhere. New records, parents and
changes past the records do where a program keeps to its part.
-/

namespace LiveRecords.Outlook

open LiveRecords.Core

variable {o : Outlook} {apart apart' : RecordRef → Prop} {k k' : Core} {m m' : MapRef}
  {s s' : Schema} {id id' : RecordId} {r : RecordRef} {x : Resident} {map : IdentityMap}

/-- No rows of the connection change but those under the keys of a record. -/
def Spares (o : Outlook) (r : RecordRef) (k k' : Core) : Prop :=
  ∀ {m s id}, o.Types k m s → ¬k.Lists m id r →
    (k'.database o.database).image? s id = (k.database o.database).image? s id

/-- Tables that are of no record type of the connection stay. -/
def Leaves (o : Outlook) (k k' : Core) : Prop :=
  ∀ name, (∀ m s, o.Types k' m s → sameName s.table name = false) →
    (k'.database o.database).table? name = (k.database o.database).table? name

/-- At most one row of the connection is written, under the key of a record. -/
structure Saves (o : Outlook) (r : RecordRef) (k k' : Core) : Prop where
  rows : ∀ {m s es}, o.Types k m s → (k.database o.database).Holds s es →
    ∃ es', (k'.database o.database).Holds s es' ∧
      (es' = es ∨ ∃ id, k.Lists m id r ∧ Saved id es es')
  tables : o.Leaves k k'

theorem types_of_shape (hm : k'.shape = k.shape) (h : o.Types k' m s) : o.Types k m s := by
  obtain ⟨map, hmap, hc, hs⟩ := h
  obtain ⟨old, hold, hlike⟩ := map_of_shape hm.symm hmap
  exact ⟨old, hold, hlike.connection.trans hc, hlike.schema.trans hs⟩

theorem types_of_maps (hm : k'.maps = k.maps) (h : o.Types k' m s) : o.Types k m s :=
  types_of_shape (shape_of_maps hm) h

theorem Sees.of_maps (h : o.Sees k' m s id r x) (hm : k'.maps = k.maps)
    (hr : k'.records[r]? = k.records[r]?) : o.Sees k m s id r x :=
  ⟨types_of_maps hm h.types, h.lists.of_maps hm.symm, hr ▸ h.record⟩

/-! ## Commands -/

/-- A command on a record of the connection. -/
theorem Faithful.ownCommand (h : o.Faithful apart k) (ho : o.Sole) (hk : k.Precedes o.last)
    (hs : k.Sound) {l : Link} (hx : o.Sees k m s id r x)
    (hdb : l.database = k.database o.database) (c : Record.Command)
    (hmaps : k'.maps = k.maps) (hdb' : k'.database o.database = (x.record.run l c).2.database)
    (hself : k'.records[r]? = some { x with record := (x.record.run l c).1.2.record })
    (hne : ∀ j, j ≠ r → k'.records[j]? = k.records[j]?) :
    o.Faithful apart k' ∧ o.Saves r k k' := by
  obtain ⟨hid, hschema, -⟩ := hx.of hs
  obtain ⟨es, hes⟩ := h.holds hx.types
  have hproper := hx.types.proper hs
  obtain ⟨es', hed, hsaved, ha⟩ := Record.run_edits (b := o.strict) (l := l) (h.intact hx)
    (hdb ▸ h.plain) (hschema ▸ hdb ▸ hes) (hschema ▸ ho.unnumbered (hx.types.ahead hk)) c
  rw [hdb, hid, hschema, ← hdb'] at hed
  rw [hid] at ha hsaved
  refine ⟨h.edit ho hk hs hx.types hes hed (types_of_maps hmaps) ?_ ?_, ?_⟩
  · intro m' s' id' r' x' hx'
    by_cases hr : r' = r
    · subst hr
      exact .inl (hs.key_unique (hx'.lists.of_maps hmaps.symm) hx.lists)
    · refine .inr ⟨?_, hx'.of_maps hmaps (hne r' hr)⟩
      by_cases hmm : m' = m
      · refine .inr fun hid => hr ?_
        subst hmm hid
        exact hs.record_unique (hx'.lists.of_maps hmaps.symm) hx.lists
      · exact .inl hmm
  · intro r' x' hx'
    have hr : r' = r := hs.record_unique (hx'.lists.of_maps hmaps.symm) hx.lists
    subst hr
    have hrec := hx'.record
    rw [hself] at hrec
    cases hrec
    refine ⟨(h.intact hx).run l c, fun hr => ?_⟩
    rw [(hed.holds hes).image? hproper]
    refine ha ?_
    rw [← hes.image? hproper]
    exact h.aligned hx hr
  · refine ⟨fun {m' s' es₁} hm' hes₁ => ?_, fun name hname => ?_⟩
    · by_cases hmm : m' = m
      · subst hmm
        have hss := hm'.unique hx.types
        subst hss
        cases hes₁.unique hproper hes
        exact ⟨es', hed.holds hes, .inr ⟨id, hx.lists, hsaved⟩⟩
      · refine ⟨es₁, ?_, .inl rfl⟩
        rw [hed.database]
        exact hes₁.of_ne hes es'
          (ho.distinct (hx.types.ahead hk) (hm'.ahead hk) (Ne.symm hmm))
    · rw [hed.database]
      exact Database.table?_shelve_of_ne hes es'
        (hname m s (types_of_maps hmaps.symm hx.types))

theorem Faithful.commands (h : o.Faithful apart k) (ho : o.Sole) (hk : k.Precedes o.last)
    (hs : k.Sound) {c : Record.Command} {reply : Except StoreError Record.Reply}
    (hd : Commands r c reply k k') : o.Faithful apart k' ∧ o.Saves r k k' := by
  have hs' := hs.commands hd
  have hmaps := hd.maps
  obtain ⟨x, l, hx, hl, hdb, -, rfl⟩ := hd
  have hx₁ : (k.setDatabase x.connection (x.record.run l c).2.database).records[r]? = some x := by
    rw [setDatabase_records, hx]
  have hself := records_impose_self hx₁ (x.record.run l c).1.2
  have hne : ∀ j, j ≠ r → ((k.setDatabase x.connection (x.record.run l c).2.database).impose r
      (x.record.run l c).1.2).records[j]? = k.records[j]? := fun j hj => by
    rw [records_impose_of_ne _ hj, setDatabase_records]
  by_cases hc : x.connection = o.connection
  · obtain ⟨m, hsees⟩ := sees_of_listed hs hl hx hc
    obtain ⟨hconn, hlt⟩ := hsees.types.connection ho hs hk
    rw [← hc] at hconn
    refine h.ownCommand ho hk hs hsees (hdb.trans (databaseOf_eq hconn)) c hmaps ?_ hself hne
    rw [database_impose, database_setDatabase hconn hlt]
  · obtain ⟨m, id, map, hm, hmem⟩ := hl
    obtain ⟨y, hy, hof⟩ := hs.kept hm hmem
    rw [hx] at hy
    cases hy
    have hmc : map.connection ≠ o.connection := hof.connection ▸ hc
    have hconn : k.connections[x.connection]? ≠ some o.database :=
      hof.connection ▸ ho.elsewhere hk hm hmc
    have hsame : ((k.setDatabase x.connection (x.record.run l c).2.database).impose r
        (x.record.run l c).1.2).database o.database = k.database o.database := by
      rw [database_impose, database_setDatabase_of_ne hconn]
    refine ⟨h.frame hsame (types_of_maps hmaps) fun {m' s' id' r' x'} hx' => ?_, ?_⟩
    · have hr : r' ≠ r := by
        rintro rfl
        have hcx := (hx'.of hs').2.2
        have hrec := hx'.record
        rw [hself] at hrec
        cases hrec
        exact hc hcx
      have hold := hx'.of_maps hmaps (hne r' hr)
      exact ⟨h.intact hold, h.aligned hold⟩
    · exact ⟨fun _ hes => ⟨_, hsame.symm ▸ hes, .inl rfl⟩, fun _ _ => by rw [hsame]⟩

theorem Leaves.refl (k : Core) : o.Leaves k k := fun _ _ => rfl

theorem Leaves.trans {k₁ k₂ : Core} (h : o.Leaves k k₁) (h' : o.Leaves k₁ k₂)
    (hk : k₁.Precedes k₂) : o.Leaves k k₂ := fun name hname =>
  (h' name hname).trans (h name fun m s ht => hname m s (ht.ahead hk))

theorem Saves.refl (r : RecordRef) (k : Core) : o.Saves r k k :=
  ⟨fun _ hes => ⟨_, hes, .inl rfl⟩, .refl k⟩

theorem Saves.trans {k₁ k₂ : Core} (h : o.Saves r k k₁) (hm : k₁.maps = k.maps) (hs : k.Sound)
    (h' : o.Saves r k₁ k₂) (hk : k₁.Precedes k₂) : o.Saves r k k₂ := by
  refine ⟨fun {m s es} ht hes => ?_, h.tables.trans h'.tables hk⟩
  obtain ⟨es₁, hes₁, hfirst⟩ := h.rows ht hes
  obtain ⟨es₂, hes₂, hsecond⟩ := h'.rows (types_of_maps hm.symm ht) hes₁
  refine ⟨es₂, hes₂, ?_⟩
  obtain rfl | ⟨id, hl, hsaved⟩ := hfirst
  · exact hsecond.imp_right fun ⟨id, hl, hsaved⟩ => ⟨id, hl.of_maps hm.symm, hsaved⟩
  · obtain rfl | ⟨id', hl', hsaved'⟩ := hsecond
    · exact .inr ⟨id, hl, hsaved⟩
    · obtain ⟨-, rfl⟩ := hs.key_unique hl (hl'.of_maps hm.symm)
      exact .inr ⟨id, hl, hsaved.trans hsaved'⟩

/-- The rows under other keys are as before. -/
theorem Saves.others (h : o.Saves r k k') {es : List Shelved} (ht : o.Types k m s)
    (hes : (k.database o.database).Holds s es) :
    ∃ es', (k'.database o.database).Holds s es' ∧
      ∀ id, ¬k.Lists m id r → shelved? es' id = shelved? es id := by
  obtain ⟨es', hes', hrow⟩ := h.rows ht hes
  refine ⟨es', hes', fun id hl => ?_⟩
  obtain rfl | ⟨id', hl', hsaved⟩ := hrow
  · rfl
  · exact hsaved.of_ne hes.shelf.ids fun he => hl (he ▸ hl')

theorem Saves.spares (h : o.Saves r k k') (hf : o.Faithful apart k) (hs : k.Sound) :
    o.Spares r k k' := by
  intro m s id ht hl
  obtain ⟨es, hes⟩ := hf.holds ht
  obtain ⟨es', hes', hrow⟩ := h.others ht hes
  rw [hes'.image? (ht.proper hs), hes.image? (ht.proper hs), stored?, stored?, hrow id hl]

theorem Faithful.asked (h : o.Faithful apart k) (ho : o.Sole) (hk : k.Precedes o.last)
    (hs : k.Sound) {cs : List (Record.Command × Except StoreError Record.Reply)}
    (hd : Asked r cs k k') : o.Faithful apart k' ∧ o.Saves r k k' := by
  induction hd with
  | nil _ => exact ⟨h, .refl r _⟩
  | cons hc hrest ih =>
    obtain ⟨h₁, hsaves⟩ := h.commands ho hk hs hc
    obtain ⟨h₂, hsaves'⟩ := ih h₁ (hc.stays.precedes_of hk) (hs.commands hc)
    exact ⟨h₂, hsaves.trans hc.maps hs hsaves' (Asked.stays hrest).precedes⟩

/-! ## Reading -/

/-- Other records are seen as before. -/
theorem Sees.of_meets {isNew : Bool} {r' : RecordRef} (hs : k.Sound)
    (hd : Meets m id isNew r k k') (h : o.Sees k' m' s id' r' x) (hr : r' ≠ r) :
    o.Sees k m' s id' r' x := by
  have htypes := types_of_shape hd.stays.frame.shape h.types
  obtain ⟨map, hm, ⟨-, rfl⟩ | ⟨-, rfl, rfl⟩⟩ := hd
  · exact h
  · obtain hl | ⟨-, -, rfl⟩ := (lists_enrol hm).mp h.lists
    · have hl' := hl
      obtain ⟨map', hm', hmem⟩ := hl'
      obtain ⟨y, hy, -⟩ := hs.kept hm' hmem
      refine ⟨htypes, hl, ?_⟩
      rw [← records_enrol_of_lt k m map _ isNew (lt_of_record hy)]
      exact h.record
    · exact absurd rfl hr

theorem initial_clean (id : RecordId) (s : Schema) (isNew : Bool) {t : Slot}
    (ht : t ∈ (Record.initial id s isNew).slots) : t.dirty = false := by
  obtain ⟨f, -, rfl⟩ := List.mem_map.mp ht
  rfl

theorem database_meets {isNew : Bool} (hd : Meets m id isNew r k k') :
    k'.database o.database = k.database o.database := by
  obtain ⟨map, -, ⟨-, rfl⟩ | ⟨-, -, rfl⟩⟩ := hd
  · rfl
  · rfl

/-- A record with the row of its key, before it takes it in. -/
theorem Faithful.met (h : o.Faithful apart k) (hs : k.Sound) {image : RowImage}
    (hd : Meets m image.id false r k k') (hx : o.Sees k' m s image.id r x)
    (himg : (k.database o.database).image? s image.id = some image) :
    x.record.Intact ∧ (¬apart r → (o.strict = true → x.record.isNew = false) ∧
      (x.record.isNew = false → ∀ t ∈ x.record.slots, t.dirty = true →
        image.value? x.record.schema t.name = some t.baseline)) := by
  have hproper := hx.types.proper (hs.meets hd).1
  have hschema := (hx.of (hs.meets hd).1).2.1
  obtain ⟨map, hm, ⟨-, rfl⟩ | ⟨-, rfl, rfl⟩⟩ := hd
  · refine ⟨h.intact hx, fun hr => ?_⟩
    have ha := h.aligned hx hr
    rw [himg] at ha
    refine ⟨fun hb => ?_, fun hnew t ht _ => ?_⟩
    · rw [← Bool.not_eq_true]
      intro hnew
      have hnone := ha.absent hb hnew
      cases hnone
    · obtain ⟨y, hy, hagree⟩ := ha.stored hnew
      cases hy
      exact hagree t ht
  · have hrec := hx.record
    rw [records_enrol_self] at hrec
    cases hrec
    have hschema' : map.schema = s := hschema
    refine ⟨Record.initial_intact (hschema' ▸ hproper) false, fun _ => ⟨fun _ => rfl, ?_⟩⟩
    intro _ t ht hdirty
    rw [initial_clean _ _ _ ht] at hdirty
    cases hdirty

/-- A stored row is taken in by its record, which need not have been aligned
before if it has no edit. -/
theorem Faithful.hydrateAnew (h : o.Faithful apart k) (hs : k.Sound) {image : RowImage}
    (hd : Meets m image.id false r k k') (hx : k'.records[r]? = some x)
    (himg : ∀ {s}, o.Types k m s → (k.database o.database).image? s image.id = some image)
    (hne : ∀ j, j ≠ r → apart j → apart' j)
    (hself : ¬apart' r → apart r →
      (o.strict = true → x.record.isNew = false) ∧ x.record.Unedited) :
    o.Faithful apart' (k'.impose r (x.record.hydrate image)) := by
  obtain ⟨hs', hl⟩ := hs.meets hd
  have hmaps : (k'.impose r (x.record.hydrate image)).maps = k'.maps := impose_maps _ _ _
  have htypes : ∀ {m s}, o.Types (k'.impose r (x.record.hydrate image)) m s → o.Types k m s :=
    fun ht => types_of_shape hd.stays.frame.shape (types_of_maps hmaps ht)
  have hown := records_impose_self hx (x.record.hydrate image)
  refine h.frame ((database_impose _ _ _).trans (database_meets hd)) htypes ?_
  intro m' s id' r' x' hx'
  by_cases hr : r' = r
  · subst hr
    obtain ⟨rfl, rfl⟩ := hs'.key_unique (hx'.lists.of_maps hmaps.symm) hl
    have himage := himg (htypes hx'.types)
    obtain ⟨es, hes⟩ := h.holds (htypes hx'.types)
    have hsees : o.Sees k' m' s image.id r' x :=
      ⟨types_of_maps hmaps hx'.types, hl, hx⟩
    have hschema := (hsees.of hs').2.1
    obtain ⟨hintact, hmet⟩ := h.met hs hd hsees himage
    have hfits : image.Fits x.record.schema := by
      rw [hes.image? (hsees.types.proper hs')] at himage
      obtain ⟨e, he, rfl⟩ := Option.map_eq_some_iff.mp himage
      rw [hschema]
      exact hes.shelf.fits e (mem_of_shelved? he).1
    have hrec := hx'.record
    rw [hown] at hrec
    cases hrec
    refine ⟨hintact.hydrate hfits, fun hr => ?_⟩
    rw [himage]
    by_cases hapart : apart r'
    · obtain ⟨hold, hclean⟩ := hself hr hapart
      refine Record.hydrate_aligned hintact hfits hold fun _ t ht hdirty => ?_
      rw [hclean t ht] at hdirty
      cases hdirty
    · exact Record.hydrate_aligned hintact hfits (hmet hapart).1 (hmet hapart).2
  · have hx₁ := hx'.of_maps hmaps (records_impose_of_ne k' hr _)
    have hold := hx₁.of_meets hs hd hr
    exact ⟨h.intact hold, fun hr' => h.aligned hold fun ha => hr' (hne _ hr ha)⟩

/-- A stored row is taken in by its record. -/
theorem Faithful.hydrate (h : o.Faithful apart k) (hs : k.Sound) {image : RowImage}
    (hd : Meets m image.id false r k k') (hx : k'.records[r]? = some x)
    (himg : ∀ {s}, o.Types k m s → (k.database o.database).image? s image.id = some image) :
    o.Faithful apart (k'.impose r (x.record.hydrate image)) :=
  h.hydrateAnew hs hd hx himg (fun _ _ ha => ha) fun hr ha => absurd ha hr

theorem sound_hydrated (hs : k.Sound) {image : RowImage} {k₁ : Core}
    (hmeets : Meets m image.id false r k k₁) (hx : k₁.records[r]? = some x) :
    (k₁.impose r (x.record.hydrate image)).Sound ∧
      k.Stays (k₁.impose r (x.record.hydrate image)) := by
  obtain ⟨hs₁, hl⟩ := hs.meets hmeets
  exact ⟨hs₁.impose hx ⟨m, _, hl⟩ (Record.hydrate_balanced _ image)
    (Record.hydrate_remains _ image), hmeets.stays.trans (stays_impose _ _ _)⟩

/-- The rows that are still to be taken in, after one was. -/
theorem Faithful.images_rest (h : o.Faithful apart k) (ho : o.Sole) (hk : k.Precedes o.last)
    (hs : k.Sound) {image : RowImage} {images : List RowImage} {k₁ k₂ : Core}
    {cs : List (Record.Command × Except StoreError Record.Reply)}
    (hmeets : Meets m image.id false r k k₁) (hx : k₁.records[r]? = some x)
    (hasked : Asked r cs (k₁.impose r (x.record.hydrate image)) k₂)
    (himg : ∀ {s}, o.Types k m s → ((image :: images).map (·.id)).Nodup ∧
      ∀ y ∈ image :: images, (k.database o.database).image? s y.id = some y) :
    k₂.Sound ∧ k₂.Precedes o.last ∧
      ∀ {s}, o.Types k₂ m s → (images.map (·.id)).Nodup ∧
        ∀ y ∈ images, (k₂.database o.database).image? s y.id = some y := by
  obtain ⟨-, hl⟩ := hs.meets hmeets
  have h₁ := h.hydrate hs hmeets hx fun ht => (himg ht).2 _ List.mem_cons_self
  obtain ⟨hs₂, hstays⟩ := sound_hydrated hs hmeets hx
  obtain ⟨-, hsaves⟩ := h₁.asked ho (hstays.precedes_of hk) hs₂ hasked
  have hspare : o.Spares r (k₁.impose r (x.record.hydrate image)) k₂ := hsaves.spares h₁ hs₂
  refine ⟨hs₂.asked hasked, hasked.stays.precedes_of (hstays.precedes_of hk), fun {s} ht => ?_⟩
  have ht₁ : o.Types (k₁.impose r (x.record.hydrate image)) m s :=
    types_of_maps hasked.maps ht
  obtain ⟨hn, hall⟩ := himg (types_of_shape hstays.frame.shape ht₁)
  rw [List.map_cons, List.nodup_cons] at hn
  refine ⟨hn.2, fun y hy => ?_⟩
  have hl₂ := hl.of_maps (impose_maps k₁ r (x.record.hydrate image))
  rw [hspare ht₁ fun hl' => hn.1 ?_, database_impose, database_meets hmeets]
  · exact hall y (List.mem_cons_of_mem _ hy)
  · rw [← (hs₂.key_unique hl' hl₂).2]
    exact List.mem_map_of_mem hy

/-- Rows that are stored, no two under one key, are taken in. -/
theorem Faithful.takenIn (h : o.Faithful apart k) (ho : o.Sole) (hk : k.Precedes o.last)
    (hs : k.Sound) {answered : RecordRef → Prop} {images : List RowImage}
    (hd : TakenIn m answered images k k')
    (himg : ∀ {s}, o.Types k m s → (images.map (·.id)).Nodup ∧
      ∀ y ∈ images, (k.database o.database).image? s y.id = some y) :
    o.Faithful apart k' := by
  induction hd with
  | nil _ => exact h
  | cons hmeets hx hasked _ _ ih =>
    have h₁ := h.hydrate hs hmeets hx fun ht => (himg ht).2 _ List.mem_cons_self
    obtain ⟨hs₂, hstays⟩ := sound_hydrated hs hmeets hx
    obtain ⟨h₂, -⟩ := h₁.asked ho (hstays.precedes_of hk) hs₂ hasked
    obtain ⟨hs₃, hk₃, hrest⟩ := h.images_rest ho hk hs hmeets hx hasked himg
    exact ih h₂ hk₃ hs₃ hrest

/-- A record without an edit that takes in its row is aligned from then on. -/
theorem Faithful.takenInAnew (h : o.Faithful apart k) (ho : o.Sole) (hk : k.Precedes o.last)
    (hs : k.Sound) {answered : RecordRef → Prop} {images : List RowImage}
    (hd : TakenIn m answered images k k')
    (himg : ∀ {s}, o.Types k m s → (images.map (·.id)).Nodup ∧
      ∀ y ∈ images, (k.database o.database).image? s y.id = some y)
    (hx : k.records[r]? = some x) (hold : o.strict = true → x.record.isNew = false)
    (hclean : x.record.Unedited)
    (hl : ∃ y ∈ images, k'.Lists m y.id r) : o.Faithful (fun j => apart j ∧ j ≠ r) k' := by
  induction hd with
  | nil _ =>
    obtain ⟨y, hy, -⟩ := hl
    cases hy
  | @cons image images r₀ y cs k₀ k₁ k₂ k₃ hmeets hx₀ hasked _ htaken ih =>
    obtain ⟨-, hl₀⟩ := hs.meets hmeets
    obtain ⟨hs₂, hstays⟩ := sound_hydrated hs hmeets hx₀
    obtain ⟨hs₃, hk₃, hrest⟩ := h.images_rest ho hk hs hmeets hx₀ hasked himg
    have hlast : ∀ {apart'}, o.Faithful apart' (k₁.impose r₀ (y.record.hydrate image)) →
        o.Faithful apart' k₂ := fun h' =>
      (h'.asked ho (hstays.precedes_of hk) hs₂ hasked).1
    have hrow : ∀ {s}, o.Types k₀ m s →
        (k₀.database o.database).image? s image.id = some image :=
      fun ht => (himg ht).2 _ List.mem_cons_self
    -- a record that is in memory is met as it is
    have hkeep : k₁.records[r]? = some x := by
      obtain ⟨map, hm, ⟨-, rfl⟩ | ⟨-, -, rfl⟩⟩ := id hmeets
      · exact hx
      · rw [records_enrol_of_lt _ _ _ _ _ (lt_of_record hx), hx]
    by_cases hr : r = r₀
    · subst hr
      cases hkeep.symm.trans hx₀
      have hanew : o.Faithful (fun j => apart j ∧ j ≠ r) k₂ :=
        hlast (h.hydrateAnew hs hmeets hx₀ hrow (fun j hj ha => ⟨ha, hj⟩) fun _ _ =>
          ⟨hold, hclean⟩)
      exact hanew.takenIn ho hk₃ hs₃ htaken hrest
    · refine ih (hlast (h.hydrate hs hmeets hx₀ hrow)) hk₃ hs₃ hrest ?_ ?_
      · rw [hasked.records_of_ne hr, records_impose_of_ne k₁ hr, hkeep]
      · obtain ⟨z, hz, hlz⟩ := hl
        rcases List.mem_cons.mp hz with rfl | hz
        · have hl₃ := htaken.stays.lists (hasked.stays.lists ((stays_impose _ _ _).lists hl₀))
          exact absurd ((hs₃.takenIn htaken).record_unique hlz hl₃) hr
        · exact ⟨z, hz, hlz⟩

/-- What a statement reads is stored, no two rows under one key. -/
theorem Faithful.images (h : o.Faithful apart k) (ho : o.Sole) (hk : k.Precedes o.last)
    (hs : k.Sound) {images : List RowImage} (hm : k.maps[m]? = some map)
    (hr : k.Reads map images) (ht : o.Types k m s) : (images.map (·.id)).Nodup ∧
      ∀ y ∈ images, (k.database o.database).image? s y.id = some y := by
  have htypes := ht
  obtain ⟨map', hm', hc, rfl⟩ := htypes
  rw [hm] at hm'
  cases hm'
  obtain ⟨clause, found, hread, hsub⟩ := hr
  obtain ⟨es, hes⟩ := h.holds ht
  rw [hc, databaseOf_eq (ht.connection ho hs hk).1] at hread
  obtain ⟨hn, hstored⟩ := read_eq_ok hes (ht.proper hs) hread
  refine ⟨hn.sublist (hsub.map _), fun y hy => ?_⟩
  rw [hes.image? (ht.proper hs)]
  exact hstored y (hsub.subset hy)

theorem Faithful.read (h : o.Faithful apart k) (ho : o.Sole) (hk : k.Precedes o.last)
    (hs : k.Sound) {answered : RecordRef → Prop} {images : List RowImage}
    (hm : k.maps[m]? = some map) (hr : k.Reads map images)
    (hd : TakenIn m answered images k k') : o.Faithful apart k' :=
  h.takenIn ho hk hs hd fun ht => h.images ho hk hs hm hr ht

/-! ## New records and parents -/

theorem Faithful.enrol (h : o.Faithful apart k) (hs : k.Sound) {isNew : Bool}
    (hm : k.maps[m]? = some map) (hid : map.registered.lookup id = none)
    (hnew : ∀ {s}, o.Types k m s → (isNew = false → apart k.records.length) ∧
      (o.strict = true → isNew = true → (k.database o.database).image? s id = none)) :
    o.Faithful apart (k.enrol m map id isNew) := by
  have hd : Meets m id isNew k.records.length k (k.enrol m map id isNew) :=
    ⟨map, hm, .inr ⟨hid, rfl, rfl⟩⟩
  obtain ⟨hs', hl⟩ := hs.meets hd
  have htypes : ∀ {m' s}, o.Types (k.enrol m map id isNew) m' s → o.Types k m' s :=
    fun ht => types_of_shape hd.stays.frame.shape ht
  refine h.frame (database_meets hd) htypes ?_
  intro m' s id' r x hx
  by_cases hr : r = k.records.length
  · subst hr
    obtain ⟨rfl, rfl⟩ := hs'.key_unique hx.lists hl
    have hrec := hx.record
    rw [records_enrol_self] at hrec
    cases hrec
    have hschema : map.schema = s := (hx.of hs').2.1
    obtain ⟨hold, hfresh⟩ := hnew (htypes hx.types)
    refine ⟨Record.initial_intact (hschema ▸ hx.types.proper hs') isNew, fun hr => ?_⟩
    cases isNew with
    | false => exact absurd (hold rfl) hr
    | true =>
      refine ⟨(fun he => by cases he), fun hb _ => hfresh hb rfl, fun hb y hy _ => ?_⟩
      rw [hfresh hb rfl] at hy
      cases hy
  · have hold := hx.of_meets hs hd hr
    exact ⟨h.intact hold, h.aligned hold⟩

theorem Faithful.place (h : o.Faithful apart k) (hs : k.Sound) (hx : k.records[r]? = some x)
    (hl : k.Listed r) (parent : Option RecordId)
    (hnew : o.strict = true → x.connection = o.connection → x.record.isNew = true) :
    o.Faithful apart (k.impose r (x.record.setParent parent)) := by
  have hs' := hs.impose hx hl (x.record.setParent_balanced parent)
    (x.record.setParent_remains parent)
  have hmaps : (k.impose r (x.record.setParent parent)).maps = k.maps := impose_maps _ _ _
  refine h.frame (database_impose _ _ _) (types_of_maps hmaps) ?_
  intro m' s id' r' x' hx'
  by_cases hr : r' = r
  · subst hr
    have hrec := hx'.record
    rw [records_impose_self hx] at hrec
    cases hrec
    have hc : x.connection = o.connection := (hx'.of hs').2.2
    have hold : o.Sees k m' s id' r' x :=
      ⟨types_of_maps hmaps hx'.types, hx'.lists.of_maps hmaps.symm, hx⟩
    exact ⟨(h.intact hold).setParent parent, fun hr =>
      (h.aligned hold hr).setParent fun hb => hnew hb hc⟩
  · have hold := hx'.of_maps hmaps (records_impose_of_ne k hr _)
    exact ⟨h.intact hold, h.aligned hold⟩

/-- The database of a connection becomes another, and the records stay. -/
theorem sees_setDatabase {c : ConnectionRef} {d : Database}
    (h : o.Sees (k.setDatabase c d) m s id r x) : o.Sees k m s id r x :=
  h.of_maps (setDatabase_maps k c d) (by rw [setDatabase_records])

/-- The row under a key gets a parent, where nobody asks for parents. -/
theorem Faithful.reparent (h : o.Faithful apart k) (ho : o.Sole) (hk : k.Precedes o.last)
    (hs : k.Sound) (hb : o.strict = false) (ht : o.Types k m s) {es : List Shelved}
    (hes : (k.database o.database).Holds s es) {d : Database} {parent : Option RecordId}
    (hd : (k.database o.database).Edits s id es d (revise es id fun y => { y with parent })) :
    o.Faithful apart (k.setDatabase o.connection d) := by
  obtain ⟨hconn, hlt⟩ := ht.connection ho hs hk
  have hdb := database_setDatabase hconn hlt d
  refine h.edit ho hk hs ht hes (hdb.symm ▸ hd) (types_of_maps (setDatabase_maps k _ _)) ?_ ?_
  · intro m' s' id' r x hx
    by_cases hm : m' = m
    · by_cases hid : id' = id
      · exact .inl ⟨hm, hid⟩
      · exact .inr ⟨.inr hid, sees_setDatabase hx⟩
    · exact .inr ⟨.inl hm, sees_setDatabase hx⟩
  · intro r x hx
    have hold := sees_setDatabase hx
    refine ⟨h.intact hold, fun hr => ?_⟩
    have ha := h.aligned hold hr
    rw [hdb, (hd.holds hes).image? (ht.proper hs), stored?_parent]
    rw [hes.image? (ht.proper hs)] at ha
    rw [hb] at ha ⊢
    exact ha.reparent

/-- A record and its row get a parent. -/
theorem Faithful.adoptOwn (h : o.Faithful apart k) (ho : o.Sole) (hk : k.Precedes o.last)
    (hs : k.Sound) (hx : o.Sees k m s id r x) {es : List Shelved}
    (hes : (k.database o.database).Holds s es) {d : Database} {parent : Option RecordId}
    (hd : (k.database o.database).Edits s id es d (revise es id fun y => { y with parent })) :
    o.Faithful apart ((k.setDatabase o.connection d).impose r (x.record.setParent parent)) := by
  obtain ⟨hconn, hlt⟩ := hx.types.connection ho hs hk
  have hx₁ : (k.setDatabase o.connection d).records[r]? = some x := by
    rw [setDatabase_records, hx.record]
  have hmaps : ((k.setDatabase o.connection d).impose r (x.record.setParent parent)).maps =
      k.maps := (impose_maps _ _ _).trans (setDatabase_maps _ _ _)
  have hdb : ((k.setDatabase o.connection d).impose r (x.record.setParent parent)).database
      o.database = d := by rw [database_impose, database_setDatabase hconn hlt]
  refine h.edit ho hk hs hx.types hes (hdb.symm ▸ hd) (types_of_maps hmaps) ?_ ?_
  · intro m' s' id' r' x' hx'
    by_cases hr : r' = r
    · subst hr
      exact .inl (hs.key_unique (hx'.lists.of_maps hmaps.symm) hx.lists)
    · have hold : o.Sees k m' s' id' r' x' := hx'.of_maps hmaps (by
        rw [records_impose_of_ne _ hr, setDatabase_records])
      refine .inr ⟨?_, hold⟩
      by_cases hmm : m' = m
      · refine .inr fun hid => hr ?_
        subst hmm hid
        exact hs.record_unique hold.lists hx.lists
      · exact .inl hmm
  · intro r' x' hx'
    have hr : r' = r := hs.record_unique (hx'.lists.of_maps hmaps.symm) hx.lists
    subst hr
    have hrec := hx'.record
    rw [records_impose_self hx₁] at hrec
    cases hrec
    refine ⟨(h.intact hx).setParent parent, fun hr => ?_⟩
    have ha := h.aligned hx hr
    rw [hes.image? (hx.types.proper hs)] at ha
    rw [hdb, (hd.holds hes).image? (hx.types.proper hs), stored?_parent]
    exact ha.adopt

theorem Faithful.adopt (h : o.Faithful apart k) (ho : o.Sole) (hk : k.Precedes o.last)
    (hs : k.Sound) {l : Link} {parent : Option RecordId} (hm : k.maps[m]? = some map)
    (hx : k.records[r]? = some x) (hl : k.Listed r)
    (hdb : l.database = k.databaseOf map.connection)
    (hok : (l.updateParent map.schema x.record.id parent).1 = .ok ())
    (hown : o.strict = true → (map.connection = o.connection ∨ x.connection = o.connection) →
      ∃ id, k.Lists m id r) :
    o.Faithful apart ((k.setDatabase map.connection
      (l.updateParent map.schema x.record.id parent).2.database).impose r
        (x.record.setParent parent)) := by
  have hs₁ : ∀ d, (k.setDatabase map.connection d).Sound := fun d => hs.setDatabase _ d
  have hx₁ : ∀ d, (k.setDatabase map.connection d).records[r]? = some x := fun d => by
    rw [setDatabase_records, hx]
  have hl₁ : ∀ d, (k.setDatabase map.connection d).Listed r := fun d =>
    hl.of_maps (setDatabase_maps k _ _)
  by_cases hc : map.connection = o.connection
  · have ht : o.Types k m map.schema := ⟨map, hm, hc, rfl⟩
    obtain ⟨es, hes⟩ := h.holds ht
    rw [hc, databaseOf_eq (ht.connection ho hs hk).1] at hdb
    have hd := Link.updateParent_edits (hdb ▸ h.plain) (hdb ▸ hes) (ht.proper hs) hok
    rw [hdb] at hd
    by_cases hown' : ∃ id, k.Lists m id r
    · obtain ⟨id, hlists⟩ := hown'
      have hsees : o.Sees k m map.schema id r x := ⟨ht, hlists, hx⟩
      have hid : x.record.id = id := (hsees.of hs).1
      subst hid
      rw [hc]
      exact h.adoptOwn ho hk hs hsees hes hd
    · have hb : o.strict = false := by
        rw [← Bool.not_eq_true]
        exact fun hb => hown' (hown hb (.inl hc))
      have h₁ := h.reparent ho hk hs hb ht hes hd
      rw [← hc] at h₁
      refine h₁.place (hs₁ _) (hx₁ _) (hl₁ _) parent fun hb' => ?_
      rw [hb] at hb'
      cases hb'
  · have hdb' : ∀ d, (k.setDatabase map.connection d).database o.database =
        k.database o.database := fun d => database_setDatabase_of_ne (ho.elsewhere hk hm hc) d
    have h₁ : ∀ d, o.Faithful apart (k.setDatabase map.connection d) := fun d =>
      h.frame (hdb' d) (types_of_maps (setDatabase_maps k _ _)) fun hx =>
        ⟨h.intact (sees_setDatabase hx), h.aligned (sees_setDatabase hx)⟩
    refine (h₁ _).place (hs₁ _) (hx₁ _) (hl₁ _) parent fun hb hxc => ?_
    -- a record of the connection is not in an identity map elsewhere
    obtain ⟨id, map', hm', hmem⟩ := hown hb (.inr hxc)
    rw [hm] at hm'
    cases hm'
    obtain ⟨y, hy, hof⟩ := hs.kept hm hmem
    rw [hx] at hy
    cases hy
    exact absurd (hof.connection.symm.trans hxc) hc

/-! ## Letting go -/

/-- What is still registered was registered before. -/
theorem sees_dismiss {h : HubRef} (hx : o.Sees (k.dismiss m' r h) m s id' r' x) :
    o.Sees k m s id' r' x ∧ (m = m' → r' ≠ r) := by
  obtain ⟨hl, hne⟩ := lists_dismiss.mp hx.lists
  have hshape : (k.dismiss m' r h).shape = k.shape := shape_setMap k m' fun _ => rfl
  exact ⟨⟨types_of_shape hshape hx.types, hl, hx.record⟩, hne⟩

theorem Faithful.free (h : o.Faithful apart k) (ho : o.Sole) (hk : k.Precedes o.last)
    (hs : k.Sound) {l : Link} (hm : k.maps[m]? = some map) (hx : k.records[r]? = some x)
    (hl : k.Lists m id r) (hdb : l.database = k.databaseOf map.connection) :
    o.Faithful apart (if x.record.deletePending then
      (k.dismiss m r x.hub).setDatabase map.connection
        (l.deleteRow map.schema x.record.id).2.database
      else k.dismiss m r x.hub) := by
  have hshape : (k.dismiss m r x.hub).shape = k.shape := shape_setMap k m fun _ => rfl
  have hdismiss : o.Faithful apart (k.dismiss m r x.hub) :=
    h.frame rfl (types_of_shape hshape) fun hx' =>
      ⟨h.intact (sees_dismiss hx').1, h.aligned (sees_dismiss hx').1⟩
  split
  · by_cases hc : map.connection = o.connection
    · have ht : o.Types k m map.schema := ⟨map, hm, hc, rfl⟩
      have hsees : o.Sees k m map.schema id r x := ⟨ht, hl, hx⟩
      have hid : x.record.id = id := (hsees.of hs).1
      subst hid
      obtain ⟨es, hes⟩ := h.holds ht
      obtain ⟨hconn, hlt⟩ := ht.connection ho hs hk
      rw [hc, databaseOf_eq hconn] at hdb
      obtain ⟨es', hd⟩ := Link.deleteRow_edits x.record.id (hdb ▸ h.plain) (hdb ▸ hes)
      rw [hdb] at hd
      rw [hc]
      have hdb' := database_setDatabase (k := k.dismiss m r x.hub) hconn hlt
        (l.deleteRow map.schema x.record.id).2.database
      refine h.edit ho hk hs ht hes (hdb'.symm ▸ hd)
        (fun ht => types_of_shape hshape (types_of_maps (setDatabase_maps _ _ _) ht)) ?_ ?_
      · intro m' s' id' r' x' hx'
        obtain ⟨hold, hne⟩ := sees_dismiss (sees_setDatabase hx')
        refine .inr ⟨?_, hold⟩
        by_cases hmm : m' = m
        · subst hmm
          refine .inr fun hid => hne rfl ?_
          subst hid
          exact hs.record_unique hold.lists hl
        · exact .inl hmm
      · intro r' x' hx'
        obtain ⟨hold, hne⟩ := sees_dismiss (sees_setDatabase hx')
        exact absurd (hs.record_unique hold.lists hl) (hne rfl)
    · have hne : (k.dismiss m r x.hub).connections[map.connection]? ≠ some o.database :=
        ho.elsewhere hk hm hc
      exact hdismiss.frame (database_setDatabase_of_ne hne _)
        (types_of_maps (setDatabase_maps _ _ _)) fun hx' =>
          ⟨hdismiss.intact (sees_setDatabase hx'), hdismiss.aligned (sees_setDatabase hx')⟩
  · exact hdismiss

/-! ## New tables -/

theorem types_addMap {c : ConnectionRef} {h : HubRef}
    (ht : o.Types (k.addMap { schema := s, connection := c, hub := h }) m s') :
    o.Types k m s' ∨ m = k.maps.length ∧ s' = s ∧ c = o.connection := by
  obtain ⟨map, hm, hc, rfl⟩ := ht
  unfold Core.addMap at hm
  rw [List.getElem?_append] at hm
  split at hm
  · exact .inl ⟨map, hm, hc, rfl⟩
  · next hlt =>
    obtain ⟨hi, he⟩ := List.getElem?_eq_some_iff.mp hm
    rw [List.length_singleton] at hi
    have hz : m - k.maps.length = 0 := Nat.lt_one_iff.mp hi
    simp only [hz, List.getElem_cons_zero] at he
    subst he
    exact .inr ⟨Nat.le_antisymm (Nat.sub_eq_zero_iff_le.mp hz) (Nat.le_of_not_lt hlt), rfl, hc⟩

theorem sees_addMap {c : ConnectionRef} {h : HubRef}
    (hx : o.Sees (k.addMap { schema := s, connection := c, hub := h }) m s' id r x) :
    o.Sees k m s' id r x := by
  have hl := lists_addMap.mp hx.lists
  obtain ht | ⟨rfl, -, -⟩ := types_addMap hx.types
  · exact ⟨ht, hl, hx.record⟩
  · obtain ⟨map, hm, -⟩ := hl
    exact absurd (List.getElem?_eq_some_iff.mp hm).1 (Nat.lt_irrefl _)

/-- A table is made for a type that has none, or is found as its type made it. -/
theorem Faithful.makeTable (h : o.Faithful apart k) (ho : o.Sole) {d : Database} {n : Nat}
    {i : HubRef} (hk : ((k.setDatabase o.connection d).addMap
      { schema := s, connection := o.connection, hub := i }).Precedes o.last) (hs : k.Sound)
    (hconn : k.connections[o.connection]? = some o.database)
    (hd : (k.database o.database).execute ⟨s, .createTable⟩ = .ok (n, d)) :
    o.Faithful apart ((k.setDatabase o.connection d).addMap
      { schema := s, connection := o.connection, hub := i }) := by
  have hdb : ((k.setDatabase o.connection d).addMap
      { schema := s, connection := o.connection, hub := i }).database o.database = d :=
    database_setDatabase hconn (hs.grounded hconn) _
  have hmaps := setDatabase_maps k o.connection d
  have hself : o.Types ((k.setDatabase o.connection d).addMap
      { schema := s, connection := o.connection, hub := i }) k.maps.length s := by
    refine ⟨{ schema := s, connection := o.connection, hub := i }, ?_, rfl, rfl⟩
    unfold Core.addMap
    rw [hmaps]
    exact List.getElem?_concat_length
  have hnew : o.Types o.last k.maps.length s := hself.ahead hk
  have htypes : ∀ {m s'}, o.Types ((k.setDatabase o.connection d).addMap
      { schema := s, connection := o.connection, hub := i }) m s' →
      o.Types k m s' ∨ m = k.maps.length ∧ s' = s := by
    intro m s' ht
    obtain hold | ⟨hm, hss, -⟩ := types_addMap ht
    · exact .inl (types_of_maps hmaps hold)
    · exact .inr ⟨hm.trans (congrArg List.length hmaps), hss⟩
  have hother : ∀ {m s'}, o.Types o.last m s' → m ≠ k.maps.length →
      sameName s.table s'.table = false := fun ht hne => ho.distinct hnew ht (Ne.symm hne)
  have hold : ∀ {m s'}, o.Types k m s' → o.Types o.last m s' ∧ m ≠ k.maps.length := by
    intro m s' ht
    obtain ⟨map, hm, hc, rfl⟩ := ht
    refine ⟨Types.ahead ⟨map, ?_, hc, rfl⟩ hk,
      Nat.ne_of_lt (List.getElem?_eq_some_iff.mp hm).1⟩
    exact maps_addMap_of_some _ (hmaps.symm ▸ hm)
  obtain ⟨rfl, hsome⟩ | ⟨hnone, rfl⟩ := Database.execute_createTable hd
  · refine ⟨hdb.symm ▸ h.plain, fun ht => hdb.symm ▸ h.ready ht, fun ht => ?_, fun hx => ?_,
      fun hx hr => ?_⟩
    · rw [hdb]
      obtain hold' | ⟨rfl, rfl⟩ := htypes ht
      · exact h.holds hold'
      · obtain hnone | hholds := h.ready hnew
        · rw [hnone] at hsome
          cases hsome
        · exact hholds
    · exact h.intact (sees_setDatabase (sees_addMap hx))
    · rw [hdb]
      exact h.aligned (sees_setDatabase (sees_addMap hx)) hr
  · refine ⟨hdb.symm ▸ h.plain.append hnone, fun {m s'} ht => ?_, fun {m s'} ht => ?_,
      fun hx => ?_, fun hx hr => ?_⟩
    · rw [hdb]
      by_cases hm : m = k.maps.length
      · subst hm
        rw [ht.unique hnew]
        exact .inr ⟨[], Database.holds_made hnone⟩
      · exact (h.ready ht).append hnone (hother ht hm)
    · rw [hdb]
      obtain hold' | ⟨rfl, rfl⟩ := htypes ht
      · obtain ⟨es, hes⟩ := h.holds hold'
        exact ⟨es, hes.append hnone (hother (hold hold').1 (hold hold').2)⟩
      · exact ⟨[], Database.holds_made hnone⟩
    · exact h.intact (sees_setDatabase (sees_addMap hx))
    · have hx' := sees_setDatabase (sees_addMap hx)
      rw [hdb, Database.image?_append hnone (hother (hold hx'.types).1 (hold hx'.types).2)]
      exact h.aligned hx' hr

theorem Faithful.addMap (h : o.Faithful apart k) (ho : o.Sole) {l : Link} {c : ConnectionRef}
    {i : HubRef} (hk : ((k.setDatabase c (l.ensureTable s).2.database).addMap
      { schema := s, connection := c, hub := i }).Precedes o.last) (hs : k.Sound)
    (hlt : c < k.connections.length) (hdb : l.database = k.databaseOf c)
    (hok : (l.ensureTable s).1 = .ok ()) :
    o.Faithful apart ((k.setDatabase c (l.ensureTable s).2.database).addMap
      { schema := s, connection := c, hub := i }) := by
  obtain ⟨e, he, -⟩ | ⟨n, d, -, hex, hd⟩ := l.ensureTable_cases s
  · rw [hok] at he
    cases he
  rw [hd] at hk ⊢
  rw [hdb] at hex
  have hmaps := setDatabase_maps k c d
  have hget := List.getElem?_eq_getElem hlt
  by_cases hc : c = o.connection
  · subst hc
    have hlast := hk.connections (hget ▸ congrArg (·[o.connection]?)
      (setDatabase_connections k o.connection d))
    rw [ho.connection] at hlast
    have hconn : k.connections[o.connection]? = some o.database := hget.trans hlast.symm
    rw [databaseOf_eq hconn] at hex
    exact h.makeTable ho hk hs hconn hex
  · have hm : ((k.setDatabase c d).addMap
        { schema := s, connection := c, hub := i }).maps[k.maps.length]? =
        some { schema := s, connection := c, hub := i } := by
      unfold Core.addMap
      rw [hmaps]
      exact List.getElem?_concat_length
    have hne : k.connections[c]? ≠ some o.database := fun hconn =>
      ho.elsewhere hk hm hc ((setDatabase_connections k c d).symm ▸ hconn)
    refine h.frame (database_setDatabase_of_ne hne d) (fun ht => ?_) fun hx => ?_
    · obtain hold | ⟨-, -, he⟩ := types_addMap ht
      · exact types_of_maps hmaps hold
      · exact absurd he hc
    · have hold := sees_setDatabase (sees_addMap hx)
      exact ⟨h.intact hold, h.aligned hold⟩

/-! ## Deeds -/

/-- A deed keeps to its part: what is made without a row is set apart, what is
new has none, only what is new gets a parent that is not stored, and nobody
else changes the database. -/
def Orderly (o : Outlook) (apart : RecordRef → Prop) : Deed → Core → Prop
  | .enrol m id isNew, k => ∀ s, o.Types k m s → (isNew = false → apart k.records.length) ∧
      (o.strict = true → isNew = true → (k.database o.database).image? s id = none)
  | .place r _, k => o.strict = true → ∀ x, k.records[r]? = some x →
      x.connection = o.connection → x.record.isNew = true
  | .adopt m r _, k => o.strict = true → ∀ map x, k.maps[m]? = some map →
      k.records[r]? = some x → map.connection = o.connection ∨ x.connection = o.connection →
      ∃ id, k.Lists m id r
  | .foreign d, _ => d ≠ o.database
  | _, _ => True

theorem Faithful.does (h : o.Faithful apart k) (ho : o.Sole) (hs : k.Sound) {d : Deed}
    (ha : o.Orderly apart d k) (hd : Does d k k') (hk' : k'.Precedes o.last) :
    o.Faithful apart k' := by
  have hk : k.Precedes o.last := hd.precedes.trans hk'
  cases d with
  | command r c reply => exact (h.commands ho hk hs hd).1
  | read m images answered =>
    obtain ⟨map, hm, hr, ht⟩ := hd
    exact h.read ho hk hs hm hr ht
  | enrol m id isNew =>
    obtain ⟨map, hm, hid, rfl⟩ := hd
    exact h.enrol hs hm hid fun ht => ha _ ht
  | place r parent =>
    obtain ⟨x, hx, hl, rfl⟩ := hd
    exact h.place hs hx hl parent fun hb => ha hb x hx
  | adopt m r parent =>
    obtain ⟨map, x, l, hm, hx, hl, hdb, hok, rfl⟩ := hd
    exact h.adopt ho hk hs hm hx hl hdb hok fun hb => ha hb map x hm hx
  | free m r =>
    obtain ⟨map, x, l, hm, hx, ⟨id, hl⟩, hdb, rfl⟩ := hd
    exact h.free ho hk hs hm hx hl hdb
  | ground =>
    have hdb := Grounds.database (i := o.database) hd
    obtain ⟨n, cs, j, -, rfl⟩ := hd
    exact h.frame hdb (types_of_maps rfl) fun hx =>
      ⟨h.intact (hx.of_maps rfl rfl), h.aligned (hx.of_maps rfl rfl)⟩
  | addMap s c i =>
    obtain ⟨l, -, hc, -, hdb, hok, rfl⟩ := hd
    exact h.addMap ho hk' hs hc hdb hok
  | foreign d =>
    obtain ⟨y, rfl⟩ := hd
    refine h.frame ?_ (types_of_maps rfl) fun hx =>
      ⟨h.intact (hx.of_maps rfl rfl), h.aligned (hx.of_maps rfl rfl)⟩
    unfold Core.database
    dsimp only
    rw [List.getElem?_set_ne ha]

/-- Orderly deeds, whatever fails, keep the records of the connection faithful. -/
theorem Faithful.course (h : o.Faithful apart k) (ho : o.Sole) (hs : k.Sound)
    {ds : List Deed} (hd : Course (o.Orderly apart) ds k k') (hk' : k'.Precedes o.last) :
    o.Faithful apart k' := by
  refine (Course.preserves_within (P := fun j => j.Sound ∧ o.Faithful apart j)
    (fun ha hdoes hj hP => ?_) hd hk' ⟨hs, h⟩).2
  exact ⟨hP.1.does hdoes, hP.2.does ho hP.1 ha hdoes hj⟩

end LiveRecords.Outlook
