import LiveRecords.Proofs.Rewriting

/-!
# Records and their rows

What a record takes for stored is what its row holds. Baselines change only with
the writes that succeed, and a row under the key of a record changes only by
such writes, so no command that fails halfway sets the two apart.
-/

namespace LiveRecords

variable {s : Schema} {es es' es₁ es₂ : List Shelved} {id : RecordId} {d d₁ d₂ d' : Database}

/-- A database with new values under one key of a type, and nothing else. -/
structure Database.Rewrites (d : Database) (s : Schema) (id : RecordId) (es : List Shelved)
    (d' : Database) (es' : List Shelved) : Prop where
  database : d' = d.shelve s es'
  shelf : Shelf s es'
  rows : Rewritten id es es'

theorem Database.Rewrites.refl (id : RecordId) (hd : d.Plain) (h : d.Holds s es) :
    d.Rewrites s id es d es :=
  ⟨(h.shelve_self hd).symm, h.shelf, .refl id es⟩

theorem Database.Rewrites.trans (h₁ : d.Rewrites s id es d₁ es₁)
    (h₂ : d₁.Rewrites s id es₁ d₂ es₂) : d.Rewrites s id es d₂ es₂ where
  database := by
    rw [h₂.database, h₁.database]
    exact shelve_shelve s es₁ es₂
  shelf := h₂.shelf
  rows := h₁.rows.trans h₂.rows

/-- A slot with a value that fits is one of a type. -/
structure Slot.In (t : Slot) (s : Schema) : Prop where
  field : t.field ∈ s.fields
  fits : t.current.fits t.field.type t.field.notNull = true

/-- The row of a record holds the baselines of slots. -/
def RowImage.Agrees (s : Schema) (x : RowImage) (ts : List Slot) : Prop :=
  ∀ t ∈ ts, x.value? s t.name = some t.baseline

/-- How the image under a key has changed with the slots that were written. -/
structure Mirrors (s : Schema) (id : RecordId) (ts ts' : List Slot) (es es' : List Shelved) :
    Prop where
  others : ∀ {x x'}, stored? es id = some x → stored? es' id = some x' →
    ∀ g, g ∉ ts.map (·.name) → x'.value? s g = x.value? s g
  agrees : ∀ {x x'}, stored? es id = some x → stored? es' id = some x' →
    x.Agrees s ts → x'.Agrees s ts'

namespace Record

/-- Writing one slot and then others. -/
theorem mirrors_cons {t : Slot} {ts ts' : List Slot} (hp : s.Proper) (ht : t.In s)
    (hes : Shelf s es) (hn : t.name ∉ ts.map (·.name))
    (h : Mirrors s id ts ts' (revise es id (RowImage.setValue s t.name t.current)) es') :
    Mirrors s id (t :: ts) (t.settle :: ts') es es' := by
  obtain ⟨i, hi⟩ := List.mem_iff_getElem?.mp ht.field
  have hindex : s.fieldIndex? t.name = some i := hp.fieldIndex? hi
  have hmiddle : ∀ {x}, stored? es id = some x →
      stored? (revise es id (RowImage.setValue s t.name t.current)) id =
        some (x.setValue s t.name t.current) := by
    intro x hx
    rw [stored?_revise (RowImage.id_setValue s t.name t.current), if_pos rfl, hx]
    rfl
  have hlen : ∀ {x}, stored? es id = some x → i < x.values.length := by
    intro x hx
    obtain ⟨e, he, rfl⟩ := Option.map_eq_some_iff.mp hx
    rw [(hes.fits e (mem_of_shelved? he).1).length]
    exact (List.getElem?_eq_some_iff.mp hi).1
  constructor
  · intro x x' hx hx' g hg
    rw [List.map_cons, List.mem_cons, not_or] at hg
    rw [h.others (hmiddle hx) hx' g hg.2, RowImage.value?_setValue_of_ne hg.1]
  · intro x x' hx hx' hagree u hu
    rcases List.mem_cons.mp hu with rfl | hu
    · show x'.value? s t.name = some t.current
      rw [h.others (hmiddle hx) hx' t.name hn]
      exact RowImage.value?_setValue_self hindex (hlen hx) t.current
    · refine h.agrees (hmiddle hx) hx' (fun v hv => ?_) u hu
      have hne : v.name ≠ t.name := fun he => hn (he ▸ List.mem_map_of_mem hv)
      rw [RowImage.value?_setValue_of_ne hne]
      exact hagree v (List.mem_cons_of_mem _ hv)

/-- Leaving one slot and then writing others. -/
theorem mirrors_skip {t t' : Slot} {ts ts' : List Slot} (hn : t.name ∉ ts.map (·.name))
    (hname : t'.name = t.name) (hbase : t'.baseline = t.baseline)
    (h : Mirrors s id ts ts' es es') : Mirrors s id (t :: ts) (t' :: ts') es es' := by
  constructor
  · intro x x' hx hx' g hg
    rw [List.map_cons, List.mem_cons, not_or] at hg
    exact h.others hx hx' g hg.2
  · intro x x' hx hx' hagree u hu
    rcases List.mem_cons.mp hu with rfl | hu
    · rw [hname, hbase, h.others hx hx' t.name hn]
      exact hagree t List.mem_cons_self
    · exact h.agrees hx hx' (fun v hv => hagree v (List.mem_cons_of_mem _ hv)) u hu

theorem mirrors_refl (ts : List Slot) : Mirrors s id ts ts es es := by
  constructor
  · intro x x' hx hx' g _
    rw [hx] at hx'
    cases hx'
    rfl
  · intro x x' hx hx' hagree
    rw [hx] at hx'
    cases hx'
    exact hagree

/-! ## Committing -/

theorem writeDirty_rewrites (id : RecordId) {ts : List Slot} {l : Link} (hd : l.database.Plain)
    (h : l.database.Holds s es) (hp : s.Proper) (hts : ∀ t ∈ ts, t.In s)
    (hn : (ts.map (·.name)).Nodup) :
    ∃ es', l.database.Rewrites s id es (writeDirty s id ts l).2.database es' ∧
      Mirrors s id ts (writeDirty s id ts l).1.slots es es' := by
  induction ts generalizing l es with
  | nil => exact ⟨es, .refl id hd h, mirrors_refl []⟩
  | cons t ts ih =>
    have ht := hts t (by simp)
    rw [List.map_cons, List.nodup_cons] at hn
    have hrest : ∀ u ∈ ts, u.In s := fun u hu => hts u (by simp [hu])
    have hcases := Link.updateField_cases id hd h hp ht.field ht.fits
    unfold writeDirty
    split
    · split
      · next l₁ hok =>
        have hok' : l.updateField s id t.field.name t.current = (.ok _, l₁) := hok
        rw [hok'] at hcases
        obtain ⟨e, he, -⟩ | ⟨-, hdb⟩ := hcases
        · cases he
        have hshelf := Link.shelf_setValue id h.shelf hp ht.field ht.fits
        have hdb' : l₁.database = l.database.shelve s _ := hdb
        have hfirst : l.database.Rewrites s id es l₁.database _ :=
          ⟨hdb', hshelf, _, RowImage.id_setValue s t.name t.current,
            RowImage.parent_setValue s t.name t.current, rfl⟩
        obtain ⟨es', hrw, hfollow⟩ := ih (l := l₁) (hdb' ▸ hd.shelve s _)
          (hdb' ▸ h.shelve hshelf) hrest hn.2
        exact ⟨es', hfirst.trans hrw, mirrors_cons hp ht h.shelf hn.1 hfollow⟩
      · next e l₁ herr =>
        have herr' : l.updateField s id t.field.name t.current = (.error e, l₁) := herr
        rw [herr'] at hcases
        obtain ⟨_, -, hdb⟩ | ⟨he, -⟩ := hcases
        · refine ⟨es, ?_, mirrors_refl _⟩
          have hdb' : l₁.database = l.database := hdb
          rw [hdb']
          exact .refl id hd h
        · cases he
    · obtain ⟨es', hrw, hfollow⟩ := ih hd h hrest hn.2
      exact ⟨es', hrw, mirrors_skip hn.1 rfl rfl hfollow⟩

/-! ## Replaying -/

theorem replaySlots_rewrites (id : RecordId) {ts : List Slot} (c : ChangeSet)
    (failure : Option StoreError)
    {l : Link} (hd : l.database.Plain) (h : l.database.Holds s es) (hp : s.Proper)
    (hts : ∀ t ∈ ts, t.field ∈ s.fields)
    (hc : ∀ t ∈ ts, ∀ v, c.get? t.name = some v → v.fits t.field.type t.field.notNull = true)
    (hn : (ts.map (·.name)).Nodup) :
    ∃ es', l.database.Rewrites s id es (replaySlots s id ts c failure l).2.database es' ∧
      Mirrors s id ts (replaySlots s id ts c failure l).1.slots es es' := by
  induction ts generalizing l es c failure with
  | nil => exact ⟨es, .refl id hd h, mirrors_refl []⟩
  | cons t ts ih =>
    have ht := hts t (by simp)
    rw [List.map_cons, List.nodup_cons] at hn
    have hrest : ∀ u ∈ ts, u.field ∈ s.fields := fun u hu => hts u (by simp [hu])
    unfold replaySlots
    split
    · obtain ⟨es', hrw, hfollow⟩ := ih c failure hd h hrest
        (fun u hu => hc u (by simp [hu])) hn.2
      exact ⟨es', hrw, mirrors_skip hn.1 rfl rfl hfollow⟩
    · next restored c' hswap =>
      obtain ⟨old, hold, hpair⟩ := Option.map_eq_some_iff.mp hswap
      cases hpair
      have hfits := hc t (by simp) restored hold
      have hc' : ∀ u ∈ ts, ∀ v, (c.record t.name t.current).get? u.name = some v →
          v.fits u.field.type u.field.notNull = true := by
        intro u hu v hv
        have hne : u.name ≠ t.name := fun he => hn.1 (he ▸ List.mem_map_of_mem hu)
        rw [ChangeSet.get?_record_of_ne c hne] at hv
        exact hc u (by simp [hu]) v hv
      have hcases := Link.updateField_cases id hd h hp ht hfits
      dsimp only
      unfold writeThrough
      cases failure with
      | some e =>
        obtain ⟨es', hrw, hfollow⟩ := ih (c.record t.name t.current) (some e)
          hd h hrest hc' hn.2
        exact ⟨es', hrw, mirrors_skip hn.1 rfl rfl hfollow⟩
      | none =>
        dsimp only
        split
        · next l₁ hok =>
          have hok' : l.updateField s id t.field.name restored = (.ok _, l₁) := hok
          rw [hok'] at hcases
          obtain ⟨e, he, -⟩ | ⟨-, hdb⟩ := hcases
          · cases he
          have hshelf := Link.shelf_setValue id h.shelf hp ht hfits
          have hdb' : l₁.database = l.database.shelve s _ := hdb
          have hfirst : l.database.Rewrites s id es l₁.database _ :=
            ⟨hdb', hshelf, _, RowImage.id_setValue s t.name restored,
              RowImage.parent_setValue s t.name restored, rfl⟩
          obtain ⟨es', hrw, hfollow⟩ := ih (c.record t.name t.current) none (l := l₁)
            (hdb' ▸ hd.shelve s _) (hdb' ▸ h.shelve hshelf) hrest hc' hn.2
          refine ⟨es', hfirst.trans hrw, ?_⟩
          have hwritten := mirrors_cons (t := { t with current := restored }) hp ⟨ht, hfits⟩
            h.shelf hn.1 hfollow
          refine ⟨hwritten.others, fun hx hx' hagree => hwritten.agrees hx hx' fun u hu => ?_⟩
          rcases List.mem_cons.mp hu with rfl | hu
          · exact hagree t List.mem_cons_self
          · exact hagree u (List.mem_cons_of_mem _ hu)
        · next e l₁ herr =>
          have herr' : l.updateField s id t.field.name restored = (.error e, l₁) := herr
          rw [herr'] at hcases
          obtain ⟨_, -, hdb⟩ | ⟨he, -⟩ := hcases
          · have hdb' : l₁.database = l.database := hdb
            obtain ⟨es', hrw, hfollow⟩ := ih (c.record t.name t.current) (some e)
              (l := l₁) (hdb' ▸ hd) (hdb' ▸ h) hrest hc' hn.2
            exact ⟨es', hdb' ▸ hrw, mirrors_skip hn.1 rfl rfl hfollow⟩
          · cases he

end Record

/-! ## Commands -/

/-- A database with another row under one key of a type, and nothing else. -/
structure Database.Edits (d : Database) (s : Schema) (id : RecordId) (es : List Shelved)
    (d' : Database) (es' : List Shelved) : Prop where
  database : d' = d.shelve s es'
  shelf : Shelf s es'
  others : ∀ j, j ≠ id → stored? es' j = stored? es j

theorem Database.Rewrites.edits (h : d.Rewrites s id es d' es') : d.Edits s id es d' es' :=
  ⟨h.database, h.shelf, fun _ hj => h.rows.of_ne hj⟩

/-- What is stored under the key of a record is what the record takes for
stored. Strictly, nothing is stored of a new record, and the parent is stored. -/
structure Record.Aligned (strict : Bool) (x : Record) (row : Option RowImage) : Prop where
  stored : x.isNew = false → ∃ y, row = some y ∧ y.Agrees x.schema x.slots
  absent : strict = true → x.isNew = true → row = none
  parent : strict = true → ∀ y, row = some y → x.schema.parentColumn ≠ none →
    y.parent = x.parent

namespace Record

variable {x y : Record} {l : Link} {b : Bool}

/-- Baselines are all that alignment asks of the slots. -/
theorem Aligned.of_baselines {row : Option RowImage} (h : x.Aligned b row)
    (hs : y.schema = x.schema) (hn : y.isNew = x.isNew) (hp : y.parent = x.parent)
    (ht : ∀ t ∈ y.slots, ∃ u ∈ x.slots, t.name = u.name ∧ t.baseline = u.baseline) :
    y.Aligned b row where
  stored hnew := by
    obtain ⟨image, hrow, hagree⟩ := h.stored (hn ▸ hnew)
    refine ⟨image, hrow, fun t hmem => ?_⟩
    obtain ⟨u, hu, hname, hbase⟩ := ht t hmem
    rw [hs, hname, hbase]
    exact hagree u hu
  absent hb hnew := h.absent hb (hn ▸ hnew)
  parent hb image hrow hcol := by
    rw [hs] at hcol
    rw [hp]
    exact h.parent hb image hrow hcol

theorem setSlot_baselines {t : Slot} (ht : t ∈ x.slots) {u : Slot} (hn : u.name = t.name)
    (hb : u.baseline = t.baseline) : ∀ a ∈ (x.setSlot u).slots, ∃ c ∈ x.slots,
      a.name = c.name ∧ a.baseline = c.baseline := by
  intro a ha
  obtain ⟨c, hc, rfl⟩ := List.mem_map.mp ha
  split
  · exact ⟨t, ht, hn, hb⟩
  · exact ⟨c, hc, rfl, rfl⟩

theorem discardAll_baselines : ∀ t ∈ x.discardAll.record.slots, ∃ u ∈ x.slots,
    t.name = u.name ∧ t.baseline = u.baseline := by
  intro t ht
  obtain ⟨u, hu, rfl⟩ := List.mem_map.mp ht
  split
  · exact ⟨u, hu, rfl, rfl⟩
  · exact ⟨u, hu, rfl, rfl⟩

/-- The image that a commit of the whole row writes. -/
def image (x : Record) : RowImage where
  id := x.id
  parent := x.schema.parentColumn.bind fun _ => x.parent
  values := x.slots.map (·.current)

theorem image_fits (h : x.Intact) : x.image.Fits x.schema where
  length := by
    rw [← h.fields]
    simp [image]
  values := by
    intro i f v hf hv
    rw [← h.fields, List.getElem?_map, Option.map_eq_some_iff] at hf
    obtain ⟨t, ht, rfl⟩ := hf
    have hv' : (x.slots.map (·.current))[i]? = some v := hv
    rw [List.getElem?_map, ht] at hv'
    cases hv'
    exact (h.slots t (List.mem_of_getElem? ht)).current
  parent hs := by
    show x.schema.parentColumn.bind _ = none
    rw [hs]
    rfl

theorem parent_image (h : x.schema.parentColumn ≠ none) : x.image.parent = x.parent := by
  obtain ⟨p, hp⟩ := Option.ne_none_iff_exists'.mp h
  show x.schema.parentColumn.bind _ = x.parent
  rw [hp]
  rfl

theorem image_agrees (h : x.Intact) : x.image.Agrees x.schema (x.slots.map Slot.settle) := by
  intro t ht
  obtain ⟨u, hu, rfl⟩ := List.mem_map.mp ht
  obtain ⟨i, hi⟩ := List.mem_iff_getElem?.mp hu
  have hindex : x.schema.fieldIndex? u.field.name = some i :=
    h.proper.fieldIndex? (h.getElem?_slots hi)
  show (x.schema.fieldIndex? u.field.name).bind _ = _
  rw [hindex]
  simp [image, hi, Slot.settle]

/-- A commit of the whole row fails and changes nothing, or the record's image is
what is stored. -/
theorem commitRow_cases (h : x.Intact) (hd : l.database.Plain)
    (hes : l.database.Holds x.schema es) (hu : x.schema.Unnumbered) :
    ((∃ e, (x.commitRow l).1 = (.error e, x.unchanged)) ∧
        (x.commitRow l).2.database = l.database) ∨
      (x.commitRow l).1.1 = .ok .inserted ∧
        (x.commitRow l).1.2.record.slots = x.slots.map Slot.settle ∧
        ∃ es', l.database.Edits x.schema x.id es (x.commitRow l).2.database es' ∧
          Saved x.id es es' ∧ stored? es' x.id = some x.image := by
  have hcases := Link.insertRow_cases (x := x.image) hd hes h.proper hu (image_fits h) parent_image
  unfold commitRow
  split
  · next e l₁ herr =>
    have herr' : l.insertRow x.schema x.image.id x.image.values x.parent = (.error e, l₁) := herr
    rw [herr'] at hcases
    obtain ⟨_, -, hdb⟩ | ⟨he, -⟩ := hcases
    · exact .inl ⟨⟨e, rfl⟩, hdb⟩
    · cases he
  · next l₁ hok =>
    have hok' : l.insertRow x.schema x.image.id x.image.values x.parent = (.ok _, l₁) := hok
    rw [hok'] at hcases
    obtain ⟨e, he, -⟩ | ⟨-, m, hnumbers, hshelf, hdb⟩ := hcases
    · cases he
    have hstored := stored?_insert hes.shelf.ids m x.image
    exact .inr ⟨rfl, rfl, _, ⟨hdb, hshelf, fun j hj => (hstored j).trans (if_neg hj)⟩,
      saved_insert hes.shelf hnumbers, (hstored x.id).trans (if_pos rfl)⟩

theorem commitRow_edits (h : x.Intact) (hd : l.database.Plain)
    (hes : l.database.Holds x.schema es) (hu : x.schema.Unnumbered) :
    ∃ es', l.database.Edits x.schema x.id es (x.commitRow l).2.database es' ∧
      Saved x.id es es' ∧ (x.Aligned b (stored? es x.id) →
        (x.commitRow l).1.2.record.Aligned b (stored? es' x.id)) := by
  obtain ⟨⟨e, he⟩, hdb⟩ | ⟨hok, -, es', hedits, hsaved, hown⟩ := commitRow_cases h hd hes hu
  · exact ⟨es, hdb ▸ (Database.Rewrites.refl _ hd hes).edits, .refl _ _, fun ha => he ▸ ha⟩
  · refine ⟨es', hedits, hsaved, fun ha => ?_⟩
    rw [hown]
    unfold commitRow at hok ⊢
    split at hok
    · cases hok
    · refine ⟨fun _ => ⟨_, rfl, image_agrees h⟩, (fun _ hnew => by cases hnew), ?_⟩
      intro _ image himage hcol
      cases himage
      exact parent_image hcol

/-- Rewriting values keeps a record aligned whose slots keep up with them. -/
theorem Aligned.rewritten {row row' : Option RowImage} (ha : x.Aligned b row)
    (hsome : ∀ image, row = some image → ∃ image', row' = some image' ∧
      image'.parent = image.parent ∧ (image.Agrees x.schema x.slots →
        image'.Agrees x.schema y.slots))
    (hnone : row = none → row' = none) (hs : y.schema = x.schema) (hn : y.isNew = x.isNew)
    (hp : y.parent = x.parent) : y.Aligned b row' where
  stored hnew := by
    obtain ⟨image, hrow, hagree⟩ := ha.stored (hn ▸ hnew)
    obtain ⟨image', hrow', -, hagree'⟩ := hsome image hrow
    exact ⟨image', hrow', hs ▸ hagree' hagree⟩
  absent hb hnew := hnone (ha.absent hb (hn ▸ hnew))
  parent hb image' hrow' hcol := by
    cases hrow : row with
    | none =>
      rw [hnone hrow] at hrow'
      cases hrow'
    | some image =>
      obtain ⟨image₁, hrow₁, hparent, -⟩ := hsome image hrow
      rw [hrow'] at hrow₁
      cases hrow₁
      rw [hparent, hp]
      exact ha.parent hb image hrow (hs ▸ hcol)

theorem Rewritten.image (h : Rewritten id es es') {image : RowImage}
    (hi : stored? es id = some image) :
    ∃ image', stored? es' id = some image' ∧ image'.parent = image.parent := by
  obtain ⟨f, hf, hfp, rfl⟩ := h
  refine ⟨f image, ?_, hfp image⟩
  rw [stored?_revise hf, if_pos rfl, hi]
  rfl

theorem Aligned.mirrors (ha : x.Aligned b (stored? es x.id))
    (hr : Rewritten x.id es es') (hm : Mirrors x.schema x.id x.slots y.slots es es')
    (hs : y.schema = x.schema) (hn : y.isNew = x.isNew) (hp : y.parent = x.parent) :
    y.Aligned b (stored? es' x.id) := by
  refine ha.rewritten (fun image hi => ?_) hr.of_none hs hn hp
  obtain ⟨image', hi', hparent⟩ := Rewritten.image hr hi
  exact ⟨image', hi', hparent, hm.agrees hi hi'⟩

theorem Intact.slots_in (h : x.Intact) : ∀ t ∈ x.slots, t.In x.schema := fun t ht =>
  ⟨field_mem h.toShaped ht, (h.slots t ht).current⟩

theorem database_result (w : Written) (x : Record) (l : Link) :
    (w.result x l).2.database = l.database := by
  unfold Written.result
  split
  · rfl
  · split <;> rfl

theorem database_commitFields (x : Record) (l : Link) :
    (x.commitFields l).2.database = (writeDirty x.schema x.id x.slots l).2.database := by
  unfold commitFields
  dsimp only
  split <;> exact database_result _ x _

theorem commitFields_edits (h : x.Intact) (hd : l.database.Plain)
    (hes : l.database.Holds x.schema es) :
    ∃ es', l.database.Rewrites x.schema x.id es (x.commitFields l).2.database es' ∧
      (x.Aligned b (stored? es x.id) →
        (x.commitFields l).1.2.record.Aligned b (stored? es' x.id)) := by
  obtain ⟨es', hrw, hm⟩ := writeDirty_rewrites x.id hd hes h.proper h.slots_in
    (names_nodup h.toShaped)
  refine ⟨es', ?_, fun ha => ?_⟩
  · rw [database_commitFields]
    exact hrw
  · unfold commitFields
    dsimp only
    split
    · exact ha.mirrors hrw.rows hm rfl rfl rfl
    · exact ha.mirrors hrw.rows hm rfl rfl rfl

theorem replay_edits (h : x.Intact) (hd : l.database.Plain)
    (hes : l.database.Holds x.schema es) (t : Track) :
    ∃ es', l.database.Rewrites x.schema x.id es (x.replay t l).2.database es' ∧
      (x.Aligned b (stored? es x.id) →
        (x.replay t l).1.2.record.Aligned b (stored? es' x.id)) := by
  cases hs : x.stack t with
  | nil =>
    rw [replay_nil hs]
    exact ⟨es, .refl _ hd hes, fun ha => ha⟩
  | cons c older =>
    have hc := h.changes t c (by rw [hs]; exact List.mem_cons_self)
    obtain ⟨es', hrw, hm⟩ := replaySlots_rewrites x.id c none hd hes
      h.proper (fun t ht => field_mem h.toShaped ht)
      (fun t ht v hv => hc.fits _ (field_mem h.toShaped ht) v hv) (names_nodup h.toShaped)
    refine ⟨es', ?_, fun ha => ?_⟩
    · simp only [Record.replay, hs]
      exact hrw
    · simp only [Record.replay, hs]
      cases t <;> exact ha.mirrors hrw.rows hm rfl rfl rfl

/-- A command writes at most the row of its record, and keeps the two aligned. -/
theorem run_edits (h : x.Intact) (hd : l.database.Plain) (hes : l.database.Holds x.schema es)
    (hu : x.schema.Unnumbered) (c : Command) :
    ∃ es', l.database.Edits x.schema x.id es (x.run l c).2.database es' ∧
      Saved x.id es es' ∧ (x.Aligned b (stored? es x.id) →
        (x.run l c).1.2.record.Aligned b (stored? es' x.id)) := by
  have hsame := (Database.Rewrites.refl x.id hd hes).edits
  cases c with
  | set field v =>
    refine ⟨es, hsame, .refl _ _, fun ha => ?_⟩
    show ((x.set field v).2.record).Aligned b _
    obtain ⟨hnone, -⟩ | ⟨t, ht, -, -, -, hset⟩ := x.set_cases field v
    · rw [hnone]
      exact ha
    · rw [hset]
      exact ha.of_baselines rfl rfl rfl (setSlot_baselines ht rfl rfl)
  | discard field =>
    refine ⟨es, hsame, .refl _ _, fun ha => ?_⟩
    show ((x.discard field).2.record).Aligned b _
    obtain hnone | ⟨t, ht, -, hdiscard⟩ := x.discard_cases field
    · rw [hnone]
      exact ha
    · rw [hdiscard]
      exact ha.of_baselines rfl rfl rfl (setSlot_baselines ht rfl rfl)
  | discardAll =>
    exact ⟨es, hsame, .refl _ _, fun ha => ha.of_baselines rfl rfl rfl discardAll_baselines⟩
  | stageDelete =>
    refine ⟨es, hsame, .refl _ _, fun ha => ?_⟩
    show (x.stageDelete.record).Aligned b _
    unfold Record.stageDelete
    split
    · exact ha
    · exact ha.of_baselines rfl rfl rfl fun t ht => ⟨t, ht, rfl, rfl⟩
  | commit =>
    show ∃ es', l.database.Edits x.schema x.id es (x.commit l).2.database es' ∧
      Saved x.id es es' ∧
      (x.Aligned b (stored? es x.id) → (x.commit l).1.2.record.Aligned b (stored? es' x.id))
    unfold Record.commit
    split
    · exact commitRow_edits h hd hes hu
    · obtain ⟨es', hrw, ha⟩ := commitFields_edits (b := b) h hd hes
      exact ⟨es', hrw.edits, hrw.rows.saved, ha⟩
  | replay t =>
    obtain ⟨es', hrw, ha⟩ := replay_edits (b := b) h hd hes t
    exact ⟨es', hrw.edits, hrw.rows.saved, ha⟩

/-! ## Taking in -/

/-- A slot that is taken in holds the stored value as its baseline, unless it has
an edit, which leaves the baseline. -/
theorem takeIn_baseline {ts : List Slot} {vs : List Value}
    (h : ∀ (i : Nat) (t : Slot) (v : Value), ts[i]? = some t → vs[i]? = some v →
      t.dirty = true → t.baseline = v)
    {i : Nat} {t : Slot} {v : Value} (ht : (takeIn ts vs).1[i]? = some t)
    (hv : vs[i]? = some v) : t.baseline = v := by
  induction ts generalizing vs i with
  | nil => simp [takeIn] at ht
  | cons u us ih =>
    cases vs with
    | nil => simp at hv
    | cons w ws =>
      have hrest := fun (i : Nat) (t : Slot) (v : Value) (ht : us[i]? = some t)
        (hv : ws[i]? = some v) => h (i + 1) t v (by simpa using ht) (by simpa using hv)
      unfold takeIn at ht
      dsimp only at ht
      cases i with
      | succ i =>
        rw [List.getElem?_cons_succ] at hv
        refine ih hrest (i := i) ?_ hv
        split at ht <;> simpa using ht
      | zero =>
        rw [List.getElem?_cons_zero] at hv
        cases hv
        split at ht
        · simp only [List.getElem?_cons_zero, Option.some.injEq] at ht
          subst ht
          rfl
        · next hnews =>
          simp only [List.getElem?_cons_zero, Option.some.injEq] at ht
          subst ht
          cases hd : u.dirty with
          | true => exact h 0 u v rfl rfl hd
          | false =>
            have hsame : (u.current != v || u.baseline != v) = false := by
              simpa [isNews, hd] using hnews
            rw [Bool.or_eq_false_iff] at hsame
            simpa using hsame.2

theorem value?_of_slot (h : x.Intact) {image : RowImage} {i : Nat} {t : Slot}
    (hf : x.schema.fields[i]? = some t.field) :
    image.value? x.schema t.name = image.values[i]? := by
  have hindex : x.schema.fieldIndex? t.field.name = some i := h.proper.fieldIndex? hf
  show (x.schema.fieldIndex? t.field.name).bind _ = _
  rw [hindex]
  rfl

theorem record_setParent (x : Record) (parent : Option RecordId) :
    (x.setParent parent).record = { x with parent } := by
  unfold Record.setParent
  split
  · next h =>
    subst h
    rfl
  · rfl

/-- A record that takes in what is stored under its key is aligned with it. -/
theorem hydrate_aligned (h : x.Intact) {image : RowImage} (hi : image.Fits x.schema)
    (hnew : b = true → x.isNew = false)
    (hd : x.isNew = false → ∀ t ∈ x.slots, t.dirty = true →
      image.value? x.schema t.name = some t.baseline) :
    (x.hydrate image).record.Aligned b (some image) := by
  have hrecord : (x.hydrate image).record =
      { x with slots := (takeIn x.slots image.values).1, parent := image.parent } :=
    record_setParent { x with slots := (takeIn x.slots image.values).1 } image.parent
  rw [hrecord]
  constructor
  · intro hold
    refine ⟨image, rfl, fun t ht => ?_⟩
    obtain ⟨i, hi'⟩ := List.mem_iff_getElem?.mp ht
    have hfield : x.schema.fields[i]? = some t.field := by
      rw [← h.fields, ← takeIn_fields x.slots image.values, List.getElem?_map, hi']
      rfl
    have hlt : i < image.values.length := by
      rw [hi.length]
      exact (List.getElem?_eq_some_iff.mp hfield).1
    have hv := List.getElem?_eq_getElem hlt
    have hbase : t.baseline = image.values[i] := by
      refine takeIn_baseline (fun j u v hu hv' hdirty => ?_) hi' hv
      have hval := hd hold u (List.mem_of_getElem? hu) hdirty
      rw [value?_of_slot h (h.getElem?_slots hu), hv'] at hval
      exact (Option.some.inj hval).symm
    show image.value? x.schema t.name = some t.baseline
    rw [value?_of_slot h hfield, hv, hbase]
  · intro hb hisNew
    rw [hnew hb] at hisNew
    cases hisNew
  · intro _ y hy _
    cases hy
    rfl

end Record

/-! ## Parents and deletions -/

namespace Link

variable {l : Link} {parent : Option RecordId}

/-- A parent that is stored goes into the row under the key. -/
theorem updateParent_edits (hd : l.database.Plain) (h : l.database.Holds s es) (hp : s.Proper)
    (hok : (l.updateParent s id parent).1 = .ok ()) :
    l.database.Edits s id es (l.updateParent s id parent).2.database
      (revise es id fun y => { y with parent }) := by
  unfold updateParent at hok ⊢
  cases hs : s.parentColumn with
  | none =>
    rw [hs] at hok
    cases hok
  | some p =>
    rw [hs] at hok
    have hw := Database.writes_parent es hp hs parent
    obtain ⟨e, he, -⟩ | ⟨n, d, -, hex, hdb⟩ := l.setColumn_cases s id p (.ofId? parent)
    · have hok' : (l.setColumn s id p (.ofId? parent)).1 = .ok () := hok
      rw [he] at hok'
      cases hok'
    · refine ⟨hdb.trans (Database.execute_updateColumn hd h hp hw hex),
        h.shelf.revise hw.id hw.fits, fun j hj => ?_⟩
      rw [stored?_revise hw.id, if_neg hj]

theorem deleteRow_edits (id : RecordId) (hd : l.database.Plain) (h : l.database.Holds s es) :
    ∃ es', l.database.Edits s id es (l.deleteRow s id).2.database es' := by
  obtain ⟨e, -, hdb⟩ | ⟨n, d, -, hex, hdb⟩ := l.execute_cases ⟨s, .deleteRow id⟩
  · refine ⟨es, ?_⟩
    have hdb' : (l.deleteRow s id).2.database = l.database := hdb
    rw [hdb']
    exact (Database.Rewrites.refl _ hd h).edits
  · refine ⟨unshelve es id, hdb.trans (Database.execute_deleteRow hd h hex),
      h.shelf.unshelve id, fun j hj => ?_⟩
    rw [stored?_unshelve, if_neg hj]

end Link

namespace Record

variable {x : Record} {b : Bool} {row : Option RowImage} {parent : Option RecordId}

/-- A parent that is not stored is one of a new record, or nobody asks. -/
theorem Aligned.setParent (h : x.Aligned b row) (hb : b = true → x.isNew = true) :
    (x.setParent parent).record.Aligned b row := by
  rw [record_setParent]
  refine ⟨h.stored, h.absent, fun hb' y hy _ => ?_⟩
  rw [h.absent hb' (hb hb')] at hy
  cases hy

/-- A parent goes into a record and its row. -/
theorem Aligned.adopt (h : x.Aligned b row) :
    (x.setParent parent).record.Aligned b (row.map fun y => { y with parent }) := by
  rw [record_setParent]
  refine ⟨fun hnew => ?_, fun hb hnew => ?_, fun _ y hy _ => ?_⟩
  · obtain ⟨y, rfl, hagree⟩ := h.stored hnew
    exact ⟨_, rfl, hagree⟩
  · rw [h.absent hb hnew]
    rfl
  · obtain ⟨z, -, rfl⟩ := Option.map_eq_some_iff.mp hy
    rfl

/-- Where nobody asks for parents, one may go into the row alone. -/
theorem Aligned.reparent (h : x.Aligned false row) :
    x.Aligned false (row.map fun y => { y with parent }) := by
  refine ⟨fun hnew => ?_, (fun hb => by cases hb), (fun hb => by cases hb)⟩
  obtain ⟨y, rfl, hagree⟩ := h.stored hnew
  exact ⟨_, rfl, hagree⟩

end Record

end LiveRecords
