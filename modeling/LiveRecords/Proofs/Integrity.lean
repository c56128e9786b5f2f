import LiveRecords.Proofs.Notices
import LiveRecords.Proofs.Inserting

/-!
# Integrity of records

What holds of a record whatever is done to it: it has one slot for each field,
the values in its slots and change sets fit their fields, a slot is dirty
exactly if its two values differ, and the flags say what they should.
-/

namespace LiveRecords

namespace Slot

/-- The values of a slot fit its field, and it is dirty if they differ. -/
structure Sound (t : Slot) : Prop where
  current : t.current.fits t.field.type t.field.notNull = true
  baseline : t.baseline.fits t.field.type t.field.notNull = true
  dirty : t.dirty = (t.current != t.baseline)

variable {t : Slot}

theorem Sound.clean {f : Field} {v : Value} (hv : v.fits f.type f.notNull = true) :
    (Slot.clean f v).Sound :=
  ⟨hv, hv, (bne_self_eq_false v).symm⟩

theorem Sound.assign (h : t.Sound) {v : Value} (hv : v.fits t.field.type t.field.notNull = true) :
    (t.assign v).Sound :=
  ⟨hv, h.baseline, rfl⟩

theorem Sound.revert (h : t.Sound) : t.revert.Sound :=
  ⟨h.baseline, h.baseline, (bne_self_eq_false t.baseline).symm⟩

theorem Sound.settle (h : t.Sound) : t.settle.Sound :=
  ⟨h.current, h.current, (bne_self_eq_false t.current).symm⟩

/-- A slot without an edit holds what is stored. -/
theorem Sound.current_eq (h : t.Sound) (hd : t.dirty = false) : t.current = t.baseline := by
  have hne := h.dirty
  rw [hd] at hne
  simpa using hne.symm

end Slot

namespace ChangeSet

/-- A change set holds values of fields that fit them, in the order of names. -/
structure Suits (c : ChangeSet) (s : Schema) : Prop where
  fits : ∀ f ∈ s.fields, ∀ v, c.get? f.name = some v → v.fits f.type f.notNull = true
  ordered : c.entries.Pairwise fun a b => a.1 < b.1

variable {c : ChangeSet} {s : Schema}

theorem suits_empty (s : Schema) : Suits {} s := ⟨by simp [get?], .nil⟩

theorem mem_insert {α : Type} {name : String} {v : α} {es : List (String × α)}
    {e : String × α} (h : e ∈ ByName.insert name v es) : e = (name, v) ∨ e ∈ es := by
  induction es with
  | nil =>
    rw [ByName.insert, List.mem_singleton] at h
    exact .inl h
  | cons x rest ih =>
    unfold ByName.insert at h
    split at h
    · rcases List.mem_cons.mp h with h | h
      · exact .inl h
      · exact .inr (by simp [h])
    split at h
    · rcases List.mem_cons.mp h with h | h
      · exact .inl h
      · exact .inr h
    · rcases List.mem_cons.mp h with h | h
      · exact .inr (by simp [h])
      · rcases ih h with h | h
        · exact .inl h
        · exact .inr (by simp [h])

theorem ordered_insert {α : Type} {name : String} {v : α} {es : List (String × α)}
    (h : es.Pairwise fun a b => a.1 < b.1) :
    (ByName.insert name v es).Pairwise fun a b => a.1 < b.1 := by
  induction es with
  | nil => exact List.pairwise_singleton _ _
  | cons x rest ih =>
    obtain ⟨hx, hrest⟩ := List.pairwise_cons.mp h
    unfold ByName.insert
    split
    · next heq =>
      subst heq
      exact List.pairwise_cons.mpr ⟨hx, hrest⟩
    split
    · next hlt =>
      refine List.pairwise_cons.mpr ⟨fun e he => ?_, h⟩
      rcases List.mem_cons.mp he with rfl | he
      · exact hlt
      · exact String.lt_trans hlt (hx e he)
    · next hne hle =>
      refine List.pairwise_cons.mpr ⟨fun e he => ?_, ih hrest⟩
      rcases mem_insert he with rfl | he
      · exact Std.lt_of_le_of_ne (String.not_lt.mp hle) fun heq => hne heq.symm
      · exact hx e he

theorem Suits.record (h : c.Suits s) {field : String} {v : Value}
    (hv : ∀ f ∈ s.fields, f.name = field → v.fits f.type f.notNull = true) :
    (c.record field v).Suits s where
  fits := by
    intro f hf w hw
    by_cases hn : f.name = field
    · rw [hn, get?_record_self] at hw
      cases hw
      exact hv f hf hn
    · rw [get?_record_of_ne c hn] at hw
      exact h.fits f hf w hw
  ordered := ordered_insert h.ordered

end ChangeSet

namespace Record

/-- The slots and the stacks of a record are of its type. -/
structure Shaped (x : Record) : Prop where
  proper : x.schema.Proper
  fields : x.slots.map (·.field) = x.schema.fields
  slots : ∀ t ∈ x.slots, t.Sound
  changes : ∀ t, ∀ c ∈ x.stack t, c.Suits x.schema

/-- The flags of a record are up to date as well. -/
structure Intact (x : Record) : Prop extends Shaped x where
  flags : x.refresh.1 = x

/-- No field has an edit. -/
def Unedited (x : Record) : Prop := ∀ t ∈ x.slots, t.dirty = false

variable {x y : Record} {t : Slot}

theorem Shaped.effect (h : x.Shaped) (notices : List Notice) (events : List RecordEvent) :
    (x.effect notices events).record.Intact :=
  ⟨⟨h.proper, h.fields, h.slots, h.changes⟩, rfl⟩

/-- What is done to one slot, or to some. -/
theorem Shaped.of_slots (h : x.Shaped) {ts : List Slot}
    (hf : ts.map (·.field) = x.slots.map (·.field)) (ht : ∀ t ∈ ts, t.Sound) :
    Shaped { x with slots := ts } :=
  ⟨h.proper, hf.trans h.fields, ht, h.changes⟩

/-- One slot for each field of a type means that no two slots have one name. -/
theorem nodup_of_fields (hp : x.schema.Proper)
    (hf : x.slots.map (·.field) = x.schema.fields) : (x.slots.map (·.name)).Nodup := by
  have hnames : x.slots.map (·.name) = x.schema.fieldNames := by
    have hmap := congrArg (List.map Field.name) hf
    rw [List.map_map] at hmap
    exact hmap
  rw [hnames]
  have hfields := (List.pairwise_append.mp hp.distinct).1
  exact hfields.imp fun hne heq => by simp [heq] at hne

theorem names_nodup (h : x.Shaped) : (x.slots.map (·.name)).Nodup :=
  nodup_of_fields h.proper h.fields

theorem field_mem (h : x.Shaped) (ht : t ∈ x.slots) : t.field ∈ x.schema.fields :=
  h.fields ▸ List.mem_map_of_mem ht

theorem eq_of_name {ts : List Slot} (hn : (ts.map (·.name)).Nodup) {t u : Slot} (ht : t ∈ ts)
    (hu : u ∈ ts) (h : t.name = u.name) : t = u := by
  induction ts with
  | nil => cases ht
  | cons a ts ih =>
    rw [List.map_cons, List.nodup_cons] at hn
    rcases List.mem_cons.mp ht with rfl | ht'
    · rcases List.mem_cons.mp hu with rfl | hu'
      · rfl
      · have hmem : u.name ∈ ts.map (·.name) := List.mem_map_of_mem hu'
        exact absurd (h ▸ hmem) hn.1
    · rcases List.mem_cons.mp hu with rfl | hu'
      · have hmem : t.name ∈ ts.map (·.name) := List.mem_map_of_mem ht'
        exact absurd (h ▸ hmem) hn.1
      · exact ih hn.2 ht' hu'

theorem mem_of_slotOf {field : String} (h : x.slotOf field = .ok t) :
    t ∈ x.slots ∧ t.name = field := by
  unfold slotOf at h
  split at h
  · next s hs =>
    cases h
    exact ⟨List.mem_of_find?_eq_some hs, by simpa using List.find?_some hs⟩
  · cases h

theorem Shaped.clearRedo (h : x.Shaped) : Shaped { x with redo := [] } where
  proper := h.proper
  fields := h.fields
  slots := h.slots
  changes t c hc := by
    cases t with
    | undo => exact h.changes .undo c hc
    | redo => cases hc

/-- A slot of the same field takes the place of a slot. -/
theorem setSlot_fields (hn : (x.slots.map (·.name)).Nodup) (ht : t ∈ x.slots) {u : Slot}
    (hu : u.field = t.field) :
    (x.setSlot u).slots.map (·.field) = x.slots.map (·.field) := by
  show (x.slots.map fun a => if a.name = u.name then u else a).map (·.field) = _
  rw [List.map_map]
  refine List.map_congr_left fun a ha => ?_
  show (if a.name = u.name then u else a).field = a.field
  split
  · next hname =>
    have hat : a.name = t.name := hname.trans (congrArg Field.name hu)
    rw [hu, eq_of_name hn ha ht hat]
  · rfl

theorem Shaped.setSlot (h : x.Shaped) (ht : t ∈ x.slots) {u : Slot} (hu : u.field = t.field)
    (hs : u.Sound) : (x.setSlot u).Shaped := by
  refine h.of_slots (setSlot_fields (names_nodup h) ht hu) ?_
  intro a ha
  obtain ⟨b, hb, rfl⟩ := List.mem_map.mp ha
  split
  · exact hs
  · exact h.slots b hb

theorem initial_intact {id : RecordId} {s : Schema} (hs : s.Proper) (isNew : Bool) :
    (Record.initial id s isNew).Intact where
  proper := hs
  fields := by
    show (s.fields.map fun f => Slot.clean f f.initialValue).map (·.field) = s.fields
    rw [List.map_map]
    exact List.map_id _
  slots := by
    intro t ht
    obtain ⟨f, -, rfl⟩ := List.mem_map.mp ht
    refine .clean ?_
    unfold Field.initialValue
    split
    · exact Value.defaultValue_fits _ _
    · next hn => simpa [Value.fits_null] using hn
  changes t c hc := by cases t <;> cases hc
  flags := by
    have hclean : (Record.initial id s isNew).slots.any (·.dirty) = false := by
      show (s.fields.map fun f => Slot.clean f f.initialValue).any (·.dirty) = false
      rw [List.any_map, List.any_eq_false]
      exact fun _ _ => Bool.false_ne_true
    simp only [refresh, hclean]
    rfl

/-! ## Editing -/

/-- A value that is set is new to a slot, or nothing happens. -/
theorem set_cases (x : Record) (field : String) (v : Value) :
    ((x.set field v).2 = x.unchanged ∧ (x.set field v).1 ≠ .ok true) ∨
      ∃ t ∈ x.slots, t.name = field ∧ v.fits t.field.type t.field.notNull = true ∧
        t.current ≠ v ∧ x.set field v =
          (.ok true, { x.setSlot (t.assign v) with redo := [] }.effect
            (List.replicate x.redo.length (.lost .redo)) [.field field]) := by
  unfold Record.set
  cases hs : x.slotOf field with
  | error e => exact .inl ⟨rfl, (by intro h; cases h)⟩
  | ok t =>
    obtain ⟨ht, hname⟩ := mem_of_slotOf hs
    dsimp only
    split
    · exact .inl ⟨rfl, (by intro h; cases h)⟩
    · next hfits =>
      split
      · exact .inl ⟨rfl, (by intro h; cases h)⟩
      · next hne => exact .inr ⟨t, ht, hname, by simpa using hfits, hne, rfl⟩

/-- An edit that is given up was there, or nothing happens. -/
theorem discard_cases (x : Record) (field : String) :
    (x.discard field).2 = x.unchanged ∨
      ∃ t ∈ x.slots, t.name = field ∧
        (x.discard field).2 = (x.setSlot t.revert).effect [] [.field field] := by
  unfold Record.discard
  cases hs : x.slotOf field with
  | error e => exact .inl rfl
  | ok t =>
    obtain ⟨ht, hname⟩ := mem_of_slotOf hs
    dsimp only
    split
    · exact .inr ⟨t, ht, hname, rfl⟩
    · exact .inl rfl

theorem Intact.set (h : x.Intact) (field : String) (v : Value) :
    (x.set field v).2.record.Intact := by
  obtain ⟨hsame, -⟩ | ⟨t, ht, -, hv, -, hset⟩ := x.set_cases field v
  · rw [hsame]
    exact h
  · have hslot := h.toShaped.setSlot ht (Slot.field_assign t v) ((h.slots t ht).assign hv)
    rw [hset]
    exact hslot.clearRedo.effect _ _

theorem Intact.discard (h : x.Intact) (field : String) :
    (x.discard field).2.record.Intact := by
  obtain hsame | ⟨t, ht, -, hdiscard⟩ := x.discard_cases field
  · rw [hsame]
    exact h
  · rw [hdiscard]
    exact (h.toShaped.setSlot ht (Slot.field_revert t) (h.slots t ht).revert).effect _ _

theorem Intact.discardAll (h : x.Intact) : x.discardAll.record.Intact := by
  refine (h.toShaped.of_slots ?_ ?_).effect _ _
  · rw [List.map_map]
    refine List.map_congr_left fun t _ => ?_
    show (if t.dirty then t.revert else t).field = t.field
    split <;> rfl
  · intro t ht
    obtain ⟨u, hu, rfl⟩ := List.mem_map.mp ht
    split
    · exact (h.slots u hu).revert
    · exact h.slots u hu

theorem Intact.stageDelete (h : x.Intact) : x.stageDelete.record.Intact := by
  unfold Record.stageDelete
  split
  · exact h
  · exact ⟨⟨h.proper, h.fields, h.slots, h.changes⟩,
      congrArg (fun y => { y with deletePending := true }) h.flags⟩

theorem Intact.setParent (h : x.Intact) (parent : Option RecordId) :
    (x.setParent parent).record.Intact := by
  unfold Record.setParent
  split
  · exact h
  · exact ⟨⟨h.proper, h.fields, h.slots, h.changes⟩,
      congrArg (fun y => { y with parent }) h.flags⟩

/-! ## Taking in -/

theorem takeIn_fields (ts : List Slot) (vs : List Value) :
    (takeIn ts vs).1.map (·.field) = ts.map (·.field) := by
  fun_induction takeIn ts vs with
  | case1 t ts v vs slots changed heq hnews ih =>
    rw [heq] at ih
    exact congrArg (t.field :: ·) ih
  | case2 t ts v vs slots changed heq hnews ih =>
    rw [heq] at ih
    exact congrArg (t.field :: ·) ih
  | case3 ts vs => rfl

theorem takeIn_sound {ts : List Slot} {vs : List Value} (ht : ∀ t ∈ ts, t.Sound)
    (hv : ∀ (i : Nat) (t : Slot) (v : Value), ts[i]? = some t → vs[i]? = some v →
      v.fits t.field.type t.field.notNull = true) : ∀ t ∈ (takeIn ts vs).1, t.Sound := by
  induction ts generalizing vs with
  | nil =>
    intro t hmem
    simp [takeIn] at hmem
  | cons t ts ih =>
    cases vs with
    | nil => exact ht
    | cons v vs =>
      have hrest : ∀ u ∈ (takeIn ts vs).1, u.Sound :=
        ih (fun u hu => ht u (by simp [hu])) fun i u w hu hw =>
          hv (i + 1) u w (by simpa using hu) (by simpa using hw)
      have hhead := hv 0 t v rfl rfl
      unfold takeIn
      dsimp only
      split
      · intro u hu
        rcases List.mem_cons.mp hu with rfl | hu
        · exact .clean hhead
        · exact hrest u hu
      · intro u hu
        rcases List.mem_cons.mp hu with rfl | hu
        · exact ht u (by simp)
        · exact hrest u hu

/-- The slot at a place is of the field at that place. -/
theorem Shaped.getElem?_slots (h : x.Shaped) {i : Nat} (ht : x.slots[i]? = some t) :
    x.schema.fields[i]? = some t.field := by
  rw [← h.fields, List.getElem?_map, ht]
  rfl

/-- Flags depend on which slots are dirty, and on the stacks. -/
theorem flags_of_dirty (h : x.refresh.1 = x) {ts : List Slot}
    (hd : ts.any (·.dirty) = x.slots.any (·.dirty)) :
    (Record.refresh { x with slots := ts }).1 = { x with slots := ts } := by
  have hx := congrArg (fun y => { y with slots := ts }) h
  simp only [refresh] at hx ⊢
  rw [hd]
  exact hx

theorem takeIn_dirty (ts : List Slot) (vs : List Value) :
    (takeIn ts vs).1.any (·.dirty) = ts.any (·.dirty) := by
  fun_induction takeIn ts vs with
  | case1 t ts v vs slots changed heq hnews ih =>
    rw [heq] at ih
    have hclean : t.dirty = false := by
      simp only [isNews, Bool.and_eq_true, Bool.not_eq_true'] at hnews
      exact hnews.1
    rw [List.any_cons, List.any_cons, ih, hclean]
    rfl
  | case2 t ts v vs slots changed heq hnews ih =>
    rw [heq] at ih
    rw [List.any_cons, List.any_cons, ih]
  | case3 ts vs => rfl

theorem Intact.hydrate (h : x.Intact) {image : RowImage} (hi : image.Fits x.schema) :
    (x.hydrate image).record.Intact := by
  have hfits : ∀ (i : Nat) (t : Slot) (v : Value), x.slots[i]? = some t →
      image.values[i]? = some v → v.fits t.field.type t.field.notNull = true :=
    fun i t v ht hv => hi.values (h.getElem?_slots ht) hv
  have hslots := h.toShaped.of_slots (takeIn_fields x.slots image.values)
    (takeIn_sound h.slots hfits)
  have htaken : Intact { x with slots := (takeIn x.slots image.values).1 } :=
    ⟨hslots, flags_of_dirty h.flags (takeIn_dirty _ _)⟩
  exact htaken.setParent image.parent

/-! ## Committing -/

theorem writeDirty_fields (s : Schema) (id : RecordId) (ts : List Slot) (l : Link) :
    (writeDirty s id ts l).1.slots.map (·.field) = ts.map (·.field) := by
  induction ts generalizing l with
  | nil => rfl
  | cons t ts ih =>
    unfold writeDirty
    split
    · split
      · exact congrArg (t.field :: ·) (ih _)
      · rfl
    · exact congrArg (t.field :: ·) (ih _)

theorem writeDirty_sound {s : Schema} {id : RecordId} {ts : List Slot} {l : Link}
    (h : ∀ t ∈ ts, t.Sound) : ∀ t ∈ (writeDirty s id ts l).1.slots, t.Sound := by
  induction ts generalizing l with
  | nil =>
    intro t ht
    cases ht
  | cons t ts ih =>
    have hrest : ∀ (l : Link), ∀ u ∈ (writeDirty s id ts l).1.slots, u.Sound :=
      fun l => ih fun u hu => h u (by simp [hu])
    unfold writeDirty
    split
    · split
      · intro u hu
        rcases List.mem_cons.mp hu with rfl | hu
        · exact (h t (by simp)).settle
        · exact hrest _ u hu
      · exact h
    · intro u hu
      rcases List.mem_cons.mp hu with rfl | hu
      · exact h u (by simp)
      · exact hrest _ u hu

theorem mem_previous {s : Schema} {id : RecordId} {ts : List Slot} {l : Link}
    {e : String × Value} (he : e ∈ (writeDirty s id ts l).1.previous) :
    ∃ t ∈ ts, e = (t.name, t.baseline) := by
  induction ts generalizing l with
  | nil => cases he
  | cons t ts ih =>
    unfold writeDirty at he
    split at he
    · split at he
      · rcases List.mem_cons.mp he with rfl | he
        · exact ⟨t, by simp, rfl⟩
        · obtain ⟨u, hu, rfl⟩ := ih he
          exact ⟨u, by simp [hu], rfl⟩
      · cases he
    · obtain ⟨u, hu, rfl⟩ := ih he
      exact ⟨u, by simp [hu], rfl⟩

/-- Fields of one name are the same. -/
theorem field_eq_of_name (h : x.Shaped) {f g : Field} (hf : f ∈ x.schema.fields)
    (hg : g ∈ x.schema.fields) (hn : f.name = g.name) : f = g := by
  obtain ⟨i, hi⟩ := List.mem_iff_getElem?.mp hf
  obtain ⟨j, hj⟩ := List.mem_iff_getElem?.mp hg
  cases Database.field_index_unique h.proper hi hj (hn ▸ sameName_refl _)
  rw [hi] at hj
  exact Option.some.inj hj

/-- A value that fits a slot fits every field of its name. -/
theorem fits_of_name (h : x.Shaped) (ht : t ∈ x.slots) {v : Value}
    (hv : v.fits t.field.type t.field.notNull = true) :
    ∀ f ∈ x.schema.fields, f.name = t.name → v.fits f.type f.notNull = true := by
  intro f hf hn
  rw [field_eq_of_name h hf (field_mem h ht) hn]
  exact hv

theorem changes_suit (h : x.Shaped) {es : List (String × Value)} {c : ChangeSet}
    (hc : c.Suits x.schema) (he : ∀ e ∈ es, ∃ t ∈ x.slots, e = (t.name, t.baseline)) :
    (es.foldl (fun c e => c.record e.1 e.2) c).Suits x.schema := by
  induction es generalizing c with
  | nil => exact hc
  | cons e es ih =>
    obtain ⟨t, ht, rfl⟩ := he e (by simp)
    refine ih (hc.record ?_) fun e' he' => he e' (by simp [he'])
    exact fits_of_name h ht (h.slots t ht).baseline

theorem Shaped.push (h : x.Shaped) {c : ChangeSet} (hc : c.Suits x.schema) :
    Shaped { x with undo := c :: x.undo } where
  proper := h.proper
  fields := h.fields
  slots := h.slots
  changes t c' hc' := by
    cases t with
    | undo =>
      rcases List.mem_cons.mp hc' with rfl | hc'
      · exact hc
      · exact h.changes .undo c' hc'
    | redo => exact h.changes .redo c' hc'

theorem Intact.commit (h : x.Intact) (l : Link) : (x.commit l).1.2.record.Intact := by
  unfold Record.commit
  split
  · unfold commitRow
    split
    · exact h
    · have hslots : Shaped { x with slots := x.slots.map Slot.settle } :=
        h.toShaped.of_slots (by rw [List.map_map]; rfl) (by
          intro t ht
          obtain ⟨u, hu, rfl⟩ := List.mem_map.mp ht
          exact (h.slots u hu).settle)
      exact Shaped.effect (x := { x with
        isNew := false, deletePending := false, slots := x.slots.map Slot.settle })
        ⟨hslots.proper, hslots.fields, hslots.slots, hslots.changes⟩ _ _
  · unfold commitFields
    have hslots := h.toShaped.of_slots (writeDirty_fields x.schema x.id x.slots l)
      (writeDirty_sound h.slots)
    have hsuit : (writeDirty x.schema x.id x.slots l).1.changes.Suits x.schema :=
      changes_suit h.toShaped (ChangeSet.suits_empty _) fun e he => mem_previous he
    dsimp only
    split
    · exact hslots.effect _ _
    · exact (hslots.push hsuit).effect _ _

/-! ## Replaying -/

theorem writeThrough_field (s : Schema) (id : RecordId) (t : Slot) (failure : Option StoreError)
    (l : Link) : (writeThrough s id t failure l).1.field = t.field := by
  unfold writeThrough
  split
  · rfl
  · split <;> rfl

theorem writeThrough_sound {s : Schema} {id : RecordId} {failure : Option StoreError} {l : Link}
    (hc : t.current.fits t.field.type t.field.notNull = true)
    (hb : t.baseline.fits t.field.type t.field.notNull = true) :
    (writeThrough s id t failure l).1.Sound := by
  unfold writeThrough
  split
  · exact ⟨hc, hb, rfl⟩
  · split
    · exact ⟨hc, hc, (bne_self_eq_false t.current).symm⟩
    · exact ⟨hc, hb, rfl⟩

theorem replaySlots_fields (s : Schema) (id : RecordId) (ts : List Slot) (c : ChangeSet)
    (failure : Option StoreError) (l : Link) :
    (replaySlots s id ts c failure l).1.slots.map (·.field) = ts.map (·.field) := by
  induction ts generalizing c failure l with
  | nil => rfl
  | cons t ts ih =>
    unfold replaySlots
    split
    · exact congrArg (t.field :: ·) (ih _ _ _)
    · dsimp only
      rw [List.map_cons, List.map_cons, writeThrough_field, ih]

/-- Replaying keeps slots sound, and what was exchanged fits as well. -/
theorem replaySlots_sound (h : x.Shaped) (id : RecordId) {ts : List Slot} {c : ChangeSet}
    (hts : ∀ t ∈ ts, t ∈ x.slots) (hc : c.Suits x.schema) (failure : Option StoreError)
    (l : Link) :
    (∀ t ∈ (replaySlots x.schema id ts c failure l).1.slots, t.Sound) ∧
      (replaySlots x.schema id ts c failure l).1.changes.Suits x.schema := by
  induction ts generalizing c failure l with
  | nil => exact ⟨(fun t ht => by cases ht), hc⟩
  | cons t ts ih =>
    have ht := hts t (by simp)
    have hsound := h.slots t ht
    have hrest : ∀ u ∈ ts, u ∈ x.slots := fun u hu => hts u (by simp [hu])
    unfold replaySlots
    split
    · obtain ⟨hslots, hsuit⟩ := ih hrest hc failure l
      refine ⟨fun u hu => ?_, hsuit⟩
      rcases List.mem_cons.mp hu with rfl | hu
      · exact hsound
      · exact hslots u hu
    · next restored c' hswap =>
      obtain ⟨old, hold, hpair⟩ := Option.map_eq_some_iff.mp hswap
      cases hpair
      have hsuit := hc.record (fits_of_name h ht hsound.current)
      have hfits := hc.fits _ (field_mem h ht) _ hold
      dsimp only
      obtain ⟨hslots, hsuit'⟩ := ih hrest hsuit
        (writeThrough x.schema id { t with current := restored } failure l).2.1
        (writeThrough x.schema id { t with current := restored } failure l).2.2
      refine ⟨fun u hu => ?_, hsuit'⟩
      rcases List.mem_cons.mp hu with rfl | hu
      · exact writeThrough_sound hfits hsound.baseline
      · exact hslots u hu

@[simp] theorem schema_setStack (x : Record) (t : Track) (cs : List ChangeSet) :
    (x.setStack t cs).schema = x.schema := by
  cases t <;> rfl

theorem Shaped.setStack (h : x.Shaped) (t : Track) {cs : List ChangeSet}
    (hcs : ∀ c ∈ cs, c.Suits x.schema) : (x.setStack t cs).Shaped := by
  cases t with
  | undo =>
    refine ⟨h.proper, h.fields, h.slots, fun u c hc => ?_⟩
    cases u with
    | undo => exact hcs c hc
    | redo => exact h.changes .redo c hc
  | redo =>
    refine ⟨h.proper, h.fields, h.slots, fun u c hc => ?_⟩
    cases u with
    | undo => exact h.changes .undo c hc
    | redo => exact hcs c hc

theorem Intact.replay (h : x.Intact) (t : Track) (l : Link) :
    (x.replay t l).1.2.record.Intact := by
  cases hs : x.stack t with
  | nil =>
    rw [replay_nil hs]
    exact h
  | cons c older =>
    have hc := h.changes t c (by rw [hs]; exact List.mem_cons_self)
    obtain ⟨hslots, hsuit⟩ := replaySlots_sound h.toShaped x.id (fun _ ht => ht) hc none l
    have hshaped := h.toShaped.of_slots (replaySlots_fields x.schema x.id x.slots c none l) hslots
    have holder : ∀ c' ∈ older, c'.Suits x.schema := fun c' hc' =>
      h.changes t c' (by rw [hs]; exact List.mem_cons_of_mem _ hc')
    have hnewer : ∀ c' ∈ (replaySlots x.schema x.id x.slots c none l).1.changes ::
        x.stack t.opposite, c'.Suits x.schema := by
      intro c' hc'
      rcases List.mem_cons.mp hc' with rfl | hc'
      · exact hsuit
      · exact h.changes t.opposite c' hc'
    have hstacks := (hshaped.setStack t holder).setStack t.opposite fun c' hc' => by
      rw [schema_setStack]
      exact hnewer c' hc'
    simp only [Record.replay, hs]
    exact hstacks.effect _ _

/-- Whatever is asked of a record, it stays intact. -/
theorem Intact.run (h : x.Intact) (l : Link) (c : Command) : (x.run l c).1.2.record.Intact := by
  cases c with
  | set field v => exact h.set field v
  | discard field => exact h.discard field
  | discardAll => exact h.discardAll
  | stageDelete => exact h.stageDelete
  | commit => exact h.commit l
  | replay t => exact h.replay t l

end Record

end LiveRecords
