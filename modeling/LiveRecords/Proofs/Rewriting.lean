import LiveRecords.Proofs.Executing
import LiveRecords.Proofs.Integrity
import LiveRecords.Proofs.Statements

/-!
# How records write their rows

Field by field, or as a whole. A record writes under its own key only; field by
field it changes values of the row that is there and nothing else, and what it
then takes for stored is what the row holds.
-/

namespace LiveRecords

/-- The image under a key. -/
def stored? (es : List Shelved) (id : RecordId) : Option RowImage :=
  (shelved? es id).map (·.image)

namespace RowImage

variable {s : Schema} {x : RowImage}

/-- The value of a field. -/
def value? (s : Schema) (x : RowImage) (field : String) : Option Value :=
  (s.fieldIndex? field).bind fun i => x.values[i]?

theorem value?_setValue_of_ne {field name : String} (h : name ≠ field) (v : Value) :
    (x.setValue s field v).value? s name = x.value? s name := by
  unfold value? setValue
  cases hi : s.fieldIndex? field with
  | none => rfl
  | some i =>
    cases hj : s.fieldIndex? name with
    | none => rfl
    | some j =>
      have hne : i ≠ j := by
        rintro rfl
        obtain ⟨f, hf, hfn⟩ := fieldIndex?_eq_some hi
        obtain ⟨g, hg, hgn⟩ := fieldIndex?_eq_some hj
        rw [hf] at hg
        cases hg
        exact h (hgn.symm.trans hfn)
      simp [List.getElem?_set, hne]

theorem value?_setValue_self {field : String} {i : Nat} (hi : s.fieldIndex? field = some i)
    (hl : i < x.values.length) (v : Value) :
    (x.setValue s field v).value? s field = some v := by
  simp [value?, setValue, hi, hl]

end RowImage

/-- The place of a field among those of its type. -/
theorem Schema.Proper.fieldIndex? {s : Schema} (hp : s.Proper) {i : Nat} {f : Field}
    (hf : s.fields[i]? = some f) : s.fieldIndex? f.name = some i := by
  obtain ⟨hlt, hget⟩ := List.getElem?_eq_some_iff.mp hf
  refine List.findIdx?_eq_some_iff_getElem.mpr ⟨hlt, by simp [hget], fun j hj => ?_⟩
  rw [Bool.not_eq_true]
  refine beq_eq_false_iff_ne.mpr fun hn => ?_
  have hg := List.getElem?_eq_getElem (Nat.lt_trans hj hlt)
  have hij := Database.field_index_unique hp hg hf (hn ▸ sameName_refl _)
  omega

section Shelves

variable {s : Schema} {es es' es₁ es₂ : List Shelved} {id : RecordId}

theorem stored?_revise {f : RowImage → RowImage} (hid : ∀ x : RowImage, (f x).id = x.id)
    (j : RecordId) : stored? (revise es id f) j =
      if j = id then (stored? es j).map f else stored? es j := by
  unfold stored?
  rw [shelved?_revise hid]
  split
  · rw [Option.map_map, Option.map_map]
    rfl
  · rfl

theorem stored?_parent (es : List Shelved) (id : RecordId) (parent : Option RecordId) :
    stored? (revise es id fun y => { y with parent }) id =
      (stored? es id).map fun y => { y with parent } := by
  have hid : ∀ y : RowImage, ({ y with parent } : RowImage).id = y.id := fun _ => rfl
  exact (stored?_revise hid id).trans (if_pos rfl)

theorem stored?_insert (hn : (es.map (·.image.id)).Nodup) (m : Int) (y : RowImage)
    (j : RecordId) : stored? (insertShelved ⟨m, y⟩ (unshelve es y.id)) j =
      if j = y.id then some y else stored? es j := by
  have hinsert := shelved?_insert (e := ⟨m, y⟩) hn j
  unfold stored?
  by_cases hj : j = y.id
  · rw [if_pos hj]
    exact congrArg (Option.map (·.image)) (hinsert.trans (if_pos hj))
  · rw [if_neg hj]
    exact congrArg (Option.map (·.image)) (hinsert.trans (if_neg hj))

theorem stored?_unshelve (j : RecordId) :
    stored? (unshelve es id) j = if j = id then none else stored? es j := by
  unfold stored?
  rw [shelved?_unshelve]
  split <;> rfl

/-- New values under a key, and nothing else. -/
def Rewritten (id : RecordId) (es es' : List Shelved) : Prop :=
  ∃ f : RowImage → RowImage, (∀ x, (f x).id = x.id) ∧ (∀ x, (f x).parent = x.parent) ∧
    es' = revise es id f

theorem revise_id (es : List Shelved) (id : RecordId) : revise es id (fun x => x) = es := by
  refine (List.map_congr_left (g := fun e => e) fun e _ => ?_).trans (List.map_id' es)
  split <;> rfl

theorem revise_revise {f g : RowImage → RowImage} (hf : ∀ x : RowImage, (f x).id = x.id) :
    revise (revise es id f) id g = revise es id fun x => g (f x) := by
  unfold revise
  rw [List.map_map]
  refine List.map_congr_left fun e _ => ?_
  show (if (if e.image.id = id then e.setImage f else e).image.id = id then
    (if e.image.id = id then e.setImage f else e).setImage g
    else if e.image.id = id then e.setImage f else e) = _
  by_cases he : e.image.id = id
  · have hfe : (e.setImage f).image.id = id := (hf e.image).trans he
    rw [if_pos he, if_pos hfe]
    exact (if_pos he).symm
  · rw [if_neg he, if_neg he]
    exact (if_neg he).symm

theorem Rewritten.refl (id : RecordId) (es : List Shelved) : Rewritten id es es :=
  ⟨fun x => x, fun _ => rfl, fun _ => rfl, (revise_id es id).symm⟩

theorem Rewritten.trans (h₁ : Rewritten id es es₁) (h₂ : Rewritten id es₁ es₂) :
    Rewritten id es es₂ := by
  obtain ⟨f, hf, hfp, rfl⟩ := h₁
  obtain ⟨g, hg, hgp, rfl⟩ := h₂
  exact ⟨fun x => g (f x), fun x => (hg _).trans (hf x), fun x => (hgp _).trans (hfp x),
    revise_revise hf⟩

theorem Rewritten.of_ne (h : Rewritten id es es') {j : RecordId} (hj : j ≠ id) :
    stored? es' j = stored? es j := by
  obtain ⟨f, hf, -, rfl⟩ := h
  rw [stored?_revise hf, if_neg hj]

theorem Rewritten.of_none (h : Rewritten id es es') (hn : stored? es id = none) :
    stored? es' id = none := by
  obtain ⟨f, hf, -, rfl⟩ := h
  rw [stored?_revise hf, if_pos rfl, hn]
  rfl

/-- At most the row under a key is written: in its place, or in one of its own
where there was none, which comes last as long as there are numbers above. -/
inductive Saved (id : RecordId) (es : List Shelved) : List Shelved → Prop
  | revised {f : RowImage → RowImage} (hid : ∀ x, (f x).id = x.id) : Saved id es (revise es id f)
  | placed {e : Shelved} (hid : e.image.id = id) (hnone : shelved? es id = none)
      (hlast : (∀ x ∈ es, x.number < Table.maxNumber) → ∀ x ∈ es, x.number < e.number) :
      Saved id es (insertShelved e es)

theorem Saved.refl (id : RecordId) (es : List Shelved) : Saved id es es := by
  have h : Saved id es (revise es id fun x => x) := .revised fun _ => rfl
  rwa [revise_id] at h

theorem Rewritten.saved (h : Rewritten id es es') : Saved id es es' := by
  obtain ⟨f, hf, -, rfl⟩ := h
  exact .revised hf

theorem Saved.trans (h₁ : Saved id es es₁) (h₂ : Saved id es₁ es₂) : Saved id es es₂ := by
  cases h₂ with
  | @revised g hg =>
    cases h₁ with
    | revised hf =>
      rw [revise_revise hf]
      exact .revised fun x => (hg _).trans (hf x)
    | placed hid hnone hlast =>
      rw [revise_insertShelved hnone hid]
      exact .placed ((hg _).trans hid) hnone hlast
  | placed hid hnone hlast =>
    cases h₁ with
    | @revised f hf =>
      have hrow : shelved? (revise es id f) id = _ := shelved?_revise hf id
      rw [hnone, if_pos rfl, eq_comm, Option.map_eq_none_iff] at hrow
      rw [Database.revise_eq_self hrow] at hlast ⊢
      exact .placed hid hrow hlast
    | placed hid' _ _ =>
      exact absurd hid' (shelved?_eq_none.mp hnone _ (mem_insertShelved.mpr (.inl rfl)))

theorem Saved.of_ne (h : Saved id es es') (hn : (es.map (·.image.id)).Nodup) {j : RecordId}
    (hj : j ≠ id) : shelved? es' j = shelved? es j := by
  cases h with
  | revised hf => exact (shelved?_revise hf j).trans (if_neg hj)
  | @placed e hid hnone _ =>
    subst hid
    have hinsert := shelved?_insert (e := e) hn j
    rw [Database.unshelve_eq_self hnone] at hinsert
    exact hinsert.trans (if_neg hj)

/-- A whole row that is written is saved. -/
theorem saved_insert {s : Schema} (h : Shelf s es) {y : RowImage} {m : Int}
    (hm : Database.Numbers es y.id m) :
    Saved y.id es (insertShelved ⟨m, y⟩ (unshelve es y.id)) := by
  cases he : shelved? es y.id with
  | none =>
    rw [Database.unshelve_eq_self he]
    exact .placed rfl he (hm.last he)
  | some e =>
    obtain ⟨hmem, hid⟩ := mem_of_shelved? he
    rw [← hm.own e he, insert_unshelve_eq_revise h.sorted h.ids hmem hid.symm]
    refine .revised fun z => ?_
    split
    · next hz => exact hz.symm
    · rfl

/-- Where a row stands: its number and its key. -/
def Shelved.place (e : Shelved) : Int × RecordId := (e.number, e.image.id)

theorem places_revise {f : RowImage → RowImage} (hf : ∀ x : RowImage, (f x).id = x.id) :
    (revise es id f).map Shelved.place = es.map Shelved.place := by
  rw [revise, List.map_map]
  refine List.map_congr_left fun e _ => ?_
  show (if e.image.id = id then e.setImage f else e).place = e.place
  split
  · exact congrArg (Prod.mk e.number) (hf e.image)
  · rfl

/-- A row that is there is written in its place. -/
theorem Saved.places (h : Saved id es es') (hrow : shelved? es id ≠ none) :
    es'.map Shelved.place = es.map Shelved.place := by
  cases h with
  | revised hf => exact places_revise hf
  | placed _ hnone _ => exact absurd hnone hrow

/-- A row that is new comes after all others. -/
theorem Saved.appends (h : Saved id es es') (hroom : ∀ x ∈ es, x.number < Table.maxNumber) :
    es.map Shelved.place <+: es'.map Shelved.place := by
  cases h with
  | revised hf => exact (places_revise hf).symm ▸ List.prefix_refl _
  | @placed e _ _ hlast =>
    rw [insertShelved_last (hlast hroom), List.map_append]
    exact List.prefix_append _ _

end Shelves

namespace Link

variable {s : Schema} {es : List Shelved} {id : RecordId} {l : Link}

/-- A field is written, or nothing changes. -/
theorem updateField_cases (id : RecordId) (hd : l.database.Plain) (h : l.database.Holds s es)
    (hp : s.Proper) {f : Field} (hf : f ∈ s.fields) {v : Value}
    (hv : v.fits f.type f.notNull = true) :
    (∃ e, (l.updateField s id f.name v).1 = .error e ∧
        (l.updateField s id f.name v).2.database = l.database) ∨
      ((l.updateField s id f.name v).1 = .ok () ∧
        (l.updateField s id f.name v).2.database =
          l.database.shelve s (revise es id (RowImage.setValue s f.name v))) := by
  obtain ⟨i, hi⟩ := List.mem_iff_getElem?.mp hf
  have hw := Database.writes_field es hp (hp.fieldIndex? hi) hi hv
  unfold updateField
  split
  · exact .inl ⟨_, rfl, rfl⟩
  · obtain ⟨e, he, hdb⟩ | ⟨n, d, hok, hex, hdb⟩ := l.setColumn_cases s id f.name v
    · exact .inl ⟨e, he, hdb⟩
    · exact .inr ⟨hok, hdb.trans (Database.execute_updateColumn hd h hp hw hex)⟩

theorem shelf_setValue (id : RecordId) (h : Shelf s es) (hp : s.Proper) {f : Field}
    (hf : f ∈ s.fields) {v : Value} (hv : v.fits f.type f.notNull = true) :
    Shelf s (revise es id (RowImage.setValue s f.name v)) := by
  obtain ⟨i, hi⟩ := List.mem_iff_getElem?.mp hf
  exact h.revise (RowImage.id_setValue s f.name v) fun x hx =>
    hx.setValue (hp.fieldIndex? hi) hi hv

/-- A whole row is written, or nothing changes. -/
theorem insertRow_cases (hd : l.database.Plain) (h : l.database.Holds s es) (hp : s.Proper)
    (hu : s.Unnumbered) {x : RowImage} (hf : x.Fits s) {parent : Option RecordId}
    (hpar : s.parentColumn ≠ none → x.parent = parent) :
    (∃ e, (l.insertRow s x.id x.values parent).1 = .error e ∧
        (l.insertRow s x.id x.values parent).2.database = l.database) ∨
      ((l.insertRow s x.id x.values parent).1 = .ok () ∧
        ∃ m, Database.Numbers es x.id m ∧
          Shelf s (insertShelved ⟨m, x⟩ (unshelve es x.id)) ∧
          (l.insertRow s x.id x.values parent).2.database =
            l.database.shelve s (insertShelved ⟨m, x⟩ (unshelve es x.id))) := by
  have hx := l.execute_cases ⟨s, .insertRow x.id x.values parent⟩
  unfold insertRow
  split
  · exact .inl ⟨_, rfl, rfl⟩
  split
  · next hs =>
    rw [hs] at hx
    obtain ⟨e, he, -⟩ | ⟨n, d, -, hex, hdb⟩ := hx
    · cases he
    · obtain ⟨m, hnumbers, hm, hd'⟩ := Database.execute_insertRow hd h hp hu hf hpar hex
      exact .inr ⟨rfl, m, hnumbers, hm, hdb.trans hd'⟩
  · next hs =>
    rw [hs] at hx
    obtain ⟨e, -, hdb⟩ | ⟨n, d, he, -, -⟩ := hx
    · exact .inl ⟨_, rfl, hdb⟩
    · cases he

end Link

end LiveRecords
