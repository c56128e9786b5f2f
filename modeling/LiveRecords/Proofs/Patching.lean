import LiveRecords.Proofs.Alignment
import LiveRecords.Proofs.Exchanges

/-!
# Rows as commits and replays leave them

Writes that all succeed patch the row under a key, field by field. So it can be
told what a commit and the undo after it make of a row: the fields that were
written hold what the record took for stored before, and all others what they
held. The row is restored exactly if the record was right about these fields.
-/

namespace LiveRecords

/-! ## Patches -/

namespace RowImage

variable {s : Schema} {x y : RowImage} {vs : List (String × Value)} {name : String} {v : Value}

/-- An image with other values in some fields, one after another. -/
def patch (s : Schema) (vs : List (String × Value)) (x : RowImage) : RowImage :=
  vs.foldl (fun y e => y.setValue s e.1 e.2) x

@[simp] theorem id_patch (s : Schema) (vs : List (String × Value)) (x : RowImage) :
    (x.patch s vs).id = x.id := by
  induction vs generalizing x with
  | nil => rfl
  | cons e vs ih => exact (ih _).trans (id_setValue s e.1 e.2 x)

theorem length_setValue (s : Schema) (field : String) (v : Value) (x : RowImage) :
    (x.setValue s field v).values.length = x.values.length := by
  unfold setValue
  split
  · exact List.length_set
  · rfl

theorem value?_patch_of_not_mem (h : name ∉ vs.map (·.1)) :
    (x.patch s vs).value? s name = x.value? s name := by
  induction vs generalizing x with
  | nil => rfl
  | cons e vs ih =>
    rw [List.map_cons, List.mem_cons, not_or] at h
    exact (ih h.2).trans (value?_setValue_of_ne h.1 e.2)

/-- A field that is patched once holds what it was given. -/
theorem value?_patch (hp : s.Proper) (hl : x.values.length = s.fields.length)
    (hn : (vs.map (·.1)).Nodup) {f : Field} (hf : f ∈ s.fields) (hv : (f.name, v) ∈ vs) :
    (x.patch s vs).value? s f.name = some v := by
  induction vs generalizing x with
  | nil => cases hv
  | cons e vs ih =>
    rw [List.map_cons, List.nodup_cons] at hn
    have hlen : (x.setValue s e.1 e.2).values.length = s.fields.length :=
      (length_setValue s e.1 e.2 x).trans hl
    rcases List.mem_cons.mp hv with rfl | hv
    · obtain ⟨i, hi⟩ := List.mem_iff_getElem?.mp hf
      have hlt : i < x.values.length := hl ▸ (List.getElem?_eq_some_iff.mp hi).1
      exact (value?_patch_of_not_mem hn.1).trans
        (value?_setValue_self (hp.fieldIndex? hi) hlt v)
    · exact ih hlen hn.2 hv

/-- Images of one type are told by their keys, parents and fields. -/
theorem ext_value? (hp : s.Proper) (hx : x.values.length = s.fields.length)
    (hy : y.values.length = s.fields.length) (hid : x.id = y.id) (hpar : x.parent = y.parent)
    (h : ∀ f ∈ s.fields, x.value? s f.name = y.value? s f.name) : x = y := by
  have hvalues : x.values = y.values := by
    refine List.ext_getElem? fun i => ?_
    by_cases hi : i < s.fields.length
    · have hf := List.getElem?_eq_getElem hi
      have hval := h _ (List.mem_of_getElem? hf)
      have hindex : s.fieldIndex? s.fields[i].name = some i := hp.fieldIndex? hf
      rw [value?, value?, hindex] at hval
      exact hval
    · rw [List.getElem?_eq_none (by omega), List.getElem?_eq_none (by omega)]
  obtain ⟨a, b, c⟩ := x
  obtain ⟨a', b', c'⟩ := y
  cases hid
  cases hpar
  cases hvalues
  rfl

end RowImage

section Rows

variable {s : Schema} {es es' : List Shelved} {id : RecordId} {f : RowImage → RowImage}
  {vs : List (String × Value)}

/-- Rows are as they were if the one under the key is. -/
theorem revise_eq_self (hn : (es.map (·.image.id)).Nodup)
    (h : ∀ x, stored? es id = some x → f x = x) : revise es id f = es := by
  refine (List.map_congr_left (g := fun e => e) fun e he => ?_).trans (List.map_id' es)
  split
  · next hid =>
    have hx : stored? es id = some e.image := by
      rw [stored?, (shelved?_eq_some hn).mpr ⟨he, hid⟩]
      rfl
    have hsame := h _ hx
    obtain ⟨number, image⟩ := e
    exact congrArg (Shelved.mk number) hsame
  · rfl

theorem revise_patch (vs vs' : List (String × Value)) :
    revise (revise es id (RowImage.patch s vs)) id (RowImage.patch s vs') =
      revise es id (RowImage.patch s (vs ++ vs')) := by
  rw [revise_revise (RowImage.id_patch s vs)]
  congr 1
  funext x
  exact (List.foldl_append ..).symm

/-- Rows that differ in values of one row, and not there either, are the same. -/
theorem Rewritten.eq_of_stored (h : Rewritten id es es') (hn : (es.map (·.image.id)).Nodup)
    (hs : stored? es' id = stored? es id) : es' = es := by
  obtain ⟨f, hf, -, rfl⟩ := h
  refine revise_eq_self hn fun x hx => ?_
  rw [stored?_revise hf, if_pos rfl, hx] at hs
  exact Option.some.inj hs

/-- The image under a key is one that fits. -/
theorem Shelf.stored_fits (h : Shelf s es) {x : RowImage} (hx : stored? es id = some x) :
    x.Fits s := by
  obtain ⟨e, he, rfl⟩ := Option.map_eq_some_iff.mp hx
  exact h.fits e (mem_of_shelved? he).1

end Rows

namespace Record

variable {x y : Record} {s : Schema} {id : RecordId} {l l' : Link} {es es' : List Shelved}
  {c : ChangeSet} {ts : List Slot}

/-! ## Writes that succeed -/

theorem shelf_patch_cons (hes : Shelf s es) (hp : s.Proper) {f : Field} (hf : f ∈ s.fields)
    {v : Value} (hv : v.fits f.type f.notNull = true) {vs : List (String × Value)} {d : Database}
    (h : Shelf s (revise es id (RowImage.setValue s f.name v)) →
      d = (l.database.shelve s (revise es id (RowImage.setValue s f.name v))).shelve s
          (revise (revise es id (RowImage.setValue s f.name v)) id (RowImage.patch s vs)) ∧
        Shelf s (revise (revise es id (RowImage.setValue s f.name v)) id
          (RowImage.patch s vs))) :
    d = l.database.shelve s (revise es id (RowImage.patch s ((f.name, v) :: vs))) ∧
      Shelf s (revise es id (RowImage.patch s ((f.name, v) :: vs))) := by
  obtain ⟨hdb, hshelf⟩ := h (Link.shelf_setValue id hes hp hf hv)
  rw [Database.shelve_shelve] at hdb
  have hpatch : revise (revise es id (RowImage.patch s [(f.name, v)])) id
      (RowImage.patch s vs) = _ := revise_patch _ _
  exact ⟨hdb.trans (congrArg _ hpatch), hpatch ▸ hshelf⟩

/-- A commit that writes every edited slot patches the row with their values. -/
theorem writeDirty_patches (id : RecordId) (hd : l.database.Plain) (h : l.database.Holds s es)
    (hp : s.Proper) (hts : ∀ t ∈ ts, t.In s) (hok : (writeDirty s id ts l).1.failure = none) :
    (writeDirty s id ts l).2.database = l.database.shelve s (revise es id
        (RowImage.patch s ((ts.filter (·.dirty)).map fun t => (t.name, t.current)))) ∧
      Shelf s (revise es id
        (RowImage.patch s ((ts.filter (·.dirty)).map fun t => (t.name, t.current)))) := by
  induction ts generalizing l es with
  | nil =>
    have hsame : revise es id (RowImage.patch s []) = es := revise_id es id
    simp only [List.filter_nil, List.map_nil, hsame]
    exact ⟨(h.shelve_self hd).symm, h.shelf⟩
  | cons t ts ih =>
    have ht := hts t (by simp)
    have hrest : ∀ u ∈ ts, u.In s := fun u hu => hts u (by simp [hu])
    unfold writeDirty at hok ⊢
    cases hdirty : t.dirty with
    | false =>
      rw [hdirty, if_neg Bool.false_ne_true] at hok
      rw [if_neg Bool.false_ne_true, List.filter_cons, hdirty, if_neg Bool.false_ne_true]
      exact ih hd h hrest hok
    | true =>
      have hcases := Link.updateField_cases id hd h hp ht.field ht.fits
      rw [hdirty, if_pos rfl] at hok
      rw [if_pos rfl, List.filter_cons, hdirty, if_pos rfl, List.map_cons]
      cases hw : l.updateField s id t.name t.current with
      | mk result l₁ =>
        rw [hw] at hok
        rw [show l.updateField s id t.field.name t.current = (result, l₁) from hw] at hcases
        cases result with
        | error e => cases hok
        | ok u =>
          obtain ⟨e, he, -⟩ | ⟨-, hdb⟩ := hcases
          · cases he
          have hdb' : l₁.database = l.database.shelve s _ := hdb
          refine shelf_patch_cons h.shelf hp ht.field ht.fits fun hshelf => ?_
          have hnext := ih (l := l₁) (hdb' ▸ hd.shelve s _) (hdb' ▸ h.shelve hshelf) hrest hok
          rw [hdb'] at hnext
          exact hnext

/-- What a change set holds for slots, in their order. -/
def recorded (c : ChangeSet) (ts : List Slot) : List (String × Value) :=
  ts.filterMap fun t => (c.get? t.name).map fun v => (t.name, v)

theorem recorded_congr {c' : ChangeSet} (h : ∀ t ∈ ts, c'.get? t.name = c.get? t.name) :
    recorded c' ts = recorded c ts := by
  induction ts with
  | nil => rfl
  | cons t ts ih =>
    have hrest := ih fun u hu => h u (by simp [hu])
    unfold recorded at hrest ⊢
    rw [List.filterMap_cons, List.filterMap_cons, h t (by simp), hrest]

theorem mem_recorded {name : String} {v : Value} :
    (name, v) ∈ recorded c ts ↔ ∃ t ∈ ts, t.name = name ∧ c.get? name = some v := by
  simp only [recorded, List.mem_filterMap, Option.map_eq_some_iff, Prod.mk.injEq]
  constructor
  · rintro ⟨t, ht, u, hu, rfl, rfl⟩
    exact ⟨t, ht, rfl, hu⟩
  · rintro ⟨t, ht, rfl, hv⟩
    exact ⟨t, ht, v, hv, rfl, rfl⟩

theorem recorded_names_sublist (c : ChangeSet) (ts : List Slot) :
    ((recorded c ts).map (·.1)).Sublist (ts.map (·.name)) := by
  induction ts with
  | nil => exact .slnil
  | cons t ts ih =>
    unfold recorded at ih ⊢
    rw [List.filterMap_cons]
    cases c.get? t.name with
    | none => exact ih.cons _
    | some v => exact ih.cons_cons _

/-- What a commit of the edited fields writes. -/
def edits (x : Record) : List (String × Value) :=
  (x.slots.filter (·.dirty)).map fun t => (t.name, t.current)

theorem Shaped.slot_of_field (hx : x.Shaped) {f : Field} (hf : f ∈ x.schema.fields) :
    ∃ t ∈ x.slots, t.field = f := by
  rw [← hx.fields] at hf
  exact List.mem_map.mp hf

/-- A commit that succeeds writes the edits, all of them. -/
theorem commitFields_patches (hx : x.Intact) (hd : l.database.Plain)
    (hes : l.database.Holds x.schema es) {o : CommitOutcome}
    (h : (x.commitFields l).1.1 = .ok o) :
    (x.commitFields l).2.database = l.database.shelve x.schema
        (revise es x.id (RowImage.patch x.schema x.edits)) ∧
      Shelf x.schema (revise es x.id (RowImage.patch x.schema x.edits)) := by
  rw [database_commitFields]
  exact writeDirty_patches x.id hd hes hx.proper hx.slots_in (failure_of_commitFields h)

end Record

end LiveRecords
