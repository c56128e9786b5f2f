import LiveRecords.Record.Command

/-!
# Notices and stacks

A coordinator knows of a record only what notices tell it. What a command does
to the stacks of a record and what it tells match: where the entries of the
record were as many as its change sets on both tracks, they still are.
-/

namespace LiveRecords

theorem Track.eq_or_eq_opposite (t u : Track) : u = t ∨ u = t.opposite := by
  cases t <;> cases u <;> simp [Track.opposite]

namespace Coordinator

theorem entries_setEntries (c : Coordinator) (t u : Track) (es : List Nat) :
    (c.setEntries t es).entries u = if u = t then es else c.entries u := by
  cases t <;> cases u <;> simp [entries, setEntries]

theorem entries_add (c : Coordinator) (t u : Track) (item : Nat) :
    (c.add t item).1.entries u = if u = t then item :: c.entries t else c.entries u := by
  rw [add, entries_setEntries]

theorem entries_remove (c : Coordinator) (t u : Track) (item : Nat) :
    (c.remove t item).1.entries u = if u = t then (c.entries t).erase item else c.entries u := by
  rw [remove, entries_setEntries]

theorem entries_forget (c : Coordinator) (u : Track) (item : Nat) :
    (c.forget item).1.entries u = (c.entries u).filter (· != item) := by
  cases u <;> simp [forget, forgetTrack, entries, setEntries]

theorem ext_entries {c d : Coordinator} (h : ∀ t, c.entries t = d.entries t) : c = d := by
  obtain ⟨cu, cr⟩ := c
  obtain ⟨du, dr⟩ := d
  have hu := h .undo
  have hr := h .redo
  simp only [entries] at hu hr
  rw [hu, hr]

end Coordinator

namespace Notice

/-- The coordinator after it was told of an item. -/
def told (ns : List Notice) (item : Nat) (c : Coordinator) : Coordinator :=
  ns.foldl (fun c n => (n.apply item c).1) c

@[simp] theorem told_nil (item : Nat) (c : Coordinator) : told [] item c = c := rfl

@[simp] theorem told_cons (n : Notice) (ns : List Notice) (item : Nat) (c : Coordinator) :
    told (n :: ns) item c = told ns item (n.apply item c).1 := rfl

theorem mem_apply {n : Notice} {item j : Nat} {c : Coordinator} {t : Track}
    (h : j ∈ ((n.apply item c).1).entries t) : j = item ∨ j ∈ c.entries t := by
  cases n with
  | gained u =>
    rw [apply, Coordinator.entries_add] at h
    by_cases ht : t = u
    · subst ht; simpa using h
    · exact .inr (by simpa [ht] using h)
  | lost u =>
    rw [apply, Coordinator.entries_remove] at h
    by_cases ht : t = u
    · subst ht; exact .inr (List.mem_of_mem_erase (by simpa using h))
    · exact .inr (by simpa [ht] using h)

/-- Notices about an item bring in no other. -/
theorem mem_told {ns : List Notice} {item j : Nat} {c : Coordinator} {t : Track}
    (h : j ∈ (told ns item c).entries t) : j = item ∨ j ∈ c.entries t := by
  induction ns generalizing c with
  | nil => exact .inr h
  | cons n ns ih =>
    rcases ih h with hj | hj
    · exact .inl hj
    · exact mem_apply hj

theorem count_apply_of_ne {n : Notice} {item j : Nat} (hj : j ≠ item) (c : Coordinator)
    (t : Track) : (((n.apply item c).1).entries t).count j = (c.entries t).count j := by
  have hb : (item == j) = false := by simpa using fun he : item = j => hj he.symm
  cases n with
  | gained u =>
    rw [apply, Coordinator.entries_add]
    by_cases ht : t = u
    · subst ht; simp [List.count_cons, hb]
    · simp [ht]
  | lost u =>
    rw [apply, Coordinator.entries_remove]
    by_cases ht : t = u
    · subst ht; simp [List.count_erase, hb]
    · simp [ht]

/-- Notices about an item leave the entries of the others. -/
theorem count_told_of_ne (ns : List Notice) {item j : Nat} (hj : j ≠ item) (c : Coordinator)
    (t : Track) : ((told ns item c).entries t).count j = (c.entries t).count j := by
  induction ns generalizing c with
  | nil => rfl
  | cons n ns ih => rw [told_cons, ih, count_apply_of_ne hj]

theorem count_told_lost (n item : Nat) (c : Coordinator) (t u : Track) :
    ((told (List.replicate n (.lost t)) item c).entries u).count item =
      (c.entries u).count item - if u = t then n else 0 := by
  induction n generalizing c with
  | zero => simp
  | succ n ih =>
    rw [List.replicate_succ, told_cons, ih, apply, Coordinator.entries_remove]
    by_cases hu : u = t
    · subst hu
      rw [if_pos rfl, if_pos rfl, if_pos rfl, List.count_erase_self]
      omega
    · simp [hu]

end Notice

namespace Record

theorem depth_of_stacks {r s : Record} (hu : r.undo = s.undo) (hr : r.redo = s.redo) (t : Track) :
    r.depth t = s.depth t := by
  cases t <;> simp [depth, stack, hu, hr]

/-- The entries of an item are as many as the change sets of a record. -/
def Counted (r : Record) (item : Nat) (c : Coordinator) : Prop :=
  ∀ t, (c.entries t).count item = r.depth t

/-- What an operation told matches what it did to the stacks. -/
def Balanced (r : Record) (e : Effect) : Prop :=
  ∀ c item, r.Counted item c → e.record.Counted item (Notice.told e.notices item c)

theorem balanced_of_stacks {r : Record} {e : Effect} (hn : e.notices = [])
    (hu : e.record.undo = r.undo) (hr : e.record.redo = r.redo) : r.Balanced e := by
  intro c item hc t
  rw [hn, Notice.told_nil, hc t, depth_of_stacks hu hr]

theorem set_balanced (r : Record) (field : String) (v : Value) : r.Balanced (r.set field v).2 := by
  unfold set
  cases r.slotOf field with
  | error e => exact balanced_of_stacks rfl rfl rfl
  | ok s =>
    dsimp only
    split
    · exact balanced_of_stacks rfl rfl rfl
    split
    · exact balanced_of_stacks rfl rfl rfl
    · intro c item hc t
      rw [effect, Notice.count_told_lost, hc t]
      cases t <;> simp [depth, stack, refresh, setSlot]

theorem discard_balanced (r : Record) (field : String) : r.Balanced (r.discard field).2 := by
  unfold discard
  split
  · exact balanced_of_stacks rfl rfl rfl
  split <;> exact balanced_of_stacks rfl rfl rfl

theorem stageDelete_balanced (r : Record) : r.Balanced r.stageDelete := by
  unfold stageDelete
  split <;> exact balanced_of_stacks rfl rfl rfl

theorem setParent_balanced (r : Record) (p : Option RecordId) : r.Balanced (r.setParent p) := by
  unfold setParent
  split <;> exact balanced_of_stacks rfl rfl rfl

theorem hydrate_balanced (r : Record) (image : RowImage) : r.Balanced (r.hydrate image) := by
  unfold hydrate setParent
  dsimp only
  split <;> exact balanced_of_stacks rfl rfl rfl

theorem commit_balanced (r : Record) (l : Link) : r.Balanced (r.commit l).1.2 := by
  unfold commit
  split
  · unfold commitRow
    split <;> exact balanced_of_stacks rfl rfl rfl
  · unfold commitFields
    dsimp only
    split
    · exact balanced_of_stacks rfl rfl rfl
    · intro c item hc t
      rw [effect, Notice.told_cons, Notice.told_nil, Notice.apply, Coordinator.entries_add]
      cases t with
      | undo => simpa [depth, stack, refresh] using hc .undo
      | redo => simpa [depth, stack, refresh] using hc .redo

theorem replay_balanced (t : Track) (r : Record) (l : Link) : r.Balanced (r.replay t l).1.2 := by
  cases hs : r.stack t with
  | nil => rw [replay_nil hs]; exact balanced_of_stacks rfl rfl rfl
  | cons cs older =>
    intro c item hc u
    have ht := hc t
    have ho := hc t.opposite
    simp only [replay, hs, effect, Notice.told_cons, Notice.told_nil, Notice.apply]
    rw [Coordinator.entries_add, Coordinator.entries_remove, Coordinator.entries_remove]
    rcases t.eq_or_eq_opposite u with rfl | rfl
    · cases u <;>
        simp_all [depth, stack, refresh, setStack, Track.opposite, List.count_erase_self]
    · cases t <;> simp_all [depth, stack, refresh, setStack, Track.opposite]

/-- What a command told matches what it did to the stacks. -/
theorem run_balanced (r : Record) (l : Link) (c : Command) : r.Balanced (r.run l c).1.2 := by
  cases c with
  | set field v => exact r.set_balanced field v
  | discard field => exact r.discard_balanced field
  | discardAll => exact balanced_of_stacks rfl rfl rfl
  | stageDelete => exact r.stageDelete_balanced
  | commit => exact r.commit_balanced l
  | replay t => exact r.replay_balanced t l

/-! ## What a record is for good -/

/-- An operation leaves the key and the type of a record. -/
def Remains (r s : Record) : Prop := s.id = r.id ∧ s.schema = r.schema

theorem set_remains (r : Record) (field : String) (v : Value) :
    r.Remains (r.set field v).2.record := by
  unfold set
  cases r.slotOf field with
  | error e => exact ⟨rfl, rfl⟩
  | ok s =>
    dsimp only
    split
    · exact ⟨rfl, rfl⟩
    split <;> exact ⟨rfl, rfl⟩

theorem discard_remains (r : Record) (field : String) :
    r.Remains (r.discard field).2.record := by
  unfold discard
  split
  · exact ⟨rfl, rfl⟩
  split <;> exact ⟨rfl, rfl⟩

theorem commit_remains (r : Record) (l : Link) : r.Remains (r.commit l).1.2.record := by
  unfold commit
  split
  · unfold commitRow
    split <;> exact ⟨rfl, rfl⟩
  · unfold commitFields
    dsimp only
    split <;> exact ⟨rfl, rfl⟩

theorem replay_remains (t : Track) (r : Record) (l : Link) :
    r.Remains (r.replay t l).1.2.record := by
  cases hs : r.stack t with
  | nil => rw [replay_nil hs]; exact ⟨rfl, rfl⟩
  | cons cs older => simp only [replay, hs, effect]; cases t <;> exact ⟨rfl, rfl⟩

theorem run_remains (r : Record) (l : Link) (c : Command) : r.Remains (r.run l c).1.2.record := by
  cases c with
  | set field v => exact r.set_remains field v
  | discard field => exact r.discard_remains field
  | discardAll => exact ⟨rfl, rfl⟩
  | stageDelete => unfold run stageDelete; dsimp only; split <;> exact ⟨rfl, rfl⟩
  | commit => exact r.commit_remains l
  | replay t => exact r.replay_remains t l

theorem setParent_remains (r : Record) (p : Option RecordId) :
    r.Remains (r.setParent p).record := by
  unfold setParent
  split <;> exact ⟨rfl, rfl⟩

theorem hydrate_remains (r : Record) (image : RowImage) : r.Remains (r.hydrate image).record := by
  unfold hydrate setParent
  dsimp only
  split <;> exact ⟨rfl, rfl⟩

end Record

end LiveRecords
