import LiveRecords.Proofs.Statements
import LiveRecords.Record.Command

/-!
# What commands send

All that a command does to a link is to run statements and to report. So what
statements and reports preserve, every command preserves.
-/

namespace LiveRecords.Link

/-- Statements and reports preserve a property of links. -/
structure Closed (P : Link → Prop) : Prop where
  execute : ∀ {l : Link} (q : Statement), P l → P (l.execute q).2
  report : ∀ {l : Link} (d : Diagnostic), P l → P (l.report d)

namespace Closed

variable {P : Link → Prop} {l : Link} (hP : Closed P)

include hP

/-! ## Statements of a record type -/

theorem ensureTable (h : P l) (s : Schema) : P (l.ensureTable s).2 := by
  have hrun := hP.execute ⟨s, .createTable⟩ h
  unfold Link.ensureTable
  split
  · next hs => rw [hs] at hrun; exact hrun
  · next hs => rw [hs] at hrun; exact hrun

theorem insertRow (h : P l) (s : Schema) (id : RecordId) (values : List Value)
    (parent : Option RecordId) : P (l.insertRow s id values parent).2 := by
  have hrun := hP.execute ⟨s, .insertRow id values parent⟩ h
  unfold Link.insertRow
  split
  · exact h
  split
  · next hs => rw [hs] at hrun; exact hrun
  · next hs => rw [hs] at hrun; exact hrun

theorem setColumn (h : P l) (s : Schema) (id : RecordId) (column : String) (v : Value) :
    P (l.setColumn s id column v).2 := by
  have hrun := hP.execute ⟨s, .updateColumn id column v⟩ h
  unfold Link.setColumn
  split
  · next hs => rw [hs] at hrun; exact hrun
  · next hs => rw [hs] at hrun; exact hrun

theorem updateField (h : P l) (s : Schema) (id : RecordId) (field : String) (v : Value) :
    P (l.updateField s id field v).2 := by
  unfold Link.updateField
  split
  · exact h
  · exact hP.setColumn h s id field v

theorem updateParent (h : P l) (s : Schema) (id : RecordId) (parent : Option RecordId) :
    P (l.updateParent s id parent).2 := by
  unfold Link.updateParent
  split
  · exact h
  · exact hP.setColumn h s id _ _

theorem deleteRow (h : P l) (s : Schema) (id : RecordId) : P (l.deleteRow s id).2 :=
  hP.execute ⟨s, .deleteRow id⟩ h

/-! ## Commands -/

theorem writeDirty (h : P l) (s : Schema) (id : RecordId) (ts : List Slot) :
    P (Record.writeDirty s id ts l).2 := by
  induction ts generalizing l with
  | nil => exact h
  | cons t ts ih =>
    have hwrite := hP.updateField h s id t.name t.current
    unfold Record.writeDirty
    split
    · split
      · next hs => rw [hs] at hwrite; exact ih hwrite
      · next hs => rw [hs] at hwrite; exact hwrite
    · exact ih h

theorem writeThrough (h : P l) (s : Schema) (id : RecordId) (t : Slot)
    (failure : Option StoreError) : P (Record.writeThrough s id t failure l).2.2 := by
  have hwrite := hP.updateField h s id t.name t.current
  unfold Record.writeThrough
  split
  · exact h
  · split
    · next hs => rw [hs] at hwrite; exact hwrite
    · next hs => rw [hs] at hwrite; exact hwrite

theorem replaySlots (h : P l) (s : Schema) (id : RecordId) (ts : List Slot) (c : ChangeSet)
    (failure : Option StoreError) : P (Record.replaySlots s id ts c failure l).2 := by
  induction ts generalizing c failure l with
  | nil => exact h
  | cons t ts ih =>
    unfold Record.replaySlots
    split
    · exact ih h c failure
    · exact ih (hP.writeThrough h s id _ failure) _ _

theorem commitRow (h : P l) (x : Record) : P (x.commitRow l).2 := by
  have hrun := hP.insertRow h x.schema x.id (x.slots.map (·.current)) x.parent
  unfold Record.commitRow
  split
  · next hs => rw [hs] at hrun; exact hrun
  · next hs => rw [hs] at hrun; exact hP.report _ hrun

theorem result (h : P l) (w : Record.Written) (x : Record) : P (w.result x l).2 := by
  unfold Record.Written.result
  split
  · exact h
  · split
    · exact h
    · exact hP.report _ h

theorem commitFields (h : P l) (x : Record) : P (x.commitFields l).2 := by
  have hwritten := hP.result (hP.writeDirty h x.schema x.id x.slots)
    (Record.writeDirty x.schema x.id x.slots l).1 x
  unfold Record.commitFields
  dsimp only
  split <;> exact hwritten

theorem replay (h : P l) (t : Track) (x : Record) : P (x.replay t l).2 := by
  unfold Record.replay
  split
  · exact h
  · exact hP.replaySlots h _ _ _ _ _

/-- What statements preserve, every command preserves. -/
theorem run (h : P l) (x : Record) (c : Record.Command) : P (x.run l c).2 := by
  cases c with
  | commit =>
    show P (x.commit l).2
    unfold Record.commit
    split
    · exact hP.commitRow h x
    · exact hP.commitFields h x
  | replay t => exact hP.replay h t x
  | set field v => exact h
  | discard field => exact h
  | discardAll => exact h
  | stageDelete => exact h

end Closed

end LiveRecords.Link
