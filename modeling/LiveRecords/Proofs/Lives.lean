import LiveRecords.Proofs.Integrity
import LiveRecords.Proofs.Runs

/-!
# The life of a record

All that can happen to a record, told as turns: a command over a link in any
state, a row that is handed to it, a new parent. A row is taken as it comes, by
the names of fields; some may be missing, and values need not fit.

Whatever the turns, what a record keeps ready about itself agrees with what it
summarises: the marks on its slots, its three flags, one slot for each field,
change sets that say something and only of fields. A record that is stored
never becomes new again.
-/

namespace LiveRecords

/-- A row as it is handed to a record: values by the names of their fields. -/
structure NamedRow where
  parent : Option RecordId
  values : List (String × Value)
  deriving DecidableEq

namespace NamedRow

/-- A stored row of a type, under the names of the fields. -/
def ofImage (s : Schema) (image : RowImage) : NamedRow :=
  ⟨image.parent, s.fieldNames.zip image.values⟩

def value? (row : NamedRow) (t : Slot) : Option Value := row.values.lookup t.name

/-- Whether a row brings news to a slot. -/
def changes (row : NamedRow) (t : Slot) : Bool := (row.value? t).any (Record.isNews t)

/-- A slot after a row was handed to it. -/
def settle (row : NamedRow) (t : Slot) : Slot :=
  match row.value? t with
  | some v => if Record.isNews t v then .clean t.field v else t
  | none => t

variable {row : NamedRow} {t : Slot}

/-- A slot takes a value from a row, or stays as it is. -/
theorem settle_cases (row : NamedRow) (t : Slot) :
    row.changes t = false ∧ row.settle t = t ∨
      ∃ v, row.changes t = true ∧ Record.isNews t v = true ∧ row.settle t = .clean t.field v := by
  unfold changes settle
  cases row.value? t with
  | none => exact .inl ⟨rfl, rfl⟩
  | some v =>
    cases hv : Record.isNews t v with
    | false => exact .inl ⟨hv, if_neg (by simp [hv])⟩
    | true => exact .inr ⟨v, hv, hv, if_pos hv⟩

@[simp] theorem field_settle (row : NamedRow) (t : Slot) : (row.settle t).field = t.field := by
  obtain ⟨-, h⟩ | ⟨v, -, -, h⟩ := row.settle_cases t <;> rw [h]
  rfl

/-- Slots with an edit keep it, and no others come to have one. -/
@[simp] theorem dirty_settle (row : NamedRow) (t : Slot) : (row.settle t).dirty = t.dirty := by
  obtain ⟨-, h⟩ | ⟨v, -, hv, h⟩ := row.settle_cases t <;> rw [h]
  simp only [Record.isNews, Bool.and_eq_true, Bool.not_eq_true'] at hv
  exact hv.1.symm

/-- Rows that say the same of a slot do the same to it. -/
theorem settle_congr {row' : NamedRow} (h : row.value? t = row'.value? t) :
    row.settle t = row'.settle t ∧ row.changes t = row'.changes t := by
  unfold settle changes
  rw [h]
  exact ⟨rfl, rfl⟩

end NamedRow

namespace Record

/-- Takes in a row as it is handed over. -/
def takeRow (x : Record) (row : NamedRow) : Effect :=
  let e := { x with slots := x.slots.map row.settle }.setParent row.parent
  { e with events := (x.slots.filter row.changes).map (fun t => .field t.name) ++ e.events }

/-- Values in the order of fields, taken in by their names. -/
theorem takeIn_eq (parent : Option RecordId) {ts : List Slot} (vs : List Value)
    (hn : (ts.map (·.name)).Nodup) {row : NamedRow}
    (hr : row = ⟨parent, (ts.map (·.name)).zip vs⟩) :
    takeIn ts vs = (ts.map row.settle, (ts.filter row.changes).map (·.name)) := by
  induction ts generalizing vs row with
  | nil => rfl
  | cons t ts ih =>
    rw [List.map_cons, List.nodup_cons] at hn
    cases vs with
    | nil =>
      have hnone : ∀ u : Slot, row.value? u = none := fun u => by
        simp [hr, NamedRow.value?]
      have hsettle : row.settle = fun u => u := funext fun u => by
        simp only [NamedRow.settle, hnone u]
      have hchanges : row.changes = fun _ => false := funext fun u => by
        simp only [NamedRow.changes, hnone u, Option.any_none]
      simp [takeIn, hsettle, hchanges]
    | cons v vs =>
      have hhead : row.value? t = some v := by simp [hr, NamedRow.value?]
      -- Other slots have other names, so they look past the first value.
      have htail : ∀ u ∈ ts,
          row.value? u = NamedRow.value? ⟨parent, (ts.map (·.name)).zip vs⟩ u := by
        intro u hu
        have hne : u.name ≠ t.name := fun he => hn.1 (he ▸ List.mem_map_of_mem hu)
        simp [hr, NamedRow.value?, List.lookup_cons, beq_false_of_ne hne]
      have hslots : ts.map row.settle = ts.map (NamedRow.settle ⟨parent, _⟩) :=
        List.map_congr_left fun u hu => (NamedRow.settle_congr (htail u hu)).1
      have hnames : ts.filter row.changes = ts.filter (NamedRow.changes ⟨parent, _⟩) :=
        List.filter_congr fun u hu => (NamedRow.settle_congr (htail u hu)).2
      rw [List.map_cons, List.filter_cons, hslots, hnames]
      simp only [takeIn, ih vs hn.2 rfl, NamedRow.settle, NamedRow.changes, hhead, Option.any_some]
      cases isNews t v <;> rfl

/-- What the records of a program do with stored rows. -/
theorem takeRow_ofImage {x : Record} (hp : x.schema.Proper)
    (hf : x.slots.map (·.field) = x.schema.fields) (image : RowImage) :
    x.takeRow (.ofImage x.schema image) = x.hydrate image := by
  have hnames : x.schema.fieldNames = x.slots.map (·.name) := by
    rw [Schema.fieldNames, ← hf, List.map_map]
    rfl
  unfold takeRow hydrate
  rw [takeIn_eq image.parent image.values (nodup_of_fields hp hf) (by rw [← hnames])]
  simp only [NamedRow.ofImage, List.map_map]
  rfl

/-- What may happen to a record. -/
inductive Turn where
  | asked (c : Command) (l : Link)
  | handed (row : NamedRow)
  | moved (parent : Option RecordId)

def turn (x : Record) : Turn → Effect
  | .asked c l => (x.run l c).1.2
  | .handed row => x.takeRow row
  | .moved parent => x.setParent parent

/-- The record after some turns. -/
def after (x : Record) (ts : List Turn) : Record := ts.foldl (fun x t => (x.turn t).record) x

theorem after_append (x : Record) (ts us : List Turn) :
    x.after (ts ++ us) = (x.after ts).after us :=
  List.foldl_append

/-- What each turn preserves, a life preserves. -/
theorem after_preserves {P : Record → Prop} (hP : ∀ x t, P x → P (x.turn t).record) {x : Record}
    (hx : P x) (ts : List Turn) : P (x.after ts) := by
  induction ts generalizing x with
  | nil => exact hx
  | cons t ts ih => exact ih (hP x t hx)

end Record

/-- A change set says something, and only of fields. -/
def ChangeSet.Speaks (s : Schema) (c : ChangeSet) : Prop :=
  c.entries ≠ [] ∧ ∀ name ∈ c.fields, name ∈ s.fieldNames

theorem ChangeSet.insert_ne_nil {α : Type} (name : String) (v : α) (es : List (String × α)) :
    ByName.insert name v es ≠ [] := by
  cases es with
  | nil => simp [ByName.insert]
  | cons e es =>
    unfold ByName.insert
    split
    · simp
    · split <;> simp

theorem ChangeSet.mem_fields_record {c : ChangeSet} {field : String} {v : Value} {name : String}
    (h : name ∈ (c.record field v).fields) : name = field ∨ name ∈ c.fields := by
  obtain ⟨e, he, rfl⟩ := List.mem_map.mp h
  rcases ChangeSet.mem_insert he with rfl | he
  · exact .inl rfl
  · exact .inr (List.mem_map_of_mem he)

namespace Record

variable {x : Record} {t : Slot}

/-- The parts of a record are as its type has them. -/
structure Framed (x : Record) : Prop where
  proper : x.schema.Proper
  fields : x.slots.map (·.field) = x.schema.fields
  marks : ∀ t ∈ x.slots, t.dirty = (t.current != t.baseline)
  changes : ∀ t, ∀ c ∈ x.stack t, c.Speaks x.schema

/-- The flags of a record agree with its parts as well. -/
structure Coherent (x : Record) : Prop extends Framed x where
  flags : x.refresh.1 = x

theorem Framed.effect (h : x.Framed) (notices : List Notice) (events : List RecordEvent) :
    (x.effect notices events).record.Coherent :=
  ⟨⟨h.proper, h.fields, h.marks, h.changes⟩, rfl⟩

theorem Framed.names_nodup (h : x.Framed) : (x.slots.map (·.name)).Nodup :=
  nodup_of_fields h.proper h.fields

theorem Framed.name_mem (h : x.Framed) (ht : t ∈ x.slots) : t.name ∈ x.schema.fieldNames := by
  rw [Schema.fieldNames, ← h.fields, List.map_map]
  exact List.mem_map_of_mem ht

theorem Framed.of_slots (h : x.Framed) {ts : List Slot}
    (hf : ts.map (·.field) = x.slots.map (·.field))
    (ht : ∀ t ∈ ts, t.dirty = (t.current != t.baseline)) : Framed { x with slots := ts } :=
  ⟨h.proper, hf.trans h.fields, ht, h.changes⟩

theorem Framed.setStack (h : x.Framed) (t : Track) {cs : List ChangeSet}
    (hcs : ∀ c ∈ cs, c.Speaks x.schema) : (x.setStack t cs).Framed := by
  cases t with
  | undo =>
    refine ⟨h.proper, h.fields, h.marks, fun u c hc => ?_⟩
    cases u with
    | undo => exact hcs c hc
    | redo => exact h.changes .redo c hc
  | redo =>
    refine ⟨h.proper, h.fields, h.marks, fun u c hc => ?_⟩
    cases u with
    | undo => exact h.changes .undo c hc
    | redo => exact hcs c hc

theorem Framed.setSlot (h : x.Framed) (ht : t ∈ x.slots) {u : Slot} (hu : u.field = t.field)
    (hd : u.dirty = (u.current != u.baseline)) : (x.setSlot u).Framed := by
  refine h.of_slots (setSlot_fields h.names_nodup ht hu) ?_
  intro a ha
  obtain ⟨b, hb, rfl⟩ := List.mem_map.mp ha
  split
  · exact hd
  · exact h.marks b hb

/-- A slot that was brought to one value has no edit. -/
theorem marks_settle (t : Slot) : t.settle.dirty = (t.settle.current != t.settle.baseline) :=
  (bne_self_eq_false t.current).symm

theorem marks_revert (t : Slot) : t.revert.dirty = (t.revert.current != t.revert.baseline) :=
  (bne_self_eq_false t.baseline).symm

theorem initial_coherent {s : Schema} (hs : s.Proper) (id : RecordId) (isNew : Bool) :
    (Record.initial id s isNew).Coherent where
  proper := hs
  fields := (initial_intact hs isNew : (Record.initial id s isNew).Intact).fields
  marks t ht := ((initial_intact hs isNew : (Record.initial id s isNew).Intact).slots t ht).dirty
  changes t c hc := by cases t <;> cases hc
  flags := (initial_intact hs isNew).flags

/-! ## Editing -/

theorem Coherent.set (h : x.Coherent) (field : String) (v : Value) :
    (x.set field v).2.record.Coherent := by
  obtain ⟨hsame, -⟩ | ⟨t, ht, -, -, -, hset⟩ := x.set_cases field v
  · rw [hsame]
    exact h
  · have hslot := h.toFramed.setSlot ht (Slot.field_assign t v) rfl
    rw [hset]
    have hcleared : (Record.setStack _ .redo []).Framed := hslot.setStack .redo (by simp)
    exact hcleared.effect _ _

theorem Coherent.discard (h : x.Coherent) (field : String) :
    (x.discard field).2.record.Coherent := by
  obtain hsame | ⟨t, ht, -, hdiscard⟩ := x.discard_cases field
  · rw [hsame]
    exact h
  · rw [hdiscard]
    exact (h.toFramed.setSlot ht (Slot.field_revert t) (marks_revert t)).effect _ _

theorem Coherent.discardAll (h : x.Coherent) : x.discardAll.record.Coherent := by
  refine (h.toFramed.of_slots ?_ ?_).effect _ _
  · rw [List.map_map]
    refine List.map_congr_left fun t _ => ?_
    show (if t.dirty then t.revert else t).field = t.field
    split <;> rfl
  · intro t ht
    obtain ⟨u, hu, rfl⟩ := List.mem_map.mp ht
    split
    · exact marks_revert u
    · exact h.marks u hu

theorem Coherent.stageDelete (h : x.Coherent) : x.stageDelete.record.Coherent := by
  unfold Record.stageDelete
  split
  · exact h
  · exact ⟨⟨h.proper, h.fields, h.marks, h.changes⟩,
      congrArg (fun y => { y with deletePending := true }) h.flags⟩

theorem Coherent.setParent (h : x.Coherent) (parent : Option RecordId) :
    (x.setParent parent).record.Coherent := by
  unfold Record.setParent
  split
  · exact h
  · exact ⟨⟨h.proper, h.fields, h.marks, h.changes⟩,
      congrArg (fun y => { y with parent }) h.flags⟩

/-- No flag needs to be looked after where a row is taken in: which slots have
an edit stays the same. -/
theorem Coherent.takeRow (h : x.Coherent) (row : NamedRow) : (x.takeRow row).record.Coherent := by
  have hfields : (x.slots.map row.settle).map (·.field) = x.slots.map (·.field) := by
    rw [List.map_map]
    exact List.map_congr_left fun t _ => row.field_settle t
  have hmarks : ∀ t ∈ x.slots.map row.settle, t.dirty = (t.current != t.baseline) := by
    intro t ht
    obtain ⟨u, hu, rfl⟩ := List.mem_map.mp ht
    obtain ⟨-, hsame⟩ | ⟨v, -, -, hclean⟩ := row.settle_cases u
    · rw [hsame]
      exact h.marks u hu
    · rw [hclean]
      exact (bne_self_eq_false v).symm
  have hdirty : (x.slots.map row.settle).any (·.dirty) = x.slots.any (·.dirty) := by
    simp [List.any_map, Function.comp_def]
  have htaken : Coherent { x with slots := x.slots.map row.settle } :=
    ⟨h.toFramed.of_slots hfields hmarks, flags_of_dirty h.flags hdirty⟩
  exact htaken.setParent row.parent

/-! ## Committing -/

theorem writeDirty_marks {s : Schema} {id : RecordId} {ts : List Slot} {l : Link}
    (h : ∀ t ∈ ts, t.dirty = (t.current != t.baseline)) :
    ∀ t ∈ (writeDirty s id ts l).1.slots, t.dirty = (t.current != t.baseline) := by
  induction ts generalizing l with
  | nil =>
    intro t ht
    cases ht
  | cons t ts ih =>
    have hrest : ∀ (l : Link), ∀ u ∈ (writeDirty s id ts l).1.slots,
        u.dirty = (u.current != u.baseline) :=
      fun l => ih fun u hu => h u (by simp [hu])
    unfold writeDirty
    split
    · split
      · intro u hu
        rcases List.mem_cons.mp hu with rfl | hu
        · exact marks_settle t
        · exact hrest _ u hu
      · exact h
    · intro u hu
      rcases List.mem_cons.mp hu with rfl | hu
      · exact h u (by simp)
      · exact hrest _ u hu

/-- A change set of values of some fields names no others. -/
theorem mem_fields_foldl {es : List (String × Value)} {c : ChangeSet} {name : String}
    (h : name ∈ (es.foldl (fun c e => c.record e.1 e.2) c).fields) :
    name ∈ c.fields ∨ name ∈ es.map (·.1) := by
  induction es generalizing c with
  | nil => exact .inl h
  | cons e es ih =>
    rcases ih h with hc | he
    · rcases ChangeSet.mem_fields_record hc with rfl | hc
      · exact .inr (by simp)
      · exact .inl hc
    · exact .inr (by simp only [List.map_cons, List.mem_cons, he, or_true])

/-- The change set of a commit, where it wrote something. -/
theorem changes_speak (h : x.Framed) (l : Link)
    (hne : (writeDirty x.schema x.id x.slots l).1.changes.isEmpty = false) :
    (writeDirty x.schema x.id x.slots l).1.changes.Speaks x.schema := by
  refine ⟨fun hnil => ?_, fun name hname => ?_⟩
  · rw [ChangeSet.isEmpty, hnil] at hne
    cases hne
  · rcases mem_fields_foldl hname with hnone | hwritten
    · cases hnone
    · obtain ⟨e, he, rfl⟩ := List.mem_map.mp hwritten
      obtain ⟨t, ht, rfl⟩ := mem_previous he
      exact h.name_mem ht

theorem Coherent.commit (h : x.Coherent) (l : Link) : (x.commit l).1.2.record.Coherent := by
  unfold Record.commit
  split
  · unfold commitRow
    split
    · exact h
    · have hslots : Framed { x with slots := x.slots.map Slot.settle } :=
        h.toFramed.of_slots (by rw [List.map_map]; rfl) (by
          intro t ht
          obtain ⟨u, -, rfl⟩ := List.mem_map.mp ht
          exact marks_settle u)
      exact Framed.effect (x := { x with
        isNew := false, deletePending := false, slots := x.slots.map Slot.settle })
        ⟨hslots.proper, hslots.fields, hslots.marks, hslots.changes⟩ _ _
  · unfold commitFields
    have hslots := h.toFramed.of_slots (writeDirty_fields x.schema x.id x.slots l)
      (writeDirty_marks h.marks)
    dsimp only
    split
    · exact hslots.effect _ _
    · next hne =>
      have hspeaks := changes_speak h.toFramed l (by simpa using hne)
      refine (hslots.setStack .undo fun c hc => ?_).effect _ _
      rcases List.mem_cons.mp hc with rfl | hc
      · exact hspeaks
      · exact h.changes .undo c hc

/-! ## Replaying -/

theorem writeThrough_marks (s : Schema) (id : RecordId) (t : Slot) (failure : Option StoreError)
    (l : Link) : (writeThrough s id t failure l).1.dirty =
      ((writeThrough s id t failure l).1.current != (writeThrough s id t failure l).1.baseline) := by
  unfold writeThrough
  split
  · rfl
  · split
    · exact marks_settle t
    · rfl

/-- Replaying marks the slots anew, and the change set goes on naming fields. -/
theorem replaySlots_framed {s : Schema} (id : RecordId) {ts : List Slot} {c : ChangeSet}
    (ht : ∀ t ∈ ts, t.dirty = (t.current != t.baseline)) (hn : ∀ t ∈ ts, t.name ∈ s.fieldNames)
    (hc : c.Speaks s) (failure : Option StoreError) (l : Link) :
    (∀ t ∈ (replaySlots s id ts c failure l).1.slots, t.dirty = (t.current != t.baseline)) ∧
      (replaySlots s id ts c failure l).1.changes.Speaks s := by
  induction ts generalizing c failure l with
  | nil => exact ⟨(fun t ht => by cases ht), hc⟩
  | cons t ts ih =>
    have hts : ∀ u ∈ ts, u.dirty = (u.current != u.baseline) := fun u hu => ht u (by simp [hu])
    have hnames : ∀ u ∈ ts, u.name ∈ s.fieldNames := fun u hu => hn u (by simp [hu])
    unfold replaySlots
    split
    · obtain ⟨hslots, hspeaks⟩ := ih hts hnames hc failure l
      refine ⟨fun u hu => ?_, hspeaks⟩
      rcases List.mem_cons.mp hu with rfl | hu
      · exact ht u (by simp)
      · exact hslots u hu
    · next restored c' hswap =>
      obtain ⟨old, -, hpair⟩ := Option.map_eq_some_iff.mp hswap
      cases hpair
      have hc' : (c.record t.name t.current).Speaks s := by
        refine ⟨ChangeSet.insert_ne_nil _ _ _, fun name hname => ?_⟩
        rcases ChangeSet.mem_fields_record hname with rfl | hname
        · exact hn t (by simp)
        · exact hc.2 name hname
      dsimp only
      obtain ⟨hslots, hspeaks⟩ := ih hts hnames hc'
        (writeThrough s id { t with current := restored } failure l).2.1
        (writeThrough s id { t with current := restored } failure l).2.2
      refine ⟨fun u hu => ?_, hspeaks⟩
      rcases List.mem_cons.mp hu with rfl | hu
      · exact writeThrough_marks s id _ failure l
      · exact hslots u hu

theorem Coherent.replay (h : x.Coherent) (t : Track) (l : Link) :
    (x.replay t l).1.2.record.Coherent := by
  cases hs : x.stack t with
  | nil =>
    rw [replay_nil hs]
    exact h
  | cons c older =>
    have hc := h.changes t c (by rw [hs]; exact List.mem_cons_self)
    obtain ⟨hslots, hspeaks⟩ :=
      replaySlots_framed x.id h.marks (fun _ ht => h.toFramed.name_mem ht) hc none l
    have hframed := h.toFramed.of_slots (replaySlots_fields x.schema x.id x.slots c none l) hslots
    have holder : ∀ c' ∈ older, c'.Speaks x.schema := fun c' hc' =>
      h.changes t c' (by rw [hs]; exact List.mem_cons_of_mem _ hc')
    have hnewer : ∀ c' ∈ (replaySlots x.schema x.id x.slots c none l).1.changes ::
        x.stack t.opposite, c'.Speaks x.schema := by
      intro c' hc'
      rcases List.mem_cons.mp hc' with rfl | hc'
      · exact hspeaks
      · exact h.changes t.opposite c' hc'
    have hstacks := (hframed.setStack t holder).setStack t.opposite fun c' hc' => by
      rw [schema_setStack]
      exact hnewer c' hc'
    simp only [Record.replay, hs]
    exact hstacks.effect _ _

/-! ## Turns -/

theorem Coherent.run (h : x.Coherent) (l : Link) (c : Command) :
    (x.run l c).1.2.record.Coherent := by
  cases c with
  | set field v => exact h.set field v
  | discard field => exact h.discard field
  | discardAll => exact h.discardAll
  | stageDelete => exact h.stageDelete
  | commit => exact h.commit l
  | replay t => exact h.replay t l

theorem Coherent.turn (h : x.Coherent) (t : Turn) : (x.turn t).record.Coherent := by
  cases t with
  | asked c l => exact h.run l c
  | handed row => exact h.takeRow row
  | moved parent => exact h.setParent parent

theorem turn_remains (x : Record) (t : Turn) : x.Remains (x.turn t).record := by
  cases t with
  | asked c l => exact x.run_remains l c
  | handed row => exact setParent_remains { x with slots := x.slots.map row.settle } row.parent
  | moved parent => exact x.setParent_remains parent

/-! ## New records -/

theorem commit_stored {l : Link} (h : x.isNew = false) :
    (x.commit l).1.2.record.isNew = false := by
  unfold Record.commit
  split
  · unfold commitRow
    split
    · exact h
    · rfl
  · unfold commitFields
    dsimp only
    split <;> exact h

theorem replay_stored {l : Link} (h : x.isNew = false) (t : Track) :
    (x.replay t l).1.2.record.isNew = false := by
  cases hs : x.stack t with
  | nil =>
    rw [replay_nil hs]
    exact h
  | cons c older =>
    simp only [Record.replay, hs]
    cases t <;> exact h

theorem setParent_stored (h : x.isNew = false) (parent : Option RecordId) :
    (x.setParent parent).record.isNew = false := by
  unfold Record.setParent
  split <;> exact h

/-- A command does not make a stored record new. -/
theorem run_stored {l : Link} (h : x.isNew = false) (c : Command) :
    (x.run l c).1.2.record.isNew = false := by
  cases c with
  | set field v =>
    show (x.set field v).2.record.isNew = false
    obtain ⟨hsame, -⟩ | ⟨t, -, -, -, -, hset⟩ := x.set_cases field v
    · rw [hsame]
      exact h
    · rw [hset]
      exact h
  | discard field =>
    show (x.discard field).2.record.isNew = false
    obtain hsame | ⟨t, -, -, hdiscard⟩ := x.discard_cases field
    · rw [hsame]
      exact h
    · rw [hdiscard]
      exact h
  | discardAll => exact h
  | stageDelete =>
    show x.stageDelete.record.isNew = false
    unfold Record.stageDelete
    split <;> exact h
  | commit => exact commit_stored h
  | replay t => exact replay_stored h t

theorem turn_stored (h : x.isNew = false) (t : Turn) : (x.turn t).record.isNew = false := by
  cases t with
  | asked c l => exact run_stored h c
  | handed row => exact setParent_stored (x := { x with slots := x.slots.map row.settle }) h _
  | moved parent => exact setParent_stored h parent

/-! ## Lives -/

theorem coherent_after {d : Draft} {s : Schema} (hs : d.build = .ok s) (id : RecordId)
    (isNew : Bool) (ts : List Turn) : ((Record.initial id s isNew).after ts).Coherent :=
  after_preserves (P := Coherent) (fun _ t h => h.turn t)
    (initial_coherent (Schema.proper_of_build hs) id isNew) ts

theorem after_remains (x : Record) (ts : List Turn) : x.Remains (x.after ts) :=
  after_preserves (P := x.Remains)
    (fun y t h => ⟨(y.turn_remains t).1.trans h.1, (y.turn_remains t).2.trans h.2⟩) ⟨rfl, rfl⟩ ts

/-- What a record says about itself agrees with what it consists of. -/
structure Truthful (s : Schema) (x : Record) : Prop where
  /-- There is one slot for each field, in order. -/
  fields : x.slots.map (·.field) = s.fields
  fieldDirty : ∀ t ∈ x.slots, t.dirty = true ↔ t.current ≠ t.baseline
  dirty : x.dirty = true ↔ ∃ t ∈ x.slots, t.dirty = true
  canUndo : x.canUndo = true ↔ x.undo ≠ []
  canRedo : x.canRedo = true ↔ x.redo ≠ []
  changes : ∀ t, ∀ c ∈ x.stack t, c.entries ≠ [] ∧ ∀ name ∈ c.fields, name ∈ s.fieldNames

theorem Coherent.truthful (h : x.Coherent) : x.Truthful x.schema where
  fields := h.fields
  fieldDirty t ht := by
    rw [h.marks t ht]
    exact bne_iff_ne
  dirty := by
    have hdirty : x.slots.any (·.dirty) = x.dirty := congrArg Record.dirty h.flags
    rw [← hdirty, List.any_eq_true]
  canUndo := by
    have hundo : (!x.undo.isEmpty) = x.canUndo := congrArg Record.canUndo h.flags
    rw [← hundo]
    simp
  canRedo := by
    have hredo : (!x.redo.isEmpty) = x.canRedo := congrArg Record.canRedo h.flags
    rw [← hredo]
    simp
  changes := h.changes

/-- Of whatever type a record is, and whatever happens to it, what it says about
itself is true, and once it is stored it is never new again. -/
theorem truthful_after {d : Draft} {s : Schema} (hs : d.build = .ok s) (id : RecordId)
    (isNew : Bool) (ts : List Turn) :
    ((Record.initial id s isNew).after ts).Truthful s ∧
      ∀ us, ((Record.initial id s isNew).after ts).isNew = false →
        ((Record.initial id s isNew).after (ts ++ us)).isNew = false := by
  refine ⟨?_, fun us hstored => ?_⟩
  · have htrue := (coherent_after hs id isNew ts).truthful
    rwa [(after_remains (Record.initial id s isNew) ts).2] at htrue
  · rw [after_append]
    exact after_preserves (P := fun x => x.isNew = false) (fun _ t h => turn_stored h t) hstored us

/-- A record type of two fields, one of which must not be null. -/
def ranked : Schema :=
  { table := "NOTES", fields := [⟨"TITLE", .text, true⟩, ⟨"RANK", .integer, false⟩]
    parentColumn := none }

/-- A link on which every statement from the `n`-th on is refused. -/
def breaking (n : Nat) : Link :=
  { (({} : Link).ensureTable ranked).2 with
    outage := fun i => if i < n then none else some .reference }

/-- A commit that stops half way, an undo that is refused, a row that does not fit. -/
def unsteady : List Turn :=
  [.asked (.set "TITLE" (.text "milk")) (breaking 1),
    .asked (.set "RANK" (.integer 1)) (breaking 1),
    .asked .commit (breaking 2), .asked (.replay .undo) (breaking 1),
    .asked (.discard "RANK") (breaking 1),
    .handed ⟨some (.ofOrdinal 7), [("RANK", .text "first"), ("OTHER", .null)]⟩]

/-- After the refused undo the title has an edit again; the rank is what was read. -/
theorem truthful_unsteady :
    Draft.build ⟨ranked.table, ranked.fields, ranked.parentColumn⟩ = .ok ranked ∧
      ((Record.initial (.ofOrdinal 1) ranked false).after unsteady).values =
        [("TITLE", .text ""), ("RANK", .text "first")] ∧
      ((Record.initial (.ofOrdinal 1) ranked false).after unsteady).dirtyFields = ["TITLE"] ∧
      ((Record.initial (.ofOrdinal 1) ranked false).after unsteady).redo =
        [⟨[("TITLE", .text "milk")]⟩] ∧
      ((Record.initial (.ofOrdinal 1) ranked false).after unsteady).Truthful ranked ∧
      ((Record.initial (.ofOrdinal 1) ranked false).after []).isNew = false ∧
      ((Record.initial (.ofOrdinal 1) ranked false).after ([] ++ unsteady)).isNew = false := by
  have hs : Draft.build ⟨ranked.table, ranked.fields, ranked.parentColumn⟩ = .ok ranked := by rfl
  exact ⟨hs, by rfl, by rfl, by rfl, (truthful_after hs _ false unsteady).1, rfl,
    (truthful_after hs _ false []).2 unsteady rfl⟩

/-! ## Records of programs -/

/-- A record has come about by turns from the initial values of an accepted type. -/
def Lived (x : Record) : Prop :=
  ∃ d s id isNew ts, Draft.build d = .ok s ∧ x = (Record.initial id s isNew).after ts

theorem Lived.turn (h : x.Lived) (t : Turn) : (x.turn t).record.Lived := by
  obtain ⟨d, s, id, isNew, ts, hs, rfl⟩ := h
  exact ⟨d, s, id, isNew, ts ++ [t], hs, by rw [after_append]; rfl⟩

theorem Lived.coherent (h : x.Lived) : x.Coherent := by
  obtain ⟨d, s, id, isNew, ts, hs, rfl⟩ := h
  exact coherent_after hs id isNew ts

theorem Lived.hydrate (h : x.Lived) (image : RowImage) : (x.hydrate image).record.Lived := by
  have hx := h.coherent
  rw [← takeRow_ofImage hx.proper hx.fields]
  exact h.turn (.handed _)

end Record

namespace Core

variable {k k' : Core}

/-- Every record in memory has lived. -/
def Lived (k : Core) : Prop :=
  ∀ (r : RecordRef) (i : Resident), k.records[r]? = some i → i.record.Lived

theorem Lived.of_records (h : k.Lived) (hr : k'.records = k.records) : k'.Lived := by
  intro r i hi
  exact h r i (hr ▸ hi)

theorem Lived.impose (h : k.Lived) (r : RecordRef) {e : Effect} (he : e.record.Lived) :
    (k.impose r e).Lived := by
  intro j i hi
  by_cases hj : j = r
  · subst hj
    cases hr : k.records[j]? with
    | none =>
      rw [Core.impose, hr] at hi
      cases hr.symm.trans hi
    | some x =>
      rw [records_impose_self hr] at hi
      cases hi
      exact he
  · rw [records_impose_of_ne k hj] at hi
    exact h j i hi

theorem Lived.commands (h : k.Lived) {r : RecordRef} {c : Record.Command}
    {reply : Except StoreError Record.Reply} (hc : Commands r c reply k k') : k'.Lived := by
  obtain ⟨i, l, hr, -, -, -, rfl⟩ := hc
  exact Lived.impose (h.of_records (setDatabase_records _ _ _)) r ((h r i hr).turn (.asked c l))

theorem Lived.asked (h : k.Lived) {r : RecordRef}
    {cs : List (Record.Command × Except StoreError Record.Reply)} (hc : Asked r cs k k') :
    k'.Lived :=
  Chain.preserves (P := Lived) (fun hc hk => hk.commands hc) hc h

theorem Lived.enrol (h : k.Lived) (m : MapRef) {map : IdentityMap} (hm : map.Placed k)
    (id : RecordId) (isNew : Bool) : (k.enrol m map id isNew).Lived := by
  intro r i hi
  obtain hlt | rfl | hgt := Nat.lt_trichotomy r k.records.length
  · rw [records_enrol_of_lt k m map id isNew hlt] at hi
    exact h r i hi
  · rw [records_enrol_self] at hi
    cases hi
    obtain ⟨d, hd⟩ := hm.schema
    exact ⟨d, map.schema, id, isNew, [], hd, rfl⟩
  · have hlen := (List.getElem?_eq_some_iff.mp hi).1
    simp only [Core.enrol, List.length_append, List.length_singleton] at hlen
    omega

theorem Lived.takenIn (h : k.Lived) (hs : k.Sound) {m : MapRef} {answered : RecordRef → Prop}
    {images : List RowImage} (ht : TakenIn m answered images k k') : k'.Lived := by
  induction ht with
  | nil k => exact h
  | @cons image images r i cs k₀ k₁ k₂ k₃ hm hr hc _ _ ih =>
    obtain ⟨hs₁, hl⟩ := hs.meets hm
    have h₁ : k₁.Lived := by
      obtain ⟨map, hmap, ⟨-, rfl⟩ | ⟨-, -, rfl⟩⟩ := hm
      · exact h
      · exact h.enrol m (hs.placed hmap) _ _
    have h₂ := (h₁.impose r ((h₁ r i hr).hydrate image)).asked hc
    exact ih h₂ ((hs₁.impose hr ⟨m, _, hl⟩ (Record.hydrate_balanced _ _)
      (Record.hydrate_remains _ _)).asked hc)

theorem Lived.does (h : k.Lived) (hs : k.Sound) {d : Deed} (hd : Does d k k') : k'.Lived := by
  cases d with
  | command r c reply => exact h.commands hd
  | read m images answered =>
    obtain ⟨map, -, -, ht⟩ := hd
    exact h.takenIn hs ht
  | enrol m id isNew =>
    obtain ⟨map, hm, -, rfl⟩ := hd
    exact h.enrol m (hs.placed hm) id isNew
  | place r parent =>
    obtain ⟨i, hr, -, rfl⟩ := hd
    exact h.impose r ((h r i hr).turn (.moved parent))
  | adopt m r parent =>
    obtain ⟨map, i, l, -, hr, -, -, -, rfl⟩ := hd
    exact Lived.impose (h.of_records (setDatabase_records _ _ _)) r
      ((h r i hr).turn (.moved parent))
  | free m r =>
    obtain ⟨map, i, l, -, -, -, -, rfl⟩ := hd
    split
    · exact h.of_records (setDatabase_records _ _ _)
    · exact h.of_records rfl
  | ground =>
    obtain ⟨n, cs, j, -, rfl⟩ := hd
    exact h.of_records rfl
  | addMap s c hub =>
    obtain ⟨l, -, -, -, -, -, rfl⟩ := hd
    exact h.of_records (setDatabase_records _ _ _)
  | foreign d =>
    obtain ⟨x, rfl⟩ := hd
    exact h.of_records rfl

end Core

/-- Every record that a program comes to hold has lived, so what holds of lives
holds of it. -/
theorem Workspace.lived_of_run {w : Workspace} (hb : w.Boots) {actions : List Workspace.Action}
    (h : (∀ a ∈ actions, a.sharesHub = false) ∨ ∀ a ∈ actions, a.steps = false) :
    (w.performAll actions).core.Lived := by
  have hfollows := Workspace.follows_of_forall (w := w) (Workspace.suits_of_run h)
  refine (hfollows.preserves (P := fun w => (w.core.Sound ∧
    Workspace.Holding (∀ a ∈ actions, a.sharesHub = false) w) ∧ w.core.Lived) ?_
    ⟨⟨hb.sound, hb.holding⟩, ?_⟩).2
  · intro w a ha ⟨⟨hs, hw⟩, hlived⟩
    have hacts := Workspace.perform_acts hs hw ha
    obtain ⟨ds, hcourse⟩ := hacts.1
    refine ⟨⟨hacts.sound hs, hacts.2⟩, ?_⟩
    exact (Chain.preserves (P := fun k => k.Sound ∧ k.Lived)
      (fun hd hk => ⟨hk.1.does hd.2, hk.2.does hk.1 hd.2⟩) hcourse ⟨hs, hlived⟩).2
  · intro r i hi
    rw [hb.core] at hi
    simp at hi

end LiveRecords
