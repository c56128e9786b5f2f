import LiveRecords.Proofs.Bookkeeping
import LiveRecords.Proofs.Lives

/-!
# Announcements

The events of an operation on a record are exactly the difference between the
record before it and after it: the fields whose current value is another, then
the flags and the parent, each named once and with what it is now. So whoever
starts from the state of a record and goes by the events holds its values and
flags for good. Where no listener of a record has a reaction left, every one of
them hears the events of an operation in this order, when the record is
already what it became.
-/

namespace LiveRecords

namespace Record

variable {x y : Record} {t : Slot} {ts us : List Slot}

/-! ## Differences -/

/-- The names of the slots whose current value is another. -/
def altered : List Slot → List Slot → List String
  | t :: ts, u :: us => if t.current = u.current then altered ts us else t.name :: altered ts us
  | _, _ => []

/-- All that can be seen to differ between two states of a record, as events. -/
def difference (x y : Record) : List RecordEvent :=
  (altered x.slots y.slots).map .field ++
    (change .pendingDelete x.deletePending y.deletePending ++
      (if y.parent = x.parent then [] else [.parent y.parent]) ++
      change .dirty x.dirty y.dirty ++ change .canUndo x.canUndo y.canUndo ++
      change .canRedo x.canRedo y.canRedo)

theorem altered_self (ts : List Slot) : altered ts ts = [] := by
  induction ts with
  | nil => rfl
  | cons t ts ih => simpa [altered] using ih

theorem difference_self (x : Record) : x.difference x = [] := by
  simp [difference, altered_self]

/-- Where each slot becomes another. -/
theorem altered_map (f : Slot → Slot) (ts : List Slot) :
    altered ts (ts.map f) = (ts.filter fun t => t.current != (f t).current).map (·.name) := by
  induction ts with
  | nil => rfl
  | cons t ts ih =>
    rw [List.map_cons, altered, ih, List.filter_cons]
    by_cases ht : t.current = (f t).current
    · rw [if_pos ht, if_neg (by simpa using ht)]
    · rw [if_neg ht, if_pos (by simpa using ht), List.map_cons]

/-- One slot of a record gets another current value. -/
theorem altered_replace (hn : (ts.map (·.name)).Nodup) (ht : t ∈ ts) {u : Slot}
    (hu : u.name = t.name) (hc : t.current ≠ u.current) :
    altered ts (ts.map fun a => if a.name = u.name then u else a) = [t.name] := by
  induction ts with
  | nil => cases ht
  | cons a ts ih =>
    rw [List.map_cons, List.nodup_cons] at hn
    rw [List.map_cons, altered, hu]
    rcases List.mem_cons.mp ht with rfl | ht'
    · have hrest : (ts.map fun a => if a.name = t.name then u else a) = ts := by
        have hsame : ∀ b ∈ ts, (if b.name = t.name then u else b) = b := by
          intro b hb
          refine if_neg fun hbt => hn.1 ?_
          rw [← hbt]
          exact List.mem_map_of_mem hb
        rw [List.map_congr_left hsame, List.map_id']
      rw [if_pos rfl, if_neg hc, hrest, altered_self]
    · have hat : a.name ≠ t.name := fun hat => hn.1 (hat ▸ List.mem_map_of_mem ht')
      rw [if_neg hat, if_pos rfl]
      exact hu ▸ ih hn.2 ht'

/-- An operation that brings the flags up to date at its end. -/
theorem effect_events {e : Effect} {notices : List Notice} {events : List RecordEvent}
    (he : e = y.effect notices events) (hd : y.dirty = x.dirty) (hu : y.canUndo = x.canUndo)
    (hr : y.canRedo = x.canRedo) (hp : y.parent = x.parent)
    (hev : events = (altered x.slots y.slots).map .field ++
      change .pendingDelete x.deletePending y.deletePending) :
    e.events = x.difference e.record := by
  subst he hev
  simp only [effect, refresh, difference, hd, hu, hr, hp, if_true, List.append_nil,
    List.append_assoc]

/-- The same, where the deletion of the row is not touched. -/
theorem effect_events_of_fields (names : List String) {e : Effect} {notices : List Notice}
    (he : e = y.effect notices (names.map .field)) (hd : y.dirty = x.dirty)
    (hu : y.canUndo = x.canUndo) (hr : y.canRedo = x.canRedo) (hp : y.parent = x.parent)
    (hdel : y.deletePending = x.deletePending) (hn : altered x.slots y.slots = names) :
    e.events = x.difference e.record :=
  effect_events he hd hu hr hp (by rw [hn, hdel, change_self, List.append_nil])

/-! ## Operations -/

theorem set_events (h : x.Coherent) (field : String) (v : Value) :
    (x.set field v).2.events = x.difference (x.set field v).2.record := by
  obtain ⟨hsame, -⟩ | ⟨t, ht, hname, -, hne, hset⟩ := x.set_cases field v
  · rw [hsame]
    exact x.difference_self.symm
  · rw [hset]
    refine effect_events_of_fields (x := x) [field] rfl rfl rfl rfl rfl rfl ?_
    exact (altered_replace (u := t.assign v) h.toFramed.names_nodup ht rfl hne).trans
      (by rw [hname])

/-- An edit that is given up was visible: the slot was marked for it. -/
theorem discard_events (h : x.Coherent) (field : String) :
    (x.discard field).2.events = x.difference (x.discard field).2.record := by
  unfold discard
  cases hs : x.slotOf field with
  | error e => exact x.difference_self.symm
  | ok t =>
    obtain ⟨ht, hname⟩ := mem_of_slotOf hs
    dsimp only
    split
    · next hdirty =>
      have hne : t.current ≠ t.baseline := by
        have hmark := h.marks t ht
        rw [hdirty] at hmark
        exact bne_iff_ne.mp hmark.symm
      refine effect_events_of_fields (x := x) [field] rfl rfl rfl rfl rfl rfl ?_
      exact (altered_replace (u := t.revert) h.toFramed.names_nodup ht rfl hne).trans
        (by rw [hname])
    · exact x.difference_self.symm

theorem discardAll_events (h : x.Coherent) :
    x.discardAll.events = x.difference x.discardAll.record := by
  refine effect_events_of_fields (x := x) _ rfl rfl rfl rfl rfl rfl ?_
  show altered x.slots (x.slots.map fun (s : Slot) => if s.dirty then s.revert else s) = _
  rw [altered_map, dirtyFields]
  refine congrArg (List.map _) (List.filter_congr fun t ht => ?_)
  cases hdirty : t.dirty with
  | false => simp
  | true =>
    have hmark := h.marks t ht
    rw [hdirty] at hmark
    exact hmark.symm

theorem stageDelete_events (x : Record) :
    x.stageDelete.events = x.difference x.stageDelete.record := by
  unfold stageDelete
  split
  · exact x.difference_self.symm
  · next hp => simp [difference, altered_self, change, hp]

theorem setParent_events (x : Record) (parent : Option RecordId) :
    (x.setParent parent).events = x.difference (x.setParent parent).record := by
  unfold setParent
  split
  · exact x.difference_self.symm
  · next hp => simp [difference, altered_self, Ne.symm hp]

/-- A row changes the current value of a slot exactly if it has news for it: a
slot without an edit holds one value only. -/
theorem changes_eq (h : x.Coherent) (row : NamedRow) (ht : t ∈ x.slots) :
    row.changes t = (t.current != (row.settle t).current) := by
  obtain ⟨hno, hsame⟩ | ⟨v, hyes, hnews, hclean⟩ := row.settle_cases t
  · rw [hno, hsame]
    exact (bne_self_eq_false t.current).symm
  · rw [hyes, hclean]
    have hmark := h.marks t ht
    simp only [isNews, Bool.and_eq_true, Bool.not_eq_true', Bool.or_eq_true] at hnews
    rw [hnews.1] at hmark
    have hsame : t.current = t.baseline := by simpa using hmark.symm
    rw [← hsame, or_self] at hnews
    exact hnews.2.symm

theorem takeRow_events (h : x.Coherent) (row : NamedRow) :
    (x.takeRow row).events = x.difference (x.takeRow row).record := by
  have haltered : altered x.slots (x.slots.map row.settle) =
      (x.slots.filter row.changes).map (·.name) := by
    rw [altered_map]
    exact congrArg (List.map _)
      (List.filter_congr fun t ht => (changes_eq h row ht).symm)
  have hparent := setParent_events { x with slots := x.slots.map row.settle } row.parent
  unfold takeRow
  dsimp only
  rw [hparent]
  unfold setParent
  split
  · next hp =>
    simp only [unchanged, difference, altered_self, haltered, List.map_map, Function.comp_def]
    simp
  · next hp =>
    simp only [difference, altered_self, haltered, List.map_map, Function.comp_def]
    simp

theorem altered_settle (ts : List Slot) : altered ts (ts.map Slot.settle) = [] := by
  rw [altered_map]
  simp [Slot.settle]

theorem writeDirty_altered (s : Schema) (id : RecordId) (ts : List Slot) (l : Link) :
    altered ts (writeDirty s id ts l).1.slots = [] := by
  induction ts generalizing l with
  | nil => rfl
  | cons t ts ih =>
    unfold writeDirty
    split
    · split
      · exact (if_pos rfl).trans (ih _)
      · exact altered_self _
    · exact (if_pos rfl).trans (ih _)

theorem commit_events (x : Record) (l : Link) :
    (x.commit l).1.2.events = x.difference (x.commit l).1.2.record := by
  unfold commit
  split
  · unfold commitRow
    split
    · exact x.difference_self.symm
    · have haltered := altered_settle x.slots
      have hrestored : (if x.deletePending then [RecordEvent.pendingDelete false] else []) =
          change .pendingDelete x.deletePending false := by
        cases x.deletePending <;> rfl
      refine effect_events (x := x) rfl rfl rfl rfl rfl ?_
      dsimp only
      rw [haltered, hrestored]
      rfl
  · unfold commitFields
    have haltered := writeDirty_altered x.schema x.id x.slots l
    dsimp only
    split
    · exact effect_events_of_fields (x := x) [] rfl rfl rfl rfl rfl rfl haltered
    · exact effect_events_of_fields (x := x) [] rfl rfl rfl rfl rfl rfl haltered

theorem writeThrough_current (s : Schema) (id : RecordId) (t : Slot)
    (failure : Option StoreError) (l : Link) :
    (writeThrough s id t failure l).1.current = t.current := by
  unfold writeThrough
  split
  · rfl
  · split <;> rfl

/-- Each slot is exchanged once at most, so what changed is what differs. -/
theorem replaySlots_altered (s : Schema) (id : RecordId) (ts : List Slot) (c : ChangeSet)
    (failure : Option StoreError) (l : Link) :
    altered ts (replaySlots s id ts c failure l).1.slots =
      (replaySlots s id ts c failure l).1.changed := by
  induction ts generalizing c failure l with
  | nil => rfl
  | cons t ts ih =>
    unfold replaySlots
    split
    · exact (if_pos rfl).trans (ih _ _ _)
    · dsimp only
      rw [altered, writeThrough_current, ih]

theorem replay_events (x : Record) (t : Track) (l : Link) :
    (x.replay t l).1.2.events = x.difference (x.replay t l).1.2.record := by
  cases hs : x.stack t with
  | nil =>
    rw [replay_nil hs]
    exact x.difference_self.symm
  | cons c older =>
    have haltered := replaySlots_altered x.schema x.id x.slots c none l
    simp only [Record.replay, hs]
    cases t <;> exact effect_events_of_fields (x := x) _ rfl rfl rfl rfl rfl rfl haltered

/-- Whatever happens to a record, its events are the difference that it makes. -/
theorem turn_events (h : x.Coherent) (t : Turn) :
    (x.turn t).events = x.difference (x.turn t).record := by
  cases t with
  | asked c l =>
    cases c with
    | set field v => exact set_events h field v
    | discard field => exact discard_events h field
    | discardAll => exact discardAll_events h
    | stageDelete => exact x.stageDelete_events
    | commit => exact x.commit_events l
    | replay t => exact x.replay_events t l
  | handed row => exact takeRow_events h row
  | moved parent => exact x.setParent_events parent

/-! ## Looking at differences -/

/-- Two states of one record: the same fields, no two of one name. -/
structure Kindred (x y : Record) : Prop where
  schema : y.schema = x.schema
  fields : y.slots.map (·.field) = x.slots.map (·.field)
  nodup : (x.slots.map (·.name)).Nodup

theorem kindred_turn (h : x.Coherent) (t : Turn) : Kindred x (x.turn t).record where
  schema := (x.turn_remains t).2
  fields := by rw [(h.turn t).fields, h.fields, (x.turn_remains t).2]
  nodup := h.toFramed.names_nodup

theorem names_of_fields (h : us.map (·.field) = ts.map (·.field)) :
    us.map (·.name) = ts.map (·.name) := by
  have hmap := congrArg (List.map Field.name) h
  rwa [List.map_map, List.map_map] at hmap

theorem mem_names_of_altered {name : String} (h : name ∈ altered ts us) :
    name ∈ ts.map (·.name) := by
  induction ts generalizing us with
  | nil => cases us <;> cases h
  | cons t ts ih =>
    cases us with
    | nil => cases h
    | cons u us =>
      rw [altered] at h
      split at h
      · exact List.mem_cons_of_mem _ (ih h)
      · rcases List.mem_cons.mp h with rfl | h
        · exact List.mem_cons_self
        · exact List.mem_cons_of_mem _ (ih h)

theorem altered_nodup (hn : (ts.map (·.name)).Nodup) : (altered ts us).Nodup := by
  induction ts generalizing us with
  | nil => cases us <;> exact List.nodup_nil
  | cons t ts ih =>
    rw [List.map_cons, List.nodup_cons] at hn
    cases us with
    | nil => exact List.nodup_nil
    | cons u us =>
      rw [altered]
      split
      · exact ih hn.2
      · exact List.nodup_cons.mpr ⟨fun hmem => hn.1 (mem_names_of_altered hmem), ih hn.2⟩

/-- A name is among those altered exactly if looking it up gives another value. -/
theorem mem_altered (hf : us.map (·.field) = ts.map (·.field))
    (hn : (ts.map (·.name)).Nodup) (name : String) :
    name ∈ altered ts us ↔
      (ts.find? (·.name == name)).map (·.current) ≠
        (us.find? (·.name == name)).map (·.current) := by
  induction ts generalizing us with
  | nil =>
    cases us with
    | nil => simp [altered]
    | cons u us => cases hf
  | cons t ts ih =>
    cases us with
    | nil => cases hf
    | cons u us =>
      rw [List.map_cons, List.nodup_cons] at hn
      rw [List.map_cons, List.map_cons, List.cons.injEq] at hf
      have hname : u.name = t.name := congrArg Field.name hf.1
      rw [altered, List.find?_cons, List.find?_cons, hname]
      by_cases ht : t.name = name
      · subst ht
        have hrest : t.name ∉ altered ts us := fun hmem => hn.1 (mem_names_of_altered hmem)
        by_cases hc : t.current = u.current <;> simp [hc, hrest]
      · rw [beq_false_of_ne ht, ← ih hf.2 hn.2]
        split
        · rfl
        · rw [List.mem_cons, or_iff_right (Ne.symm ht)]

theorem get_eq (x : Record) (name : String) :
    x.get name = match (x.slot? name).map (·.current) with
      | some v => .ok v
      | none => .error (.unknownField x.table name) := by
  unfold Record.get slotOf
  cases x.slot? name <;> rfl

theorem slot?_of_mem (hn : (y.slots.map (·.name)).Nodup) (ht : t ∈ y.slots) :
    y.slot? t.name = some t := by
  cases hs : y.slot? t.name with
  | none =>
    have hall := List.find?_eq_none.mp hs t ht
    simp at hall
  | some u =>
    have hname : u.name = t.name := by simpa using List.find?_some hs
    rw [eq_of_name hn (List.mem_of_find?_eq_some hs) ht hname]

/-- The fields that are named are those that hold another value. -/
theorem Kindred.mem_altered (h : Kindred x y) (name : String) :
    name ∈ altered x.slots y.slots ↔ x.get name ≠ y.get name := by
  have htable : y.table = x.table := congrArg Schema.table h.schema
  rw [Record.mem_altered h.fields h.nodup, get_eq, get_eq, htable, slot?, slot?]
  cases (x.slots.find? (·.name == name)).map (·.current) <;>
    cases (y.slots.find? (·.name == name)).map (·.current) <;> simp

/-- The events of an operation say what changed, all of it, and each thing once. -/
structure Announces (x : Record) (e : Effect) : Prop where
  once : e.events.Nodup
  field : ∀ name, .field name ∈ e.events ↔ x.get name ≠ e.record.get name
  dirty : ∀ b, .dirty b ∈ e.events ↔ x.dirty ≠ e.record.dirty ∧ b = e.record.dirty
  canUndo : ∀ b, .canUndo b ∈ e.events ↔ x.canUndo ≠ e.record.canUndo ∧ b = e.record.canUndo
  canRedo : ∀ b, .canRedo b ∈ e.events ↔ x.canRedo ≠ e.record.canRedo ∧ b = e.record.canRedo
  pendingDelete : ∀ b, .pendingDelete b ∈ e.events ↔
    x.deletePending ≠ e.record.deletePending ∧ b = e.record.deletePending
  parent : ∀ p, .parent p ∈ e.events ↔ x.parent ≠ e.record.parent ∧ p = e.record.parent

theorem mem_change {event : Bool → RecordEvent} {before now : Bool} {e : RecordEvent} :
    e ∈ change event before now ↔ before ≠ now ∧ e = event now := by
  unfold change
  split
  · next h => simp [h]
  · next h => simp [Ne.symm h]

theorem change_nodup (event : Bool → RecordEvent) (before now : Bool) :
    (change event before now).Nodup := by
  unfold change
  split
  · exact List.nodup_nil
  · exact List.pairwise_singleton _ _

/-- What the difference between two states consists of. -/
theorem mem_difference {e : RecordEvent} :
    e ∈ x.difference y ↔ (∃ name ∈ altered x.slots y.slots, e = .field name) ∨
      (x.deletePending ≠ y.deletePending ∧ e = .pendingDelete y.deletePending) ∨
      (x.parent ≠ y.parent ∧ e = .parent y.parent) ∨ (x.dirty ≠ y.dirty ∧ e = .dirty y.dirty) ∨
      (x.canUndo ≠ y.canUndo ∧ e = .canUndo y.canUndo) ∨
      (x.canRedo ≠ y.canRedo ∧ e = .canRedo y.canRedo) := by
  have hparent : e ∈ (if y.parent = x.parent then [] else [RecordEvent.parent y.parent]) ↔
      x.parent ≠ y.parent ∧ e = .parent y.parent := by
    split
    · next h => simp [h]
    · next h => simp [Ne.symm h]
  have hfield : e ∈ (altered x.slots y.slots).map RecordEvent.field ↔
      ∃ name ∈ altered x.slots y.slots, e = .field name := by
    simp only [List.mem_map, eq_comm]
  simp only [difference, List.mem_append, mem_change, hparent, hfield, or_assoc]

theorem difference_nodup (h : Kindred x y) : (x.difference y).Nodup := by
  have hfields : ((altered x.slots y.slots).map RecordEvent.field).Nodup :=
    List.Pairwise.map _ (fun a b hne heq => hne (by simpa using heq)) (altered_nodup h.nodup)
  have hparent : (if y.parent = x.parent then [] else [RecordEvent.parent y.parent]).Nodup := by
    split
    · exact List.nodup_nil
    · exact List.pairwise_singleton _ _
  simp only [difference, List.nodup_append, hfields, hparent, change_nodup, List.mem_append,
    mem_change, List.mem_map]
  grind

theorem announces_of_difference {e : Effect} (h : Kindred x e.record)
    (he : e.events = x.difference e.record) : Announces x e where
  once := he ▸ difference_nodup h
  field name := by
    rw [← h.mem_altered, he, mem_difference]
    simp
  dirty b := by
    rw [he, mem_difference]
    simp
  canUndo b := by
    rw [he, mem_difference]
    simp
  canRedo b := by
    rw [he, mem_difference]
    simp
  pendingDelete b := by
    rw [he, mem_difference]
    simp
  parent p := by
    rw [he, mem_difference]
    simp

/-! ## Observers -/

/-- What an observer holds of a record. -/
structure Observed where
  values : List (String × Value)
  dirty : Bool
  canUndo : Bool
  canRedo : Bool
  deletePending : Bool
  parent : Option RecordId
  deriving DecidableEq

namespace Observed

def of (x : Record) : Observed :=
  ⟨x.values, x.dirty, x.canUndo, x.canRedo, x.deletePending, x.parent⟩

/-- Reads the value of a field again. -/
def reread (y : Record) (name : String) (values : List (String × Value)) :
    List (String × Value) :=
  match y.get name with
  | .ok v => values.map fun e => if e.1 = name then (name, v) else e
  | .error _ => values

/-- Goes by an event that is heard while the record is `y`. -/
def hear (y : Record) (o : Observed) : RecordEvent → Observed
  | .field name => { o with values := reread y name o.values }
  | .dirty b => { o with dirty := b }
  | .canUndo b => { o with canUndo := b }
  | .canRedo b => { o with canRedo := b }
  | .pendingDelete b => { o with deletePending := b }
  | .parent p => { o with parent := p }

/-- Goes by the events of turn after turn. -/
def follow (x : Record) (o : Observed) : List Turn → Observed
  | [] => o
  | t :: ts => follow (x.turn t).record ((x.turn t).events.foldl (hear (x.turn t).record) o) ts

/-- A value as a record holds it, for a field that it has. -/
def current (y : Record) (e : String × Value) : String × Value :=
  match y.get e.1 with
  | .ok v => (e.1, v)
  | .error _ => e

theorem reread_eq (y : Record) (name : String) (values : List (String × Value)) :
    reread y name values = values.map fun e => if e.1 = name then current y e else e := by
  unfold reread
  cases hy : y.get name with
  | ok v =>
    refine List.map_congr_left fun e _ => ?_
    by_cases he : e.1 = name
    · rw [if_pos he, if_pos he, current, he, hy]
    · rw [if_neg he, if_neg he]
  | error _ =>
    refine ((List.map_congr_left fun e _ => ?_).trans (List.map_id _)).symm
    split
    · next he => rw [current, he, hy]; rfl
    · rfl

theorem current_idem (y : Record) (e : String × Value) : current y (current y e) = current y e := by
  unfold current
  cases he : y.get e.1 with
  | ok v => simp [he]
  | error _ => simp [he]

theorem fst_current (y : Record) (e : String × Value) : (current y e).1 = e.1 := by
  unfold current
  split <;> rfl

/-- The fields that are named are read again, the others stay. -/
theorem foldl_field (y : Record) (names : List String) (o : Observed) :
    (names.map RecordEvent.field).foldl (hear y) o =
      { o with values := o.values.map fun e => if e.1 ∈ names then current y e else e } := by
  induction names generalizing o with
  | nil => simp
  | cons name names ih =>
    rw [List.map_cons, List.foldl_cons, ih]
    simp only [hear, reread_eq, List.map_map]
    congr 1
    refine List.map_congr_left fun e _ => ?_
    simp only [Function.comp_apply, List.mem_cons]
    by_cases he : e.1 = name
    · simp only [he, if_true, fst_current, current_idem, true_or, ite_self]
    · simp only [he, if_false, false_or]

/-- A flag that is announced is taken over; one that is not is as it was. -/
theorem foldl_change (y : Record) {event : Bool → RecordEvent} {before now : Bool} {o : Observed}
    (h : now = before → hear y o (event now) = o) :
    (change event before now).foldl (hear y) o = hear y o (event now) := by
  unfold change
  split
  · next hsame => exact (h hsame).symm
  · rfl

theorem get_of_mem (hn : (y.slots.map (·.name)).Nodup) (ht : t ∈ y.slots) :
    y.get t.name = .ok t.current := by
  rw [get_eq, slot?_of_mem hn ht]
  rfl

/-- Reading all fields again gives the values that there are. -/
theorem map_current (hn : (y.slots.map (·.name)).Nodup) {es : List (String × Value)}
    (he : es.map (·.1) = y.slots.map (·.name)) : es.map (current y) = y.values := by
  have hread : ∀ e ∈ es, current y e = current y (e.1, .null) := by
    intro e hmem
    have hname : e.1 ∈ y.slots.map (·.name) := he ▸ List.mem_map_of_mem hmem
    obtain ⟨u, hu, hname⟩ := List.mem_map.mp hname
    simp only [current, ← hname, get_of_mem hn hu]
  calc es.map (current y)
      = (es.map (·.1)).map fun name => current y (name, .null) := by
        rw [List.map_congr_left hread, List.map_map]
        rfl
    _ = y.slots.map fun u => current y (u.name, .null) := by
        rw [he, List.map_map]
        rfl
    _ = y.values := List.map_congr_left fun u hu => by
        simp only [current, get_of_mem hn hu]

/-- Whoever holds the one state and goes by the difference holds the other. -/
theorem foldl_difference (h : Kindred x y) :
    (x.difference y).foldl (hear y) (of x) = of y := by
  have hnames := names_of_fields h.fields
  -- Where a field is not named, reading it gives what was held already.
  have hunnamed : ∀ e ∈ x.values,
      (if e.1 ∈ altered x.slots y.slots then current y e else e) = current y e := by
    intro e he
    obtain ⟨t, ht, rfl⟩ := List.mem_map.mp he
    split
    · rfl
    · next hnot =>
      have hsame : x.get t.name = y.get t.name :=
        Classical.byContradiction fun hne => hnot ((h.mem_altered t.name).mpr hne)
      rw [get_of_mem h.nodup ht] at hsame
      simp only [current, ← hsame]
  have hvalues : (x.values.map fun e => if e.1 ∈ altered x.slots y.slots then current y e else e) =
      y.values := by
    rw [List.map_congr_left hunnamed]
    refine map_current (hnames ▸ h.nodup) ?_
    rw [hnames, Record.values, List.map_map]
    rfl
  have hdel : ∀ o : Observed, o.deletePending = x.deletePending →
      (change .pendingDelete x.deletePending y.deletePending).foldl (hear y) o =
        { o with deletePending := y.deletePending } :=
    fun o ho => foldl_change y fun hs => by rw [hs, ← ho]; rfl
  have hparent : ∀ o : Observed, o.parent = x.parent →
      (if y.parent = x.parent then [] else [RecordEvent.parent y.parent]).foldl (hear y) o =
        { o with parent := y.parent } := by
    intro o ho
    split
    · next hp => rw [hp, ← ho]; rfl
    · rfl
  have hdirty : ∀ o : Observed, o.dirty = x.dirty →
      (change .dirty x.dirty y.dirty).foldl (hear y) o = { o with dirty := y.dirty } :=
    fun o ho => foldl_change y fun hs => by rw [hs, ← ho]; rfl
  have hundo : ∀ o : Observed, o.canUndo = x.canUndo →
      (change .canUndo x.canUndo y.canUndo).foldl (hear y) o = { o with canUndo := y.canUndo } :=
    fun o ho => foldl_change y fun hs => by rw [hs, ← ho]; rfl
  have hredo : ∀ o : Observed, o.canRedo = x.canRedo →
      (change .canRedo x.canRedo y.canRedo).foldl (hear y) o = { o with canRedo := y.canRedo } :=
    fun o ho => foldl_change y fun hs => by rw [hs, ← ho]; rfl
  rw [difference, List.foldl_append, foldl_field, show (of x).values = x.values from rfl, hvalues]
  simp only [List.foldl_append]
  rw [hdel, hparent, hdirty, hundo, hredo] <;> rfl

/-- An observer that goes by all events holds the record as it is. -/
theorem follow_eq (h : x.Coherent) (ts : List Turn) : follow x (of x) ts = of (x.after ts) := by
  induction ts generalizing x with
  | nil => rfl
  | cons t ts ih =>
    rw [follow, turn_events h, foldl_difference (kindred_turn h t), ih (h.turn t)]
    rfl

end Observed

end Record

namespace Workspace

open Record (Command)

variable {w : Workspace} {r : RecordRef} {i : Instance}

/-! ## Listeners -/

/-- What the listeners of a record report of some events. -/
def echo (i : Instance) (es : List RecordEvent) : List Heard :=
  es.flatMap fun e => i.listeners.listeners.map fun l =>
    .record l.2.name e (if l.2.probes then some (probe i.record) else none)

/-- A record becomes another, which is what its listeners see while each of them
hears every event in order. Before that, none but listeners of coordinators
report anything. -/
def Delivers (w : Workspace) (r : RecordRef) (e : Effect) (w' : Workspace) : Prop :=
  ∃ i told, w.records[r]? = some i ∧
    w'.records[r]? = some { i with record := e.record } ∧
    (∀ h ∈ told, ∃ listener event, h = .coordinator listener event) ∧
    w'.heard = w.heard ++ told ++ echo { i with record := e.record } e.events

theorem reaction?_of_armed (h : w.armed r = 0) (listener : Nat) (e : RecordEvent) :
    w.reaction? r listener e = none := by
  cases hr : w.reaction? r listener e with
  | none => rfl
  | some c =>
    have hlt := armed_disarm_lt hr
    omega

/-- A listener without a reaction only reports. -/
theorem hear_of_armed (h : w.armed r = 0) (hr : w.records[r]? = some i) (act : Act)
    (e : RecordEvent) (l : Nat × RecordListener) :
    hear act r e l w =
      w.write (.record l.2.name e (if l.2.probes then some (probe i.record) else none)) := by
  have hwrite : ∀ note : Heard, (w.write note).armed r = 0 := fun _ => h
  unfold hear
  dsimp only
  rw [reaction?_of_armed (hwrite _), hr]
  rfl

theorem foldl_hear_of_armed (h : w.armed r = 0) (hr : w.records[r]? = some i) (act : Act)
    (e : RecordEvent) (ls : List (Nat × RecordListener)) :
    ls.foldl (fun w l => hear act r e l w) w =
      { w with
        heard := w.heard ++ ls.map fun l =>
          .record l.2.name e (if l.2.probes then some (probe i.record) else none) } := by
  induction ls generalizing w with
  | nil => simp
  | cons l ls ih =>
    rw [List.foldl_cons, hear_of_armed h hr, ih (by exact h) (by exact hr)]
    simp [write]

/-- All listeners hear all events. -/
theorem foldl_deliver_of_armed (h : w.armed r = 0) (hr : w.records[r]? = some i) (act : Act)
    (es : List RecordEvent) :
    es.foldl (deliver act r) w = { w with heard := w.heard ++ echo i es } := by
  induction es generalizing w with
  | nil => simp [echo]
  | cons e es ih =>
    have hfirst : deliver act r w e = { w with
        heard := w.heard ++ i.listeners.listeners.map fun l =>
          .record l.2.name e (if l.2.probes then some (probe i.record) else none) } := by
      rw [deliver, hr]
      exact foldl_hear_of_armed h hr act e _
    rw [List.foldl_cons, hfirst, ih (by exact h) (by exact hr)]
    simp [echo]

/-- What is told to a coordinator is heard by its listeners only. -/
def Tells (w w' : Workspace) : Prop :=
  w'.records = w.records ∧
    ∃ told, (∀ h ∈ told, ∃ listener event, h = Heard.coordinator listener event) ∧
      w'.heard = w.heard ++ told

theorem Tells.refl (w : Workspace) : Tells w w := ⟨rfl, [], by simp, by simp⟩

theorem Tells.trans {w₁ w₂ w₃ : Workspace} (h₁ : Tells w₁ w₂) (h₂ : Tells w₂ w₃) :
    Tells w₁ w₃ := by
  obtain ⟨hr₁, told₁, ht₁, hh₁⟩ := h₁
  obtain ⟨hr₂, told₂, ht₂, hh₂⟩ := h₂
  refine ⟨hr₂.trans hr₁, told₁ ++ told₂, fun h hmem => ?_, by rw [hh₂, hh₁, List.append_assoc]⟩
  rcases List.mem_append.mp hmem with hmem | hmem
  · exact ht₁ h hmem
  · exact ht₂ h hmem

theorem announce_tells (h : HubRef) (e : CoordinatorEvent) (w : Workspace) :
    Tells w (announce h e w) := by
  unfold announce
  split
  · exact .refl w
  · exact foldl_related .refl .trans _
      (fun w l => ⟨rfl, [.coordinator l.2 e], by simp, rfl⟩) _ w

theorem tell_tells (w : Workspace) (h : HubRef)
    (act : Coordinator → Coordinator × List CoordinatorEvent) : Tells w (w.tell h act) := by
  have hset : Tells w (w.setCoordinator h (act (w.coordinatorOf h)).1) := ⟨rfl, [], by simp, by
    simp [setCoordinator, setHub]⟩
  exact hset.trans (foldl_related .refl .trans _ (fun w e => announce_tells h e w) _ _)

/-- Where no listener of a record has a reaction left, what was done to the record
is delivered. -/
theorem carryOutWith_delivers (h : w.armed r = 0) (hr : w.records[r]? = some i) (act : Act)
    (e : Effect) : Delivers w r e (carryOutWith act r e w) := by
  have hself : (w.setRecord r fun i => { i with record := e.record }).records[r]? =
      some { i with record := e.record } := by
    simp only [setRecord, List.getElem?_modify_eq, hr]
    rfl
  have htells : Tells (w.setRecord r fun i => { i with record := e.record })
      (e.notices.foldl (fun w n => w.tell i.hub (n.apply r))
        (w.setRecord r fun i => { i with record := e.record })) :=
    foldl_related .refl .trans _ (fun w (n : Notice) => tell_tells w i.hub (n.apply r)) _ _
  obtain ⟨hrecords, told, htold, hheard⟩ := htells
  rw [← hrecords] at hself
  have harmed : armed (e.notices.foldl (fun w n => w.tell i.hub (n.apply r))
      (w.setRecord r fun i => { i with record := e.record })) r = 0 := by
    have hset := armed_setRecord_le w r (f := fun i => { i with record := e.record })
      (fun _ => Nat.le_refl _) r
    have hfold := (keeps_foldl_tell e.notices i.hub r
      (w.setRecord r fun i => { i with record := e.record })).armed r
    omega
  have hcarry : carryOutWith act r e w = e.events.foldl (deliver act r)
      (e.notices.foldl (fun w n => w.tell i.hub (n.apply r))
        (w.setRecord r fun i => { i with record := e.record })) := by
    rw [carryOutWith, hr]
  rw [hcarry, foldl_deliver_of_armed harmed hself]
  exact ⟨i, told, hr, hself, htold, congrArg (· ++ _) hheard⟩

/-- Statements are run before anything is delivered. -/
theorem Delivers.after {w₀ w' : Workspace} {e : Effect} (h : Delivers w r e w')
    (hr : w.records = w₀.records) (hh : w.heard = w₀.heard) : Delivers w₀ r e w' := by
  obtain ⟨i, told, hi, hafter, htold, hheard⟩ := h
  exact ⟨i, told, hr ▸ hi, hafter, htold, hh ▸ hheard⟩

theorem heard_through {α : Type} (w : Workspace) (c : ConnectionRef) (f : Link → α × Link) :
    (w.through c f).2.heard = w.heard := by
  unfold through setLink
  dsimp only
  split <;> rfl

theorem run_delivers (h : w.armed r = 0) (hr : w.records[r]? = some i) (c : Command) :
    Delivers w r (i.record.run (w.link i.connection) c).1.2 (w.run r c).2 := by
  have hr' : (w.through i.connection fun l => i.record.run l c).2.records[r]? = some i := by
    rw [records_through, hr]
  have harmed : armed (w.through i.connection fun l => i.record.run l c).2 r = 0 :=
    Nat.le_zero.mp (h ▸ (keeps_through w i.connection fun l => i.record.run l c).armed r)
  have hrun : ∀ act : Act, (runWith act r c w).2 =
      carryOutWith act r (i.record.run (w.link i.connection) c).1.2
        (w.through i.connection fun l => i.record.run l c).2 := by
    intro act
    simp only [runWith, hr]
    rfl
  rw [Workspace.run, h, runNested, hrun]
  exact (carryOutWith_delivers harmed hr' _ _).after (records_through w _ _) (heard_through w _ _)

theorem resolve_delivers (h : w.armed r = 0) (hr : w.records[r]? = some i) {m : MapRef}
    {image : RowImage} (hreg : w.registered? m image.id = some r) :
    Delivers w r (i.record.hydrate image) (w.resolve m image).2 := by
  obtain ⟨map, hm, hlook⟩ := Option.bind_eq_some_iff.mp hreg
  have hregister : w.register m image.id false = (r, w) := by
    simp only [register, hm, hlook]
  simp only [resolve, hregister, hr]
  exact carryOutWith_delivers h hr _ _

theorem records_onTable {α : Type} (w : Workspace) (m : MapRef)
    (f : Schema → Link → Except StoreError α × Link) (missing : α) :
    (w.onTable m f missing).2.records = w.records ∧
      (w.onTable m f missing).2.heard = w.heard ∧
      (w.onTable m f missing).2.armed r ≤ w.armed r := by
  unfold onTable
  split
  · exact ⟨rfl, rfl, Nat.le_refl _⟩
  · exact ⟨records_through w _ _, heard_through w _ _, (keeps_through w _ _).armed r⟩

/-- A parent that could be stored is announced; otherwise nothing is. -/
theorem setParent_delivers (h : w.armed r = 0) (hr : w.records[r]? = some i) (m : MapRef)
    (parent : Option RecordId) :
    (∀ e, (w.setParent m r parent).1 = .error e →
      (w.setParent m r parent).2.records = w.records ∧
        (w.setParent m r parent).2.heard = w.heard) ∧
      ((w.setParent m r parent).1 = .ok () →
        Delivers w r (i.record.setParent parent) (w.setParent m r parent).2) := by
  obtain ⟨hrecords, hheard, harmed⟩ := records_onTable (r := r) w m
    (fun s l => l.updateParent s i.record.id parent) ()
  simp only [Workspace.setParent, hr]
  split
  · next hq =>
    rw [hq] at hrecords hheard
    exact ⟨fun _ _ => ⟨hrecords, hheard⟩, (fun hok => by cases hok)⟩
  · next hq =>
    rw [hq] at hrecords hheard harmed
    refine ⟨(fun _ herr => by cases herr), fun _ => ?_⟩
    exact (carryOutWith_delivers (Nat.le_zero.mp (h ▸ harmed)) (hrecords ▸ hr) _ _).after
      hrecords hheard

/-- In every state that a record can come to, and whatever happens to it there:
the events say exactly what changed, an observer that goes by them holds the
record from then on, and every listener hears them, unless one answers. -/
theorem announced_of_lived {x : Record} (hx : x.Lived) :
    (∀ t, x.Announces (x.turn t)) ∧
      (∀ ts, Record.Observed.follow x (.of x) ts = .of (x.after ts)) ∧
      ∀ (w : Workspace) (r : RecordRef) (i : Instance), w.records[r]? = some i → i.record = x →
        w.armed r = 0 →
          (∀ c, Delivers w r (x.turn (.asked c (w.link i.connection))) (w.run r c).2) ∧
          (∀ m image, w.registered? m image.id = some r →
            Delivers w r (x.turn (.handed (.ofImage x.schema image))) (w.resolve m image).2) ∧
          ∀ m parent,
            (∀ e, (w.setParent m r parent).1 = .error e →
              (w.setParent m r parent).2.records = w.records ∧
                (w.setParent m r parent).2.heard = w.heard) ∧
            ((w.setParent m r parent).1 = .ok () →
              Delivers w r (x.turn (.moved parent)) (w.setParent m r parent).2) := by
  have hcoherent := hx.coherent
  refine ⟨fun t => ?_, Record.Observed.follow_eq hcoherent, ?_⟩
  · exact Record.announces_of_difference (Record.kindred_turn hcoherent t)
      (Record.turn_events hcoherent t)
  · rintro w r i hr rfl harmed
    refine ⟨run_delivers harmed hr, fun m image hreg => ?_, setParent_delivers harmed hr⟩
    show Delivers w r (i.record.takeRow _) _
    rw [Record.takeRow_ofImage hcoherent.proper hcoherent.fields]
    exact resolve_delivers harmed hr hreg

/-- A record that was saved, with a listener that looks at it. -/
def watched : Workspace :=
  performAll {} (saveTwice ++ [.subscribe (.record "note") { name := "eye", probes := true }])

/-- What an undo of the saved change makes heard. -/
theorem announced_watched :
    ∃ x i, watched.records[0]? = some i ∧ i.record = x ∧ watched.armed 0 = 0 ∧ x.Lived ∧
      x.Announces (x.turn (.asked (.replay .undo) (watched.link i.connection))) ∧
      (x.turn (.asked (.replay .undo) (watched.link i.connection))).events =
        [.field "TITLE", .canUndo false, .canRedo true] ∧
      Delivers watched 0 (x.turn (.asked (.replay .undo) (watched.link i.connection)))
        (watched.run 0 (.replay .undo)).2 := by
  have hr : watched.records[0]? = some (watched.records.get ⟨0, by decide +kernel⟩) :=
    List.getElem?_eq_getElem _
  have hlived : (watched.records.get ⟨0, by decide +kernel⟩).record.Lived :=
    lived_of_run boots_empty (.inl (by decide)) 0 _ (core_records_of_some hr)
  have harmed : watched.armed 0 = 0 := by decide +kernel
  obtain ⟨hannounces, -, hheard⟩ := announced_of_lived hlived
  exact ⟨_, _, hr, rfl, harmed, hlived, hannounces _, by decide +kernel,
    (hheard watched 0 _ hr rfl harmed).1 _⟩

end Workspace

end LiveRecords
