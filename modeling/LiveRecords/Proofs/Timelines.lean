import LiveRecords.Proofs.Core
import LiveRecords.Proofs.Exchanges

/-!
# Timelines

What a record says it does, without change sets: a timeline has the committed
values of all fields, the values that are to be committed, and full copies of
what was committed before and of what was taken back. A record has the two
values of each slot and stacks of change sets, which hold only the fields that
changed and trade their values with the slots as they go from stack to stack.

The stacks of a record are read as full copies by rewinding the committed
values through them, and every command does to a record what it does to the
timeline it has then.
-/

namespace LiveRecords

/-- The values of all fields, by name. -/
abbrev Snapshot := List (String × Value)

structure Timeline where
  /-- What was committed before, newest first. -/
  past : List Snapshot := []
  /-- What is committed. -/
  present : Snapshot
  /-- What the fields hold. -/
  draft : Snapshot
  /-- What was taken back, newest first. -/
  future : List Snapshot := []
  deriving DecidableEq

namespace Timeline

/-- A field gets a value. -/
def assign (p : Snapshot) (field : String) (v : Value) : Snapshot :=
  p.map fun e => if e.1 = field then (e.1, v) else e

/-- What a command does to the timeline of a record type. -/
def step (s : Schema) (t : Timeline) : Record.Command → Timeline
  | .set field v =>
    match s.field? field with
    | none => t
    | some f =>
      if v.fits f.type f.notNull = true ∧ t.draft.lookup field ≠ some v then
        { t with draft := assign t.draft field v, future := [] }
      else t
  | .discard field =>
    match t.present.lookup field with
    | none => t
    | some v => { t with draft := assign t.draft field v }
  | .discardAll => { t with draft := t.present }
  | .stageDelete => t
  | .commit =>
    if t.draft = t.present then t
    else { t with past := t.present :: t.past, present := t.draft }
  | .replay .undo =>
    match t.past with
    | [] => t
    | p :: past => { past, present := p, draft := p, future := t.present :: t.future }
  | .replay .redo =>
    match t.future with
    | [] => t
    | p :: future => { past := t.present :: t.past, present := p, draft := p, future }

/-- The values of a change set in place of those of a snapshot. -/
def restored (c : ChangeSet) (p : Snapshot) : Snapshot :=
  p.map fun e => (e.1, (c.get? e.1).getD e.2)

/-- The snapshots that change sets lead to, one after another. -/
def rewind : Snapshot → List ChangeSet → List Snapshot
  | _, [] => []
  | p, c :: cs => restored c p :: rewind (restored c p) cs

theorem length_rewind (p : Snapshot) (cs : List ChangeSet) :
    (rewind p cs).length = cs.length := by
  induction cs generalizing p with
  | nil => rfl
  | cons c cs ih => rw [rewind, List.length_cons, List.length_cons, ih]

end Timeline

namespace Record

open Timeline

variable {x : Record} {l : Link} {tr : Track} {t u : Slot} {field : String} {v : Value}

/-- The values that a record takes for stored. -/
def committed (x : Record) : Snapshot := x.slots.map fun t => (t.name, t.baseline)

/-- What a record remembers, as full copies. -/
def timeline (x : Record) : Timeline where
  past := rewind x.committed x.undo
  present := x.committed
  draft := x.values
  future := rewind x.committed x.redo

/-- A record that is stored, and has nothing to redo while it has an edit. -/
structure Tracked (x : Record) : Prop where
  isNew : x.isNew = false
  deletePending : x.deletePending = false
  edited : x.Unedited ∨ x.redo = []

/-- The commands that a timeline follows: no deletion, and no replay of a record
with an edit; writes succeed. -/
def Command.Tracks (x : Record) (reply : Except StoreError Reply) : Command → Prop
  | .stageDelete => False
  | .commit => ∃ a, reply = .ok a
  | .replay _ => x.Unedited ∧ ∃ a, reply = .ok a
  | _ => True

/-! ## Slots by name -/

theorem lookup_slots (f : Slot → Value) (ts : List Slot) (field : String) :
    (ts.map fun t => (t.name, f t)).lookup field = (ts.find? (·.name == field)).map f := by
  induction ts with
  | nil => rfl
  | cons t ts ih =>
    rw [List.map_cons, List.lookup_cons, List.find?_cons, BEq.comm]
    cases t.name == field with
    | true => rfl
    | false => exact ih

theorem field?_slots (hx : x.Shaped) (field : String) :
    x.schema.field? field = (x.slot? field).map (·.field) := by
  rw [Schema.field?, ← hx.fields, List.find?_map]
  rfl

theorem assign_slots (f : Slot → Value) (hu : u.name = t.name) (hv : f u = v) :
    (x.setSlot u).slots.map (fun t => (t.name, f t)) =
      assign (x.slots.map fun t => (t.name, f t)) t.name v := by
  rw [setSlot, assign, List.map_map, List.map_map]
  refine List.map_congr_left fun w hw => ?_
  by_cases hn : w.name = t.name
  · simp [hn, hu, hv]
  · simp [hn, hu]

/-- A slot whose baseline stays leaves the committed values. -/
theorem committed_setSlot (hx : x.Shaped) (ht : t ∈ x.slots) (hu : u.name = t.name)
    (hb : u.baseline = t.baseline) : (x.setSlot u).committed = x.committed := by
  rw [committed, committed, setSlot, List.map_map]
  refine List.map_congr_left fun w hw => ?_
  by_cases hn : w.name = u.name
  · have hwt := eq_of_name (names_nodup hx) hw ht (hn.trans hu)
    subst hwt
    simp [hu, hb]
  · simp [hn]

theorem assign_self {p : Snapshot} (hn : (p.map (·.1)).Nodup) (h : p.lookup field = some v) :
    assign p field v = p := by
  refine (List.map_congr_left fun e he => ?_).trans (List.map_id _)
  by_cases hname : e.1 = field
  · have hlook := lookup_of_mem hn (show (e.1, e.2) ∈ p from he)
    rw [hname, h] at hlook
    rw [if_pos hname, Option.some.inj hlook]
    rfl
  · rw [if_neg hname]
    rfl

theorem names_values (x : Record) : x.values.map (·.1) = x.slots.map (·.name) := by
  rw [values, List.map_map]
  rfl

theorem slotOf_eq_ok (h : x.slotOf field = .ok t) : x.slot? field = some t := by
  unfold slotOf at h
  split at h
  · next hs => cases h; exact hs
  · cases h

theorem slotOf_eq_error {e : StoreError} (h : x.slotOf field = .error e) :
    x.slot? field = none := by
  unfold slotOf at h
  split at h
  · cases h
  · next hs => exact hs

/-! ## One command at a time -/

theorem timeline_set (hx : x.Intact) (field : String) (v : Value) :
    (x.set field v).2.record.timeline = x.timeline.step x.schema (.set field v) := by
  have hdraft : x.timeline.draft.lookup field = (x.slot? field).map (·.current) :=
    lookup_slots _ x.slots field
  rw [Timeline.step, hdraft, field?_slots hx.toShaped]
  unfold Record.set
  cases hs : x.slotOf field with
  | error e =>
    rw [slotOf_eq_error hs]
    rfl
  | ok t =>
    obtain ⟨ht, hname⟩ := mem_of_slotOf hs
    subst hname
    rw [slotOf_eq_ok hs]
    simp only [Option.map_some]
    by_cases hfits : v.fits t.field.type t.field.notNull = true
    · by_cases hsame : t.current = v
      · rw [if_neg (by simp [hfits]), if_pos hsame, if_neg (by simp [hsame])]
        rfl
      · rw [if_neg (by simp [hfits]), if_neg hsame, if_pos ⟨hfits, by simpa using hsame⟩]
        have hcommitted : (x.setSlot (t.assign v)).committed = x.committed :=
          committed_setSlot hx.toShaped ht rfl rfl
        have hvalues : (x.setSlot (t.assign v)).values = assign x.values t.name v :=
          assign_slots (·.current) rfl rfl
        show Timeline.mk (rewind (x.setSlot (t.assign v)).committed x.undo)
          (x.setSlot (t.assign v)).committed (x.setSlot (t.assign v)).values [] = _
        rw [hcommitted, hvalues]
        rfl
    · rw [if_pos (by simp [hfits]), if_neg fun h => hfits h.1]
      rfl

theorem timeline_discard (hx : x.Intact) (field : String) :
    (x.discard field).2.record.timeline = x.timeline.step x.schema (.discard field) := by
  have hpresent : x.timeline.present.lookup field = (x.slot? field).map (·.baseline) :=
    lookup_slots _ x.slots field
  rw [Timeline.step, hpresent]
  unfold Record.discard
  cases hs : x.slotOf field with
  | error e =>
    rw [slotOf_eq_error hs]
    rfl
  | ok t =>
    obtain ⟨ht, hname⟩ := mem_of_slotOf hs
    subst hname
    rw [slotOf_eq_ok hs]
    simp only [Option.map_some]
    cases hd : t.dirty with
    | true =>
      have hcommitted : (x.setSlot t.revert).committed = x.committed :=
        committed_setSlot hx.toShaped ht rfl rfl
      have hvalues : (x.setSlot t.revert).values = assign x.values t.name t.baseline :=
        assign_slots (·.current) rfl rfl
      show Timeline.mk (rewind (x.setSlot t.revert).committed x.undo)
        (x.setSlot t.revert).committed (x.setSlot t.revert).values
        (rewind (x.setSlot t.revert).committed x.redo) = _
      rw [hcommitted, hvalues]
      rfl
    | false =>
      have hlook : x.values.lookup t.name = some t.baseline := by
        rw [values, lookup_slots, ← slot?, slotOf_eq_ok hs, Option.map_some,
          (hx.slots t ht).current_eq hd]
      have hself : assign x.values t.name t.baseline = x.values :=
        assign_self ((names_values x).symm ▸ names_nodup hx.toShaped) hlook
      show x.timeline = { x.timeline with draft := assign x.values t.name t.baseline }
      rw [hself]
      rfl

/-- Slots without an edit hold what is committed. -/
theorem values_of_unedited (hx : x.Shaped) (h : x.Unedited) : x.values = x.committed :=
  List.map_congr_left fun t ht => by rw [(hx.slots t ht).current_eq (h t ht)]

theorem unedited_of_values (hx : x.Shaped) (h : x.values = x.committed) : x.Unedited := by
  intro t ht
  have hpoint := List.map_inj_left.mp h t ht
  rw [(hx.slots t ht).dirty, (Prod.mk.inj hpoint).2]
  exact bne_self_eq_false _

theorem timeline_discardAll (hx : x.Intact) :
    x.discardAll.record.timeline = x.timeline.step x.schema .discardAll := by
  have hslots : x.discardAll.record.slots =
      x.slots.map fun t => if t.dirty then t.revert else t := rfl
  have hcommitted : x.discardAll.record.committed = x.committed := by
    rw [committed, hslots, List.map_map]
    refine List.map_congr_left fun t _ => ?_
    dsimp only [Function.comp_apply]
    split <;> rfl
  have hvalues : x.discardAll.record.values = x.committed := by
    rw [values, hslots, List.map_map]
    refine List.map_congr_left fun t ht => ?_
    dsimp only [Function.comp_apply]
    split
    · rfl
    · next hd => rw [(hx.slots t ht).current_eq (by simpa using hd)]
  show Timeline.mk (rewind x.discardAll.record.committed x.undo) x.discardAll.record.committed
    x.discardAll.record.values (rewind x.discardAll.record.committed x.redo) = _
  rw [hcommitted, hvalues]
  rfl

/-- What a commit remembers leads back to what was committed before. -/
theorem restored_pending (hx : x.Shaped) : restored x.pending x.values = x.committed := by
  rw [restored, values, committed, List.map_map]
  refine List.map_congr_left fun t ht => ?_
  dsimp only [Function.comp_apply]
  rw [get?_pending hx ht]
  split
  · rfl
  · next hd => rw [Option.getD_none, (hx.slots t ht).current_eq (by simpa using hd)]

theorem timeline_commit (hx : x.Intact) (ht : x.Tracked) {o : CommitOutcome}
    (h : (x.commitFields l).1.1 = .ok o) :
    (x.commitFields l).1.2.record.timeline = x.timeline.step x.schema .commit := by
  rw [Timeline.step]
  obtain ⟨hclean, -, hsame, -⟩ | ⟨hedit, -, hsaved, -⟩ := commitFields_of_success hx h
  · have hdraft : x.timeline.draft = x.timeline.present := values_of_unedited hx.toShaped hclean
    rw [hsame, if_pos hdraft]
  · have hdirty : ¬x.Unedited := fun h => hedit (unedited_iff.mp h)
    have hredo := ht.edited.resolve_left hdirty
    have hcommitted : x.saved.committed = x.values := by
      show (x.slots.map Slot.settle).map (fun t => (t.name, t.baseline)) = x.values
      rw [List.map_map]
      rfl
    have hvalues : x.saved.values = x.values := by
      show (x.slots.map Slot.settle).map (fun t => (t.name, t.current)) = x.values
      rw [List.map_map]
      rfl
    have hdraft : x.timeline.draft ≠ x.timeline.present :=
      fun h => hdirty (unedited_of_values hx.toShaped h)
    rw [hsaved, if_neg hdraft]
    show Timeline.mk (rewind x.saved.committed (x.pending :: x.undo)) x.saved.committed
      x.saved.values (rewind x.saved.committed x.redo) = Timeline.mk _ _ _ (rewind _ x.redo)
    rw [hcommitted, hvalues, rewind, restored_pending hx.toShaped, hredo]
    rfl

/-- Slots that get the values of a change set hold and commit them. -/
theorem restored_slots (hx : x.Shaped) (hd : x.Unedited) (c : ChangeSet) :
    (x.slots.map (Slot.restored c)).map (fun t => (t.name, t.baseline)) =
        restored c x.committed ∧
      (x.slots.map (Slot.restored c)).map (fun t => (t.name, t.current)) =
        restored c x.committed := by
  rw [restored, committed, List.map_map, List.map_map, List.map_map]
  refine ⟨List.map_congr_left fun t _ => ?_, List.map_congr_left fun t ht => ?_⟩
  · dsimp only [Function.comp_apply]
    rw [Slot.name_restored, Slot.baseline_restored]
  · dsimp only [Function.comp_apply]
    rw [Slot.name_restored, Slot.restored]
    split
    · next hn => rw [hn, Option.getD_none, (hx.slots t ht).current_eq (hd t ht)]
    · next hn => rw [hn, Option.getD_some]; rfl

/-- The values that were exchanged lead back. -/
theorem restored_exchange (hx : x.Shaped) (hd : x.Unedited) (c : ChangeSet) :
    restored (c.exchange x.slots) (restored c x.committed) = x.committed := by
  rw [restored, restored, committed, List.map_map, List.map_map]
  refine List.map_congr_left fun t ht => ?_
  dsimp only [Function.comp_apply]
  rw [ChangeSet.get?_exchange (names_nodup hx) ht]
  cases c.get? t.name with
  | none => rfl
  | some v => rw [Option.map_some, Option.getD_some, (hx.slots t ht).current_eq (hd t ht)]

theorem timeline_turned (hx : x.Intact) (hd : x.Unedited) (tr : Track) :
    (x.turned tr).timeline = x.timeline.step x.schema (.replay tr) := by
  cases hs : x.stack tr with
  | nil =>
    rw [turned, hs]
    cases tr with
    | undo =>
      have hundo : x.undo = [] := hs
      simp only [Timeline.step, timeline, hundo, rewind]
    | redo =>
      have hredo : x.redo = [] := hs
      simp only [Timeline.step, timeline, hredo, rewind]
  | cons c older =>
    obtain ⟨hbase, hcur⟩ := restored_slots hx.toShaped hd c
    have hback := restored_exchange hx.toShaped hd c
    cases tr with
    | undo =>
      have hundo : x.undo = c :: older := hs
      simp only [Timeline.step, timeline, turned, stack, setStack, refresh, Track.opposite, hundo,
        rewind, committed, values, hbase, hcur] at hback ⊢
      rw [hback]
    | redo =>
      have hredo : x.redo = c :: older := hs
      simp only [Timeline.step, timeline, turned, stack, setStack, refresh, Track.opposite, hredo,
        rewind, committed, values, hbase, hcur] at hback ⊢
      rw [hback]

/-! ## All commands -/

theorem Tracked.set (h : x.Tracked) (field : String) (v : Value) :
    (x.set field v).2.record.Tracked := by
  obtain ⟨hsame, -⟩ | ⟨t, -, -, -, -, hset⟩ := x.set_cases field v
  · rw [hsame]
    exact h
  · rw [hset]
    exact ⟨h.isNew, h.deletePending, .inr rfl⟩

theorem Tracked.discard (h : x.Tracked) (field : String) :
    (x.discard field).2.record.Tracked := by
  obtain hsame | ⟨t, -, -, hdiscard⟩ := x.discard_cases field
  · rw [hsame]
    exact h
  · rw [hdiscard]
    refine ⟨h.isNew, h.deletePending, h.edited.imp_left fun hclean u hu => ?_⟩
    obtain ⟨w, hw, rfl⟩ := List.mem_map.mp hu
    split
    · rfl
    · exact hclean w hw

theorem Tracked.discardAll (h : x.Tracked) : x.discardAll.record.Tracked := by
  refine ⟨h.isNew, h.deletePending, .inl fun u hu => ?_⟩
  obtain ⟨w, -, rfl⟩ := List.mem_map.mp hu
  split
  · rfl
  · next hd => simpa using hd

theorem Tracked.commit (h : x.Tracked) (hx : x.Intact) {o : CommitOutcome}
    (hok : (x.commitFields l).1.1 = .ok o) : (x.commitFields l).1.2.record.Tracked := by
  obtain ⟨-, -, hsame, -⟩ | ⟨-, -, hsaved, -⟩ := commitFields_of_success hx hok
  · rw [hsame]
    exact h
  · rw [hsaved]
    exact ⟨h.isNew, h.deletePending, .inl (unedited_saved x)⟩

theorem Tracked.turned (h : x.Tracked) (hd : x.Unedited) (tr : Track) :
    (x.turned tr).Tracked := by
  obtain ⟨hnew, hpending⟩ := marks_turned tr x
  exact ⟨hnew.trans h.isNew, hpending.trans h.deletePending, .inl (unedited_turned hd tr)⟩

/-- A command does to a record what it does to its timeline. -/
theorem timeline_run (hx : x.Intact) (ht : x.Tracked) {c : Command}
    (hc : c.Tracks x (x.run l c).1.1) :
    (x.run l c).1.2.record.timeline = x.timeline.step x.schema c ∧
      (x.run l c).1.2.record.Tracked := by
  cases c with
  | set field v => exact ⟨timeline_set hx field v, ht.set field v⟩
  | discard field => exact ⟨timeline_discard hx field, ht.discard field⟩
  | discardAll => exact ⟨timeline_discardAll hx, ht.discardAll⟩
  | stageDelete => exact hc.elim
  | commit =>
    obtain ⟨a, ha⟩ := hc
    rw [run_commit_of_stored ht.isNew ht.deletePending] at ha ⊢
    obtain ⟨o, ho, -⟩ := map_eq_ok.mp ha
    exact ⟨timeline_commit hx ht ho, ht.commit hx ho⟩
  | replay tr =>
    obtain ⟨hd, a, ha⟩ := hc
    obtain ⟨b, hb, -⟩ := map_eq_ok.mp (show Reply.flag <$> (x.replay tr l).1.1 = .ok a from ha)
    obtain ⟨-, hturned, -⟩ := replay_of_success hx.toShaped hb
    show (x.replay tr l).1.2.record.timeline = _ ∧ (x.replay tr l).1.2.record.Tracked
    rw [hturned]
    exact ⟨timeline_turned hx hd tr, ht.turned hd tr⟩

/-- As many snapshots as change sets. -/
theorem length_timeline (x : Record) : x.timeline.past.length = x.depth .undo ∧
    x.timeline.future.length = x.depth .redo :=
  ⟨length_rewind _ _, length_rewind _ _⟩

end Record

end LiveRecords
