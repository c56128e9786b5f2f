import LiveRecords.Proofs.Updating

/-!
# There and back

A replay and then the replay the other way leave what a record holds as it was,
and both of its stacks, whatever edits were pending and whichever writes failed.
Values are exchanged whether or not they can be written, and the change set that
comes back is the one that was taken. What the failures decide is only which
fields count as stored; where the second replay can write them all, those that
the change set names do.
-/

namespace LiveRecords

namespace ChangeSet

variable {c : ChangeSet} {name : String}

theorem get?_eq_none_iff : c.get? name = none ↔ name ∉ c.fields := by
  rw [get?, List.lookup_eq_none_iff, fields, List.mem_map]
  constructor
  · rintro h ⟨e, he, rfl⟩
    simpa using h e he
  · intro h e he
    simpa using fun heq : name = e.1 => h ⟨e, he, heq.symm⟩

/-- What is recorded under a name is a value of a field that is named. -/
theorem isSome_get?_iff : (c.get? name).isSome = true ↔ name ∈ c.fields := by
  rw [← Decidable.not_iff_not, Bool.not_eq_true, Option.isSome_eq_false_iff,
    Option.isNone_iff_eq_none]
  exact get?_eq_none_iff

/-- Entries stand in the order of their names. -/
def Ordered (c : ChangeSet) : Prop := c.entries.Pairwise fun a b => a.1 < b.1

theorem ordered_empty : Ordered {} := .nil

theorem Ordered.record (h : c.Ordered) (field : String) (v : Value) :
    (c.record field v).Ordered :=
  ordered_insert h

end ChangeSet

namespace Record

open Timeline (restored)

variable {x : Record} {s : Schema} {id : RecordId} {c : ChangeSet} {ts : List Slot} {tr : Track}
  {l l' : Link}

/-! ## Change sets of a life -/

/-- All change sets of a record have a property. -/
def Stacked (P : ChangeSet → Prop) (x : Record) : Prop := ∀ t, ∀ c ∈ x.stack t, P c

theorem Stacked.congr {P : ChangeSet → Prop} (h : x.Stacked P) {y : Record}
    (hundo : y.undo = x.undo) (hredo : y.redo = x.redo) : y.Stacked P := by
  intro t c hc
  cases t with
  | undo =>
    rw [stack, hundo] at hc
    exact h .undo c hc
  | redo =>
    rw [stack, hredo] at hc
    exact h .redo c hc

section Kept

variable {P : ChangeSet → Prop} (hempty : P {})
  (hrecord : ∀ (c : ChangeSet) (field : String) (v : Value), P c → P (c.record field v))

include hrecord

theorem foldl_record_keeps {es : List (String × Value)} {c : ChangeSet} (h : P c) :
    P (es.foldl (fun c e => c.record e.1 e.2) c) := by
  induction es generalizing c with
  | nil => exact h
  | cons e es ih => exact ih (hrecord c e.1 e.2 h)

theorem exchange_keeps {c : ChangeSet} (h : P c) (ts : List Slot) : P (c.exchange ts) := by
  induction ts generalizing c with
  | nil => exact h
  | cons t ts ih =>
    rw [ChangeSet.exchange]
    split
    · exact ih (hrecord c t.name t.current h)
    · exact ih h

include hempty

theorem Stacked.commit (h : x.Stacked P) (l : Link) : (x.commit l).1.2.record.Stacked P := by
  unfold Record.commit
  split
  · unfold commitRow
    split
    · exact h
    · exact h.congr rfl rfl
  · unfold commitFields
    dsimp only
    split
    · exact h.congr rfl rfl
    · intro t c hc
      cases t with
      | undo =>
        rcases List.mem_cons.mp hc with rfl | hc
        · exact foldl_record_keeps hrecord hempty
        · exact h .undo c hc
      | redo => exact h .redo c hc

omit hempty in
theorem Stacked.replay (h : x.Stacked P) (tr : Track) (l : Link) :
    (x.replay tr l).1.2.record.Stacked P := by
  cases hs : x.stack tr with
  | nil =>
    rw [replay_nil hs]
    exact h
  | cons c older =>
    have hc : P c := h tr c (by rw [hs]; exact List.mem_cons_self)
    have holder : ∀ c' ∈ older, P c' := fun c' hc' =>
      h tr c' (by rw [hs]; exact List.mem_cons_of_mem _ hc')
    have hnewer : ∀ c' ∈ (replaySlots x.schema x.id x.slots c none l).1.changes ::
        x.stack tr.opposite, P c' := by
      intro c' hc'
      rcases List.mem_cons.mp hc' with rfl | hc'
      · rw [replaySlots_changes]
        exact exchange_keeps hrecord hc x.slots
      · exact h tr.opposite c' hc'
    intro t
    simp only [Record.replay, hs]
    cases tr <;> cases t
    · exact holder
    · exact hnewer
    · exact hnewer
    · exact holder

/-- What holds of a change set that says nothing and is kept by recording a
value holds of all change sets that a record ever has. -/
theorem Stacked.turn (h : x.Stacked P) (u : Turn) : (x.turn u).record.Stacked P := by
  cases u with
  | handed row =>
    show (x.takeRow row).record.Stacked P
    unfold takeRow setParent
    dsimp only
    split <;> exact h.congr rfl rfl
  | moved parent =>
    show (x.setParent parent).record.Stacked P
    unfold setParent
    split <;> exact h.congr rfl rfl
  | asked c l =>
    cases c with
    | set field v =>
      show (x.set field v).2.record.Stacked P
      obtain ⟨hkept, -⟩ | ⟨t, -, -, -, -, hset⟩ := x.set_cases field v
      · rw [hkept]
        exact h
      · rw [hset]
        intro t c hc
        cases t with
        | undo => exact h .undo c hc
        | redo => cases hc
    | discard field =>
      show (x.discard field).2.record.Stacked P
      obtain hkept | ⟨t, -, -, hdiscard⟩ := x.discard_cases field
      · rw [hkept]
        exact h
      · rw [hdiscard]
        exact h.congr rfl rfl
    | discardAll => exact h.congr rfl rfl
    | stageDelete =>
      show x.stageDelete.record.Stacked P
      unfold stageDelete
      split <;> exact h.congr rfl rfl
    | commit => exact h.commit hempty hrecord l
    | replay tr => exact h.replay hrecord tr l

end Kept

/-- The change sets of a record that has lived are in the order of names. -/
theorem Lived.ordered (h : x.Lived) : x.Stacked ChangeSet.Ordered := by
  obtain ⟨d, s, id, isNew, ts, -, rfl⟩ := h
  refine after_preserves (P := Stacked ChangeSet.Ordered) (fun x t hx => ?_) ?_ ts
  · exact hx.turn ChangeSet.ordered_empty (fun c field v hc => hc.record field v) t
  · intro t c hc
    cases t <;> cases hc

/-! ## Exchanges -/

/-- After an exchange a change set holds what was held. -/
theorem get?_exchange_values (hn : (ts.map (·.name)).Nodup) {e : String × Value}
    (he : e ∈ Slot.values ts) : (c.exchange ts).get? e.1 = (c.get? e.1).map fun _ => e.2 := by
  obtain ⟨t, ht, rfl⟩ := List.mem_map.mp he
  exact ChangeSet.get?_exchange hn ht

theorem names_of_restored {us : List Slot}
    (h : Slot.values us = restored c (Slot.values ts)) : us.map (·.name) = ts.map (·.name) := by
  have hnames := congrArg (List.map (·.1)) h
  simpa [Slot.values, restored, Function.comp_def] using hnames

/-- Values that are exchanged twice are as they were. -/
theorem restored_exchange_values (hn : (ts.map (·.name)).Nodup) :
    restored (c.exchange ts) (restored c (Slot.values ts)) = Slot.values ts := by
  rw [restored, restored, List.map_map]
  refine (List.map_congr_left fun e he => ?_).trans (List.map_id _)
  show (e.1, ((c.exchange ts).get? e.1).getD ((c.get? e.1).getD e.2)) = e
  rw [get?_exchange_values hn he]
  cases c.get? e.1 <;> rfl

/-- A change set that is exchanged twice is as it was. -/
theorem exchange_back (hc : c.Ordered) (hn : (ts.map (·.name)).Nodup) {us : List Slot}
    (h : Slot.values us = restored c (Slot.values ts)) : (c.exchange ts).exchange us = c := by
  have hnames := names_of_restored h
  have hkept : ∀ {c : ChangeSet} (ts : List Slot), c.Ordered → (c.exchange ts).Ordered :=
    fun ts hc => exchange_keeps (P := ChangeSet.Ordered) (fun _ f v hc => hc.record f v) hc ts
  have hordered : ((c.exchange ts).exchange us).Ordered := hkept us (hkept ts hc)
  refine congrArg ChangeSet.mk (ChangeSet.entries_ext hordered hc fun name => ?_)
  show ((c.exchange ts).exchange us).get? name = c.get? name
  by_cases hmem : name ∈ ts.map (·.name)
  · obtain ⟨t, ht, rfl⟩ := List.mem_map.mp hmem
    have hheld : (t.name, (c.get? t.name).getD t.current) ∈ Slot.values us := by
      rw [h]
      exact List.mem_map_of_mem (List.mem_map_of_mem (f := fun t : Slot => (t.name, t.current)) ht)
    rw [get?_exchange_values (hnames.symm ▸ hn) hheld, ChangeSet.get?_exchange hn ht]
    cases c.get? t.name <;> rfl
  · rw [ChangeSet.get?_exchange_of_not_mem (hnames.symm ▸ hmem),
      ChangeSet.get?_exchange_of_not_mem hmem]

/-- What a change set holds that has the values of some slots, for slots of the
same names. -/
theorem recorded_of_names {c' : ChangeSet} {us : List Slot}
    (hnames : us.map (·.name) = ts.map (·.name))
    (hc : ∀ t ∈ ts, c'.get? t.name = (c.get? t.name).map fun _ => t.current) :
    recorded c' us = (Slot.values ts).filter fun e => e.1 ∈ c.fields := by
  induction ts generalizing us with
  | nil =>
    rw [List.map_nil, List.map_eq_nil_iff] at hnames
    rw [hnames]
    rfl
  | cons t ts ih =>
    cases us with
    | nil => cases hnames
    | cons u us =>
      rw [List.map_cons, List.map_cons, List.cons_eq_cons] at hnames
      have hrest := ih hnames.2 fun t ht => hc t (by simp [ht])
      have hvalues : Slot.values (t :: ts) = (t.name, t.current) :: Slot.values ts := rfl
      rw [recorded_cons, hnames.1, hc t (by simp), hrest, hvalues, List.filter_cons]
      by_cases hmem : t.name ∈ c.fields
      · obtain ⟨v, hv⟩ := Option.isSome_iff_exists.mp (ChangeSet.isSome_get?_iff.mpr hmem)
        rw [hv, if_pos (by simpa using hmem)]
        rfl
      · rw [ChangeSet.get?_eq_none_iff.mpr hmem, if_neg (by simpa using hmem)]
        rfl

/-! ## Replays -/

/-- A record after its newest change set on a track was replayed, whether or not
all values could be written. -/
structure Exchanged (x : Record) (tr : Track) (c : ChangeSet) (older : List ChangeSet)
    (y : Record) : Prop where
  remains : x.Remains y
  values : y.values = restored c x.values
  taken : y.stack tr = older
  given : y.stack tr.opposite = c.exchange x.slots :: x.stack tr.opposite
  others : ∀ t ∈ x.slots, t.name ∉ c.fields → t ∈ y.slots

theorem exchanged_replay (hn : (x.slots.map (·.name)).Nodup) {older : List ChangeSet}
    (hs : x.stack tr = c :: older) (l : Link) :
    x.Exchanged tr c older (x.replay tr l).1.2.record := by
  have hvalues := values_replaySlots (c := c) x.schema x.id hn none l
  have hchanges := replaySlots_changes x.schema x.id x.slots c none l
  have hothers : ∀ t ∈ x.slots, t.name ∉ c.fields →
      t ∈ (replaySlots x.schema x.id x.slots c none l).1.slots := fun t ht hc =>
    mem_replaySlots hn ht (ChangeSet.get?_eq_none_iff.mpr hc) none l
  have hremains := x.run_remains l (.replay tr)
  simp only [Record.run, Record.replay, hs] at hremains ⊢
  rw [hchanges] at hremains ⊢
  cases tr
  · exact ⟨hremains, hvalues, rfl, rfl, hothers⟩
  · exact ⟨hremains, hvalues, rfl, rfl, hothers⟩

theorem Exchanged.names {older : List ChangeSet} {y : Record} (h : x.Exchanged tr c older y) :
    y.slots.map (·.name) = x.slots.map (·.name) :=
  names_of_restored (c := c) h.values

/-- A replay that succeeds has written what the change set holds. -/
theorem replay_of_ok (hn : (x.slots.map (·.name)).Nodup) {older : List ChangeSet}
    (hs : x.stack tr = c :: older) {b : Bool} (h : (x.replay tr l).1.1 = .ok b) :
    (x.replay tr l).1.2.record.slots = x.slots.map (Slot.restored c) ∧
      Link.Writes x.schema x.id (recorded c x.slots) l (x.replay tr l).2 := by
  simp only [Record.replay, hs] at h ⊢
  split at h
  · next hfail =>
    have hslots := (replaySlots_of_success hn hfail).1
    have hwrites := replaySlots_writes hn hfail
    cases tr <;> exact ⟨hslots, hwrites⟩
  · cases h

/-- What a replay of a change set and the replay the other way leave together. -/
structure Retraced (x : Record) (c : ChangeSet) (z : Record) : Prop where
  values : z.values = x.values
  tracks : ∀ t, z.stack t = x.stack t
  /-- Fields that are not named keep both values and the mark. -/
  others : ∀ t ∈ x.slots, t.name ∉ c.fields → t ∈ z.slots

theorem Exchanged.back {older : List ChangeSet} {y z : Record} (hc : c.Ordered)
    (hn : (x.slots.map (·.name)).Nodup) (hs : x.stack tr = c :: older)
    (hy : x.Exchanged tr c older y)
    (hz : y.Exchanged tr.opposite (c.exchange x.slots) (x.stack tr.opposite) z) :
    x.Retraced c z where
  values := by
    rw [hz.values, hy.values]
    exact restored_exchange_values hn
  tracks t := by
    have hback : (c.exchange x.slots).exchange y.slots = c := exchange_back hc hn hy.values
    have hgiven := hz.given
    rw [hback] at hgiven
    have htaken := hz.taken
    have holder := hy.taken
    cases tr <;> cases t
    · exact (hgiven.trans (congrArg _ holder)).trans hs.symm
    · exact htaken
    · exact htaken
    · exact (hgiven.trans (congrArg _ holder)).trans hs.symm
  others t ht hmem := by
    refine hz.others t (hy.others t ht hmem) fun hback => ?_
    have hnone : (c.exchange x.slots).get? t.name = none := by
      rw [ChangeSet.get?_exchange hn ht, ChangeSet.get?_eq_none_iff.mpr hmem, Option.map_none]
    exact ChangeSet.get?_eq_none_iff.mp hnone hback

/-- A replay is taken back by the replay the other way, whatever edits are pending
and whichever statements of the two are refused: what the fields hold and both
stacks are as before. Where the second replay succeeds, what the fields held that
the change set names is stored, edits included. -/
theorem replay_and_back (hx : x.Lived) {older : List ChangeSet} (hs : x.stack tr = c :: older)
    (l l' : Link) :
    x.Retraced c ((x.replay tr l).1.2.record.replay tr.opposite l').1.2.record ∧
      (((x.replay tr l).1.2.record.replay tr.opposite l').1.1 = .ok true →
        (∀ t ∈ ((x.replay tr l).1.2.record.replay tr.opposite l').1.2.record.slots,
          t.name ∈ c.fields → t.dirty = false ∧ t.baseline = t.current) ∧
        l'.database.updates x.schema x.id (x.values.filter fun e => e.1 ∈ c.fields) =
          .ok ((x.replay tr l).1.2.record.replay tr.opposite l').2.database) := by
  have hn := hx.coherent.toFramed.names_nodup
  have hc : c.Ordered := hx.ordered tr c (by rw [hs]; exact List.mem_cons_self)
  have hy := exchanged_replay hn hs l
  have hnames := hy.names
  have hn' : ((x.replay tr l).1.2.record.slots.map (·.name)).Nodup := hnames.symm ▸ hn
  have hz := exchanged_replay hn' hy.given l'
  refine ⟨hy.back hc hn hs hz, fun hok => ?_⟩
  obtain ⟨hslots, hwrites⟩ := replay_of_ok hn' hy.given hok
  have hheld : recorded (c.exchange x.slots) (x.replay tr l).1.2.record.slots =
      x.values.filter fun e => e.1 ∈ c.fields :=
    recorded_of_names hnames fun t ht => ChangeSet.get?_exchange hn ht
  constructor
  · intro t ht hmem
    rw [hslots] at ht
    obtain ⟨u, hu, rfl⟩ := List.mem_map.mp ht
    rw [Slot.name_restored] at hmem
    have hu' : u.name ∈ x.slots.map (·.name) := hnames ▸ List.mem_map_of_mem hu
    obtain ⟨t, ht, hname⟩ := List.mem_map.mp hu'
    obtain ⟨v, hv⟩ := Option.isSome_iff_exists.mp (ChangeSet.isSome_get?_iff.mpr hmem)
    have hback : (c.exchange x.slots).get? u.name = some t.current := by
      rw [← hname, ChangeSet.get?_exchange hn ht, hname, hv, Option.map_some]
    rw [Slot.restored, hback]
    exact ⟨rfl, rfl⟩
  · have hdb := hwrites.database
    rw [hheld, hy.remains.1, hy.remains.2] at hdb
    exact hdb

/-- Both fields were committed, and then the title was edited again. -/
def pendingTitle : List Turn :=
  [.asked (.set "TITLE" (.text "milk")) (breaking 9),
    .asked (.set "RANK" (.integer 1)) (breaking 9),
    .asked .commit (breaking 9), .asked (.set "TITLE" (.text "bread")) (breaking 9)]

/-- No statement of the undo passes, all of the redo do: the edit is stored. -/
theorem replay_and_back_pending :
    ((Record.initial (.ofOrdinal 1) ranked false).after pendingTitle).dirtyFields = ["TITLE"] ∧
      (((Record.initial (.ofOrdinal 1) ranked false).after pendingTitle).replay .undo
        (breaking 1)).1.1 = .error (.sql .reference) ∧
      (((Record.initial (.ofOrdinal 1) ranked false).after pendingTitle).replay .undo
        (breaking 1)).1.2.record.values = [("TITLE", .text ""), ("RANK", .null)] ∧
      ((Record.initial (.ofOrdinal 1) ranked false).after pendingTitle).Retraced
        ⟨[("RANK", .null), ("TITLE", .text "")]⟩
        ((((Record.initial (.ofOrdinal 1) ranked false).after pendingTitle).replay .undo
          (breaking 1)).1.2.record.replay .redo (breaking 9)).1.2.record ∧
      ∀ t ∈ ((((Record.initial (.ofOrdinal 1) ranked false).after pendingTitle).replay .undo
          (breaking 1)).1.2.record.replay .redo (breaking 9)).1.2.record.slots,
        t.name ∈ ["RANK", "TITLE"] → t.dirty = false ∧ t.baseline = t.current := by
  have hlived : ((Record.initial (.ofOrdinal 1) ranked false).after pendingTitle).Lived :=
    ⟨⟨ranked.table, ranked.fields, ranked.parentColumn⟩, ranked, _, _, _, by rfl, rfl⟩
  have hs : ((Record.initial (.ofOrdinal 1) ranked false).after pendingTitle).stack .undo =
      [⟨[("RANK", .null), ("TITLE", .text "")]⟩] := by rfl
  have hback := replay_and_back hlived hs (breaking 1) (breaking 9)
  exact ⟨by rfl, by rfl, by rfl, hback.1, (hback.2 (by rfl)).1⟩

end Record

end LiveRecords
