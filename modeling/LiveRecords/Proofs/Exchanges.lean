import LiveRecords.Proofs.Integrity

/-!
# Commits and replays that succeed

A replay in which every write succeeds exchanges the values of a change set
with those of the slots, and so undoes itself when it is done the other way. A
commit in which every write succeeds leaves no edit, and its change set holds
what the edited slots took for stored.
-/

namespace LiveRecords

/-! ## Change sets -/

namespace ChangeSet

variable {c c' : ChangeSet} {name : String} {ts : List Slot}

theorem lookup_eq_none_of_lt {α : Type} {es : List (String × α)}
    (h : ∀ e ∈ es, name < e.1) : es.lookup name = none := by
  refine List.lookup_eq_none_iff.mpr fun e he => ?_
  have hlt := h e he
  simpa using fun heq : name = e.1 => String.lt_irrefl e.1 (heq ▸ hlt)

/-- The first name of ordered entries is the least of those that are found. -/
theorem first_not_lt {α : Type} {n n' : String} {v v' : α} {rest rest' : List (String × α)}
    (h' : ((n', v') :: rest').Pairwise fun a b => a.1 < b.1)
    (hl : ((n, v) :: rest).lookup n = ((n', v') :: rest').lookup n) : ¬n < n' := by
  intro hlt
  have hnone : ((n', v') :: rest').lookup n = none := by
    refine lookup_eq_none_of_lt fun x hx => ?_
    rcases List.mem_cons.mp hx with rfl | hx
    · exact hlt
    · exact String.lt_trans hlt ((List.pairwise_cons.mp h').1 x hx)
  rw [hnone, List.lookup_cons, beq_self_eq_true] at hl
  cases hl

/-- Entries in the order of their names are told by their look-ups. -/
theorem entries_ext {α : Type} {es es' : List (String × α)}
    (h : es.Pairwise fun a b => a.1 < b.1) (h' : es'.Pairwise fun a b => a.1 < b.1)
    (hl : ∀ name, es.lookup name = es'.lookup name) : es = es' := by
  induction es generalizing es' with
  | nil =>
    cases es' with
    | nil => rfl
    | cons e rest' =>
      have hhead := hl e.1
      rw [List.lookup_nil, List.lookup_cons, beq_self_eq_true] at hhead
      cases hhead
  | cons e rest ih =>
    obtain ⟨n, v⟩ := e
    cases es' with
    | nil =>
      have hhead := hl n
      rw [List.lookup_nil, List.lookup_cons, beq_self_eq_true] at hhead
      cases hhead
    | cons e' rest' =>
      obtain ⟨n', v'⟩ := e'
      have hn : n = n' := Std.le_antisymm (String.not_lt.mp (first_not_lt h (hl n').symm))
        (String.not_lt.mp (first_not_lt h' (hl n)))
      subst hn
      have hhead := hl n
      rw [List.lookup_cons, List.lookup_cons, beq_self_eq_true] at hhead
      cases hhead
      obtain ⟨hfirst, hrest⟩ := List.pairwise_cons.mp h
      obtain ⟨hfirst', hrest'⟩ := List.pairwise_cons.mp h'
      rw [ih hrest hrest' fun name => ?_]
      by_cases hname : name = n
      · subst hname
        rw [lookup_eq_none_of_lt hfirst, lookup_eq_none_of_lt hfirst']
      · have hcons := hl name
        have hb : (name == n) = false := by simpa using hname
        rwa [List.lookup_cons, List.lookup_cons, hb] at hcons

/-- Change sets in the order of names are told by what they hold. -/
theorem ext_of_get? {s s' : Schema} (h : c.Suits s) (h' : c'.Suits s')
    (hg : ∀ name, c.get? name = c'.get? name) : c = c' := by
  obtain ⟨es⟩ := c
  obtain ⟨es'⟩ := c'
  exact congrArg ChangeSet.mk (entries_ext h.ordered h'.ordered hg)

/-- The recorded values are exchanged with those of slots. -/
def exchange (c : ChangeSet) : List Slot → ChangeSet
  | [] => c
  | t :: ts =>
    exchange (if (c.get? t.name).isSome then c.record t.name t.current else c) ts

theorem get?_exchange_of_not_mem (h : name ∉ ts.map (·.name)) :
    (c.exchange ts).get? name = c.get? name := by
  induction ts generalizing c with
  | nil => rfl
  | cons t ts ih =>
    rw [List.map_cons, List.mem_cons, not_or] at h
    rw [exchange, ih h.2]
    split
    · exact get?_record_of_ne c h.1 _
    · rfl

/-- After an exchange a recorded field holds what its slot held. -/
theorem get?_exchange (hn : (ts.map (·.name)).Nodup) {t : Slot} (ht : t ∈ ts) :
    (c.exchange ts).get? t.name = (c.get? t.name).map fun _ => t.current := by
  induction ts generalizing c with
  | nil => cases ht
  | cons u us ih =>
    rw [List.map_cons, List.nodup_cons] at hn
    rw [exchange]
    rcases List.mem_cons.mp ht with rfl | ht
    · rw [get?_exchange_of_not_mem hn.1]
      cases hc : c.get? t.name with
      | none => rw [if_neg (by simp), hc, Option.map_none]
      | some v => rw [if_pos (by simp), get?_record_self, Option.map_some]
    · have hne : t.name ≠ u.name := fun he => hn.1 (he ▸ List.mem_map_of_mem ht)
      rw [ih hn.2 ht]
      split
      · rw [get?_record_of_ne c hne]
      · rfl

end ChangeSet

/-! ## Slots -/

namespace Slot

/-- A slot after a replay that wrote the value recorded for it, if there is one. -/
def restored (c : ChangeSet) (t : Slot) : Slot :=
  match c.get? t.name with
  | none => t
  | some v => .clean t.field v

variable {c c' : ChangeSet} {t : Slot}

@[simp] theorem field_restored (c : ChangeSet) (t : Slot) : (t.restored c).field = t.field := by
  unfold restored
  split <;> rfl

@[simp] theorem name_restored (c : ChangeSet) (t : Slot) : (t.restored c).name = t.name :=
  congrArg Field.name (field_restored c t)

theorem baseline_restored (c : ChangeSet) (t : Slot) :
    (t.restored c).baseline = (c.get? t.name).getD t.baseline := by
  unfold restored
  split
  · next h => rw [h, Option.getD_none]
  · next h => rw [h, Option.getD_some]; rfl

theorem restored_congr (h : c.get? t.name = c'.get? t.name) : t.restored c = t.restored c' := by
  unfold restored
  rw [h]

/-- A slot without an edit is told by its field and its baseline. -/
theorem Sound.eq_clean (h : t.Sound) (hd : t.dirty = false) : t = .clean t.field t.baseline := by
  have hcur := h.current_eq hd
  obtain ⟨f, v, b, d⟩ := t
  simp only at hcur hd
  subst hcur hd
  rfl

theorem dirty_restored (c : ChangeSet) (hd : t.dirty = false) : (t.restored c).dirty = false := by
  unfold restored
  split
  · exact hd
  · rfl

theorem Sound.settle_eq (h : t.Sound) (hd : t.dirty = false) : t.settle = t := by
  have hcur := h.current_eq hd
  obtain ⟨f, v, b, d⟩ := t
  simp only at hcur hd
  subst hcur hd
  rfl

end Slot

namespace Record

variable {x : Record} {s : Schema} {id : RecordId} {l : Link} {c : ChangeSet} {ts : List Slot}
  {tr : Track}

/-! ## Replaying -/

theorem failure_replaySlots_some (c : ChangeSet) (e : StoreError) (l : Link) :
    (replaySlots s id ts c (some e) l).1.failure = some e := by
  induction ts generalizing c l with
  | nil => rfl
  | cons t ts ih =>
    unfold replaySlots
    split
    · exact ih c l
    · exact ih _ l

/-- Where no write fails, every recorded value is exchanged. -/
theorem replaySlots_of_success (hn : (ts.map (·.name)).Nodup)
    (h : (replaySlots s id ts c none l).1.failure = none) :
    (replaySlots s id ts c none l).1.slots = ts.map (Slot.restored c) ∧
      (replaySlots s id ts c none l).1.changes = c.exchange ts := by
  induction ts generalizing c l with
  | nil => exact ⟨rfl, rfl⟩
  | cons t ts ih =>
    rw [List.map_cons, List.nodup_cons] at hn
    unfold replaySlots at h ⊢
    cases hget : c.get? t.name with
    | none =>
      have hswap : c.swap? t.name t.current = none := by rw [ChangeSet.swap?, hget]; rfl
      have hhead : t.restored c = t := by rw [Slot.restored, hget]
      simp only [hswap] at h ⊢
      obtain ⟨hslots, hchanges⟩ := ih hn.2 h
      rw [hslots, hchanges, List.map_cons, hhead, ChangeSet.exchange, hget]
      exact ⟨rfl, rfl⟩
    | some v =>
      have hswap : c.swap? t.name t.current = some (v, c.record t.name t.current) := by
        rw [ChangeSet.swap?, hget]
        rfl
      have hhead : t.restored c = .clean t.field v := by rw [Slot.restored, hget]
      simp only [hswap, writeThrough] at h ⊢
      cases hw : l.updateField s id t.name v with
      | mk result l₁ =>
        have hw' : l.updateField s id (Slot.name { t with current := v }) v = (result, l₁) := hw
        rw [hw'] at h ⊢
        cases result with
        | error e =>
          simp only [failure_replaySlots_some] at h
          cases h
        | ok u =>
          obtain ⟨hslots, hchanges⟩ := ih hn.2 h
          have hrest : ts.map (Slot.restored (c.record t.name t.current)) =
              ts.map (Slot.restored c) := by
            refine List.map_congr_left fun u hu => Slot.restored_congr ?_
            have hne : u.name ≠ t.name := fun he => hn.1 (he ▸ List.mem_map_of_mem hu)
            exact ChangeSet.get?_record_of_ne c hne _
          simp only [hslots, hchanges, List.map_cons, hhead, hrest, ChangeSet.exchange, hget]
          exact ⟨rfl, rfl⟩

/-- A record after a replay in which every write succeeds. -/
def turned (tr : Track) (x : Record) : Record :=
  match x.stack tr with
  | [] => x
  | c :: older =>
    ((({ x with slots := x.slots.map (Slot.restored c) }.setStack tr older).setStack tr.opposite
      (c.exchange x.slots :: x.stack tr.opposite)).refresh).1

theorem marks_turned (tr : Track) (x : Record) :
    (x.turned tr).isNew = x.isNew ∧ (x.turned tr).deletePending = x.deletePending := by
  unfold turned
  cases tr <;> (split <;> exact ⟨rfl, rfl⟩)

/-- A replay puts no edit into a record without one. -/
theorem unedited_turned (hd : x.Unedited) (tr : Track) : (x.turned tr).Unedited := by
  cases hs : x.stack tr with
  | nil =>
    rw [turned, hs]
    exact hd
  | cons c older =>
    intro t ht
    have hslots : (x.turned tr).slots = x.slots.map (Slot.restored c) := by
      rw [turned, hs]
      cases tr <;> rfl
    rw [hslots] at ht
    obtain ⟨u, hu, rfl⟩ := List.mem_map.mp ht
    exact Slot.dirty_restored c (hd u hu)

/-- A replay that succeeds says whether there was a change set, and turns the
record. -/
theorem replay_of_success (hx : x.Shaped) {b : Bool} (h : (x.replay tr l).1.1 = .ok b) :
    b = !(x.stack tr).isEmpty ∧ (x.replay tr l).1.2.record = x.turned tr ∧
      (x.replay tr l).1.2.notices =
        if (x.stack tr).isEmpty then [] else [.lost tr, .gained tr.opposite] := by
  cases hs : x.stack tr with
  | nil =>
    rw [replay_nil hs] at h ⊢
    cases h
    rw [turned, hs]
    exact ⟨rfl, rfl, rfl⟩
  | cons c older =>
    simp only [Record.replay, hs] at h ⊢
    cases hf : (replaySlots x.schema x.id x.slots c none l).1.failure with
    | some e =>
      rw [hf] at h
      cases h
    | none =>
      rw [hf] at h
      cases h
      obtain ⟨hslots, hchanges⟩ := replaySlots_of_success (names_nodup hx) hf
      simp only [turned, hs, hslots, hchanges]
      exact ⟨rfl, rfl, rfl⟩

/-! ## There and back -/

theorem suits_exchange (hx : x.Shaped) (hc : c.Suits x.schema) (hts : ∀ t ∈ ts, t ∈ x.slots) :
    (c.exchange ts).Suits x.schema := by
  induction ts generalizing c with
  | nil => exact hc
  | cons t ts ih =>
    have ht := hts t (by simp)
    refine ih ?_ fun u hu => hts u (by simp [hu])
    split
    · exact hc.record (fits_of_name hx ht (hx.slots t ht).current)
    · exact hc

/-- A slot that is put back twice is as it was. -/
theorem restored_restored {t : Slot} {c' : ChangeSet} (ht : t.Sound) (hd : t.dirty = false)
    (hc : c'.get? t.name = (c.get? t.name).map fun _ => t.current) :
    (t.restored c).restored c' = t := by
  cases hget : c.get? t.name with
  | none =>
    have hfirst : t.restored c = t := by rw [Slot.restored, hget]
    rw [hfirst, Slot.restored, hc, hget, Option.map_none]
  | some v =>
    have hfirst : t.restored c = .clean t.field v := by rw [Slot.restored, hget]
    have hname : (Slot.clean t.field v).name = t.name := rfl
    rw [hfirst, Slot.restored, hname, hc, hget, Option.map_some, ht.current_eq hd]
    exact (ht.eq_clean hd).symm

/-- Slots that get the values of a change set are slots of the record still. -/
theorem Shaped.restored (hx : x.Shaped) (hc : c.Suits x.schema) :
    Shaped { x with slots := x.slots.map (Slot.restored c) } := by
  refine hx.of_slots ?_ fun t ht => ?_
  · rw [List.map_map]
    exact List.map_congr_left fun t _ => Slot.field_restored c t
  · obtain ⟨u, hu, rfl⟩ := List.mem_map.mp ht
    unfold Slot.restored
    split
    · exact hx.slots u hu
    · next v hv => exact .clean (hc.fits _ (field_mem hx hu) v hv)

/-- A change set that is exchanged twice is as it was. -/
theorem exchange_exchange (hx : x.Shaped) (hc : c.Suits x.schema) :
    (c.exchange x.slots).exchange (x.slots.map (Slot.restored c)) = c := by
  have hslots : (x.slots.map (Slot.restored c)).map (·.name) = x.slots.map (·.name) := by
    rw [List.map_map]
    exact List.map_congr_left fun t _ => Slot.name_restored c t
  have hn := names_nodup hx
  have hmid : (c.exchange x.slots).Suits x.schema := suits_exchange hx hc fun _ ht => ht
  have hsuit : ((c.exchange x.slots).exchange (x.slots.map (Slot.restored c))).Suits x.schema :=
    suits_exchange (x := { x with slots := x.slots.map (Slot.restored c) }) (hx.restored hc) hmid
      fun _ ht => ht
  refine ChangeSet.ext_of_get? hsuit hc fun name => ?_
  by_cases hmem : name ∈ x.slots.map (·.name)
  · obtain ⟨t, ht, rfl⟩ := List.mem_map.mp hmem
    have hback := ChangeSet.get?_exchange (c := c.exchange x.slots) (hslots.symm ▸ hn)
      (List.mem_map_of_mem ht)
    rw [Slot.name_restored, ChangeSet.get?_exchange hn ht] at hback
    rw [hback]
    cases hget : c.get? t.name with
    | none => rfl
    | some v =>
      have hhead : t.restored c = .clean t.field v := by rw [Slot.restored, hget]
      rw [hhead]
      rfl
  · rw [ChangeSet.get?_exchange_of_not_mem (hslots.symm ▸ hmem),
      ChangeSet.get?_exchange_of_not_mem hmem]

/-- Without edits, a replay is undone by the replay the other way. -/
theorem turned_turned (hx : x.Intact) (hd : x.Unedited) (hs : x.stack tr ≠ []) :
    (x.turned tr).turned tr.opposite = x := by
  obtain ⟨c, older, hstack⟩ := List.exists_cons_of_ne_nil hs
  have hc := hx.changes tr c (hstack ▸ List.mem_cons_self)
  have hn := names_nodup hx.toShaped
  have hslots : (x.slots.map (Slot.restored c)).map (Slot.restored (c.exchange x.slots)) =
      x.slots := by
    rw [List.map_map]
    refine (List.map_congr_left fun t ht => ?_).trans (List.map_id _)
    exact restored_restored (hx.slots t ht) (hd t ht) (ChangeSet.get?_exchange hn ht)
  have hback := exchange_exchange hx.toShaped hc
  cases tr with
  | undo =>
    have hundo : x.undo = c :: older := hstack
    simp only [turned, stack, setStack, refresh, Track.opposite, hundo, hslots, hback]
    rw [← hundo]
    exact hx.flags
  | redo =>
    have hredo : x.redo = c :: older := hstack
    simp only [turned, stack, setStack, refresh, Track.opposite, hredo, hslots, hback]
    rw [← hredo]
    exact hx.flags

/-! ## Committing -/

/-- What a commit of the edited fields remembers. -/
def pending (x : Record) : ChangeSet :=
  ((x.slots.filter (·.dirty)).map fun t => (t.name, t.baseline)).foldl
    (fun c e => c.record e.1 e.2) {}

/-- A record after a commit that wrote every edited field. -/
def saved (x : Record) : Record :=
  ({ x with slots := x.slots.map Slot.settle, undo := x.pending :: x.undo }.refresh).1

theorem unedited_saved (x : Record) : x.saved.Unedited := by
  intro t ht
  obtain ⟨u, -, rfl⟩ := List.mem_map.mp ht
  rfl

/-- Where no write fails, every edited slot is settled. -/
theorem writeDirty_of_success (hts : ∀ t ∈ ts, t.Sound)
    (h : (writeDirty s id ts l).1.failure = none) :
    (writeDirty s id ts l).1.slots = ts.map Slot.settle ∧
      (writeDirty s id ts l).1.previous =
        (ts.filter (·.dirty)).map fun t => (t.name, t.baseline) := by
  induction ts generalizing l with
  | nil => exact ⟨rfl, rfl⟩
  | cons t ts ih =>
    have hrest : ∀ u ∈ ts, u.Sound := fun u hu => hts u (by simp [hu])
    unfold writeDirty at h ⊢
    cases hd : t.dirty with
    | true =>
      simp only [hd, if_true] at h ⊢
      cases hw : l.updateField s id t.name t.current with
      | mk result l₁ =>
        rw [hw] at h
        cases result with
        | error e => cases h
        | ok u =>
          obtain ⟨hslots, hprevious⟩ := ih hrest h
          simp only [Written.save, hslots, hprevious, List.map_cons, List.filter_cons, hd, if_true,
            and_self]
    | false =>
      simp only [hd, Bool.false_eq_true, if_false] at h ⊢
      obtain ⟨hslots, hprevious⟩ := ih hrest h
      simp only [Written.skip, hslots, hprevious, List.map_cons, List.filter_cons, hd,
        (hts t (by simp)).settle_eq hd, Bool.false_eq_true, if_false, and_self]

theorem isEmpty_record (c : ChangeSet) (field : String) (v : Value) :
    (c.record field v).isEmpty = false := by
  cases hc : (c.record field v).isEmpty with
  | false => rfl
  | true =>
    have hget := ChangeSet.get?_record_self c field v
    rw [ChangeSet.get?, List.isEmpty_iff.mp hc] at hget
    cases hget

theorem isEmpty_foldl_record (es : List (String × Value)) (c : ChangeSet) :
    (es.foldl (fun c e => c.record e.1 e.2) c).isEmpty = (c.isEmpty && es.isEmpty) := by
  induction es generalizing c with
  | nil => rw [List.foldl_nil, List.isEmpty_nil, Bool.and_true]
  | cons e es ih =>
    rw [List.foldl_cons, ih, isEmpty_record, Bool.false_and, List.isEmpty_cons, Bool.and_false]

theorem unedited_iff : x.Unedited ↔ x.dirtyFields = [] := by
  rw [dirtyFields, List.map_eq_nil_iff, List.filter_eq_nil_iff]
  simp only [Unedited, Bool.not_eq_true]

theorem run_commit_of_stored (hnew : x.isNew = false) (hpending : x.deletePending = false) :
    x.run l .commit =
      ((Reply.committed <$> (x.commitFields l).1.1, (x.commitFields l).1.2),
        (x.commitFields l).2) := by
  have hcommit : x.commit l = x.commitFields l := by
    rw [Record.commit, hnew, hpending]
    rfl
  rw [← hcommit]
  rfl

theorem run_commit_of_absent (h : (x.isNew || x.deletePending) = true) :
    x.run l .commit =
      ((Reply.committed <$> (x.commitRow l).1.1, (x.commitRow l).1.2), (x.commitRow l).2) := by
  have hcommit : x.commit l = x.commitRow l := by
    rw [Record.commit, h]
    rfl
  rw [← hcommit]
  rfl

/-- A commit of the whole row inserts. -/
theorem commitRow_eq_ok {o : CommitOutcome} (h : (x.commitRow l).1.1 = .ok o) : o = .inserted := by
  unfold commitRow at h
  split at h
  · cases h
  · cases h
    rfl

/-- Only a commit of fields updates. -/
theorem stored_of_updated {fields : List String}
    (h : (x.run l .commit).1.1 = .ok (.committed (.updated fields))) :
    x.isNew = false ∧ x.deletePending = false := by
  rw [← Bool.or_eq_false_iff]
  refine Bool.eq_false_iff.mpr fun habsent => ?_
  rw [run_commit_of_absent habsent] at h
  obtain ⟨o, ho, heq⟩ := map_eq_ok.mp h
  cases heq
  cases commitRow_eq_ok ho

theorem failure_of_commitFields {o : CommitOutcome} (h : (x.commitFields l).1.1 = .ok o) :
    (writeDirty x.schema x.id x.slots l).1.failure = none := by
  cases hf : (writeDirty x.schema x.id x.slots l).1.failure with
  | none => rfl
  | some e =>
    unfold commitFields Written.result at h
    simp only [hf] at h
    split at h
    · split at h <;> cases h
    · split at h <;> cases h

/-- A commit of edited fields that succeeds saves the record, or there was no
edit. -/
theorem commitFields_of_success (hx : x.Intact) {o : CommitOutcome}
    (h : (x.commitFields l).1.1 = .ok o) :
    (x.Unedited ∧ o = .unchanged ∧ (x.commitFields l).1.2.record = x ∧
        (x.commitFields l).1.2.notices = []) ∨
      (x.dirtyFields ≠ [] ∧ o = .updated x.dirtyFields ∧
        (x.commitFields l).1.2.record = x.saved ∧
        (x.commitFields l).1.2.notices = [.gained .undo]) := by
  by_cases hd : x.Unedited
  · left
    have hclean := writeDirty_clean x.schema x.id l hd
    have hx' : ({ x with slots := x.slots }.refresh).1 = x := hx.flags
    unfold commitFields at h ⊢
    rw [hclean] at h ⊢
    cases h
    exact ⟨hd, rfl, hx', rfl⟩
  · right
    have hfail := failure_of_commitFields h
    obtain ⟨hslots, hprevious⟩ := writeDirty_of_success hx.slots hfail
    have hfields : x.dirtyFields ≠ [] := fun hnil => hd (unedited_iff.mpr hnil)
    have hchanges : (writeDirty x.schema x.id x.slots l).1.changes = x.pending := by
      rw [Written.changes, hprevious, pending]
    have hpersisted : (writeDirty x.schema x.id x.slots l).1.persisted = x.dirtyFields := by
      rw [Written.persisted, hprevious, List.map_map]
      rfl
    have hsome : x.pending.isEmpty = false := by
      rw [pending, isEmpty_foldl_record, List.isEmpty_map]
      rw [dirtyFields, ne_eq, List.map_eq_nil_iff, ← List.isEmpty_iff, Bool.not_eq_true] at hfields
      rw [hfields, Bool.and_false]
    have hlist : x.dirtyFields.isEmpty = false := by
      rw [← Bool.not_eq_true, List.isEmpty_iff]
      exact hfields
    unfold commitFields at h ⊢
    simp only [Written.result, hfail, hpersisted, hlist, Bool.false_eq_true, if_false] at h
    simp only [hchanges, hsome, Bool.false_eq_true, if_false] at h ⊢
    cases h
    refine ⟨hfields, rfl, ?_, rfl⟩
    rw [hslots]
    rfl

/-- Only a commit of the whole row inserts. -/
theorem absent_of_inserted (hx : x.Intact)
    (h : (x.run l .commit).1.1 = .ok (.committed .inserted)) :
    (x.isNew || x.deletePending) = true := by
  refine Bool.of_not_eq_false fun hstored => ?_
  rw [Bool.or_eq_false_iff] at hstored
  rw [run_commit_of_stored hstored.1 hstored.2] at h
  obtain ⟨o, ho, heq⟩ := map_eq_ok.mp h
  cases heq
  obtain ⟨-, he, -⟩ | ⟨-, he, -⟩ := commitFields_of_success hx ho <;> cases he

/-! ## What a commit remembers -/

theorem get?_foldl_record_of_not_mem {es : List (String × Value)} {name : String}
    (h : name ∉ es.map (·.1)) (c : ChangeSet) :
    (es.foldl (fun c e => c.record e.1 e.2) c).get? name = c.get? name := by
  induction es generalizing c with
  | nil => rfl
  | cons e es ih =>
    rw [List.map_cons, List.mem_cons, not_or] at h
    rw [List.foldl_cons, ih h.2, ChangeSet.get?_record_of_ne c h.1]

theorem get?_foldl_record {es : List (String × Value)} (hn : (es.map (·.1)).Nodup)
    {e : String × Value} (he : e ∈ es) (c : ChangeSet) :
    (es.foldl (fun c e => c.record e.1 e.2) c).get? e.1 = some e.2 := by
  induction es generalizing c with
  | nil => cases he
  | cons e' es ih =>
    rw [List.map_cons, List.nodup_cons] at hn
    rcases List.mem_cons.mp he with rfl | he
    · rw [List.foldl_cons, get?_foldl_record_of_not_mem hn.1, ChangeSet.get?_record_self]
    · exact ih hn.2 he _

/-- A commit remembers what the edited slots took for stored, and nothing else. -/
theorem get?_pending (hx : x.Shaped) {t : Slot} (ht : t ∈ x.slots) :
    x.pending.get? t.name = if t.dirty then some t.baseline else none := by
  have hn := names_nodup hx
  split
  · next hd =>
    have hmem : (t.name, t.baseline) ∈
        (x.slots.filter (·.dirty)).map fun t => (t.name, t.baseline) :=
      List.mem_map_of_mem (f := fun t : Slot => (t.name, t.baseline))
        (List.mem_filter.mpr ⟨ht, hd⟩)
    refine get?_foldl_record ?_ hmem {}
    rw [List.map_map]
    exact hn.sublist (List.filter_sublist.map _)
  · next hd =>
    refine get?_foldl_record_of_not_mem (fun hmem => hd ?_) {}
    rw [List.map_map] at hmem
    obtain ⟨u, hu, hname⟩ := List.mem_map.mp hmem
    obtain ⟨hu, hdirty⟩ := List.mem_filter.mp hu
    rw [← eq_of_name hn hu ht hname]
    exact hdirty

/-- What was saved is taken back to what was stored before. -/
theorem restored_settle (hx : x.Shaped) {t : Slot} (ht : t ∈ x.slots) :
    (t.settle).restored x.pending = .clean t.field t.baseline := by
  have hname : t.settle.name = t.name := rfl
  rw [Slot.restored, hname, get?_pending hx ht]
  cases hd : t.dirty with
  | true => rfl
  | false =>
    have hsettle := (hx.slots t ht).settle_eq hd
    show t.settle = _
    rw [hsettle]
    exact (hx.slots t ht).eq_clean hd

end Record

end LiveRecords
