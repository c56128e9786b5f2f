import LiveRecords.Proofs.Retracing

/-!
# Edits that redo spares

As long as no statement fails, a pending edit and redo are never about one
field: an assignment empties the redo stack, and what an undo hands over to it
are fields that the undo has just written. So redo leaves every edit in place,
and an edit is lost only to what is done to its own field.

An undo that cannot write breaks this. Its fields are dirty then, and redo is
about them.
-/

namespace LiveRecords.Record

variable {x : Record} {t : Slot} {ts : List Slot} {tr : Track} {c : ChangeSet} {l : Link}

/-! ## Runs of turns -/

/-- Turns one after another, each with a property of the record it finds. -/
def Throughout (P : Record → Turn → Prop) : Record → List Turn → Prop
  | _, [] => True
  | x, u :: us => P x u ∧ Throughout P (x.turn u).record us

/-- What turns with a property preserve, a run of such turns preserves. -/
theorem Throughout.preserves {P : Record → Turn → Prop} {Q : Record → Prop}
    (hQ : ∀ x u, P x u → Q x → Q (x.turn u).record) {us : List Turn}
    (h : Throughout P x us) (hx : Q x) : Q (x.after us) := by
  induction us generalizing x with
  | nil => exact hx
  | cons u us ih => exact ih h.2 (hQ x u h.1 hx)

/-- No statement of a turn fails. -/
def Smooth (x : Record) : Turn → Prop
  | .asked c l => (x.run l c).2.stats.failures = l.stats.failures
  | .handed _ | .moved _ => True

/-- Which turns leave an edit of a field alone: they do not assign it, nor give
it up, nor commit, and what they undo does not name it. -/
def Leaves (name : String) (x : Record) : Turn → Prop
  | .asked (.set field _) _ | .asked (.discard field) _ => field ≠ name
  | .asked .discardAll _ | .asked .commit _ => False
  | .asked (.replay .undo) _ => ∀ c ∈ x.undo.head?, name ∉ c.fields
  | .asked (.replay .redo) _ | .asked .stageDelete _ | .handed _ | .moved _ => True

/-- No field with an edit is named by a change set that redo would bring back. -/
def Spares (x : Record) : Prop :=
  ∀ t ∈ x.slots, t.dirty = true → ∀ c ∈ x.redo, t.name ∉ c.fields

theorem Spares.congr (h : x.Spares) {y : Record}
    (hslots : ∀ t ∈ y.slots, t.dirty = true → t ∈ x.slots) (hredo : ∀ c ∈ y.redo, c ∈ x.redo) :
    y.Spares :=
  fun t ht hd c hc => h t (hslots t ht hd) hd c (hredo c hc)

/-! ## Edits after a turn -/

/-- A commit leaves no edit that was not there. -/
theorem mem_of_writeDirty {s : Schema} {id : RecordId}
    (ht : t ∈ (writeDirty s id ts l).1.slots) (hd : t.dirty = true) : t ∈ ts := by
  induction ts generalizing l with
  | nil => cases ht
  | cons u ts ih =>
    unfold writeDirty at ht
    split at ht
    · split at ht
      · rcases List.mem_cons.mp ht with rfl | ht
        · cases hd
        · exact List.mem_cons_of_mem _ (ih ht)
      · exact ht
    · rcases List.mem_cons.mp ht with rfl | ht
      · exact List.mem_cons_self
      · exact List.mem_cons_of_mem _ (ih ht)

theorem mem_of_commit (ht : t ∈ (x.commit l).1.2.record.slots) (hd : t.dirty = true) :
    t ∈ x.slots := by
  unfold Record.commit at ht
  split at ht
  · unfold commitRow at ht
    split at ht
    · exact ht
    · obtain ⟨u, -, rfl⟩ := List.mem_map.mp ht
      cases hd
  · unfold commitFields at ht
    dsimp only at ht
    split at ht <;> exact mem_of_writeDirty ht hd

theorem redo_commit (x : Record) (l : Link) : (x.commit l).1.2.record.redo = x.redo := by
  unfold Record.commit
  split
  · unfold commitRow
    split <;> rfl
  · unfold commitFields
    dsimp only
    split <;> rfl

/-- A slot whose edit is given up has none. -/
theorem mem_of_setSlot {u : Slot} (hu : u.dirty = false) (ht : t ∈ (x.setSlot u).slots)
    (hd : t.dirty = true) : t ∈ x.slots := by
  obtain ⟨a, ha, rfl⟩ := List.mem_map.mp ht
  split at hd
  · rw [hu] at hd
    cases hd
  · next hne =>
    rw [if_neg hne]
    exact ha

/-- A row changes no slot that has an edit. -/
theorem settle_of_dirty {row : NamedRow} (hd : t.dirty = true) : row.settle t = t := by
  obtain ⟨-, hsame⟩ | ⟨v, -, hnews, -⟩ := row.settle_cases t
  · exact hsame
  · simp [isNews, hd] at hnews

theorem slots_setParent (x : Record) (parent : Option RecordId) :
    (x.setParent parent).record.slots = x.slots ∧ (x.setParent parent).record.redo = x.redo := by
  unfold setParent
  split <;> exact ⟨rfl, rfl⟩

theorem slots_takeRow (x : Record) (row : NamedRow) :
    (x.takeRow row).record.slots = x.slots.map row.settle ∧
      (x.takeRow row).record.redo = x.redo :=
  slots_setParent { x with slots := x.slots.map row.settle } row.parent

/-- A replay that writes what it brings back leaves the edits of other fields. -/
theorem mem_of_replay (hx : x.Coherent) {older : List ChangeSet} (hs : x.stack tr = c :: older)
    {b : Bool} (hok : (x.replay tr l).1.1 = .ok b) (ht : t ∈ (x.replay tr l).1.2.record.slots)
    (hd : t.dirty = true) : t ∈ x.slots ∧ t.name ∉ c.fields := by
  obtain ⟨hslots, -⟩ := replay_of_ok hx.toFramed.names_nodup hs hok
  rw [hslots] at ht
  obtain ⟨u, hu, rfl⟩ := List.mem_map.mp ht
  cases hget : c.get? u.name with
  | none =>
    have hsame : u.restored c = u := by rw [Slot.restored, hget]
    rw [hsame]
    exact ⟨hu, ChangeSet.get?_eq_none_iff.mp hget⟩
  | some v =>
    rw [Slot.restored, hget] at hd
    cases hd

theorem mem_fields_exchange (hn : (ts.map (·.name)).Nodup) {name : String} :
    name ∈ (c.exchange ts).fields ↔ name ∈ c.fields := by
  rw [← ChangeSet.isSome_get?_iff, ← ChangeSet.isSome_get?_iff]
  by_cases hmem : name ∈ ts.map (·.name)
  · obtain ⟨t, ht, rfl⟩ := List.mem_map.mp hmem
    rw [ChangeSet.get?_exchange hn ht, Option.isSome_map]
  · rw [ChangeSet.get?_exchange_of_not_mem hmem]

/-- Where no statement fails, a replay succeeds. -/
theorem replay_of_smooth (hx : x.Coherent) (hs : x.Smooth (.asked (.replay tr) l)) :
    ∃ b, (x.replay tr l).1.1 = .ok b := by
  cases hstack : x.stack tr with
  | nil =>
    rw [replay_nil hstack]
    exact ⟨false, rfl⟩
  | cons c older =>
    have hcount := failures_replaySlots x.id (fun t ht => hx.toFramed.known ht) c l
    have hsmooth : (x.replay tr l).2.stats.failures = l.stats.failures := hs
    simp only [Record.replay, hstack] at hsmooth ⊢
    cases hfail : (replaySlots x.schema x.id x.slots c none l).1.failure with
    | none => exact ⟨true, rfl⟩
    | some e =>
      rw [hfail, hsmooth] at hcount
      simp at hcount

/-! ## One turn -/

theorem Spares.replay (h : x.Spares) (hx : x.Coherent) (hs : x.Smooth (.asked (.replay tr) l)) :
    (x.replay tr l).1.2.record.Spares := by
  obtain ⟨b, hok⟩ := replay_of_smooth hx hs
  cases hstack : x.stack tr with
  | nil =>
    rw [replay_nil hstack]
    exact h
  | cons c older =>
    have hn := hx.toFramed.names_nodup
    have hy := exchanged_replay hn hstack l
    intro t ht hd c' hc'
    obtain ⟨htx, hnot⟩ := mem_of_replay hx hstack hok ht hd
    cases tr with
    | undo =>
      have hgiven : (x.replay .undo l).1.2.record.redo = c.exchange x.slots :: x.redo := hy.given
      rw [hgiven] at hc'
      rcases List.mem_cons.mp hc' with rfl | hc'
      · rw [mem_fields_exchange hn]
        exact hnot
      · exact h t htx hd c' hc'
    | redo =>
      have htaken : (x.replay .redo l).1.2.record.redo = older := hy.taken
      have hredo : x.redo = c :: older := hstack
      rw [htaken] at hc'
      exact h t htx hd c' (hredo ▸ List.mem_cons_of_mem _ hc')

/-- A turn in which no statement fails keeps edits and redo apart. -/
theorem Spares.turn (h : x.Spares) (hx : x.Coherent) {u : Turn} (hs : x.Smooth u) :
    (x.turn u).record.Spares := by
  cases u with
  | handed row =>
    obtain ⟨hslots, hredo⟩ := x.slots_takeRow row
    refine h.congr (fun t ht hd => ?_) fun c hc => hredo ▸ hc
    have htaken : t ∈ (x.takeRow row).record.slots := ht
    rw [hslots] at htaken
    obtain ⟨a, ha, rfl⟩ := List.mem_map.mp htaken
    rw [NamedRow.dirty_settle] at hd
    rw [settle_of_dirty hd]
    exact ha
  | moved parent =>
    obtain ⟨hslots, hredo⟩ := x.slots_setParent parent
    exact h.congr (fun t ht _ => hslots ▸ ht) fun c hc => hredo ▸ hc
  | asked c l =>
    cases c with
    | set field v =>
      show (x.set field v).2.record.Spares
      obtain ⟨hsame, -⟩ | ⟨t, -, -, -, -, hset⟩ := x.set_cases field v
      · rw [hsame]
        exact h
      · rw [hset]
        intro t ht hd c hc
        cases hc
    | discard field =>
      show (x.discard field).2.record.Spares
      obtain hsame | ⟨t, -, -, hdiscard⟩ := x.discard_cases field
      · rw [hsame]
        exact h
      · rw [hdiscard]
        exact h.congr (fun u hu hd => mem_of_setSlot rfl hu hd) fun c hc => hc
    | discardAll =>
      refine h.congr (fun t ht hd => ?_) fun c hc => hc
      obtain ⟨a, ha, rfl⟩ := List.mem_map.mp ht
      split at hd
      · cases hd
      · next hclean =>
        rw [if_neg hclean]
        exact ha
    | stageDelete =>
      show x.stageDelete.record.Spares
      unfold stageDelete
      split
      · exact h
      · exact h.congr (fun t ht _ => ht) fun c hc => hc
    | commit =>
      exact h.congr (fun t ht hd => mem_of_commit ht hd) fun c hc => x.redo_commit l ▸ hc
    | replay tr => exact h.replay hx hs

/-- An edit stays where a turn leaves its field alone. -/
theorem mem_turn (hx : x.Coherent) (h : x.Spares) (ht : t ∈ x.slots) (hd : t.dirty = true)
    {u : Turn} (hu : x.Leaves t.name u) : t ∈ (x.turn u).record.slots := by
  have hkeep : ∀ {u : Slot}, u.name ≠ t.name → t ∈ (x.setSlot u).slots := fun {u} hne =>
    List.mem_map.mpr ⟨t, ht, if_neg fun he => hne he.symm⟩
  cases u with
  | handed row =>
    rw [turn, (x.slots_takeRow row).1]
    exact List.mem_map.mpr ⟨t, ht, settle_of_dirty hd⟩
  | moved parent => exact (x.slots_setParent parent).1.symm ▸ ht
  | asked c l =>
    cases c with
    | set field v =>
      show t ∈ (x.set field v).2.record.slots
      obtain ⟨hsame, -⟩ | ⟨a, -, hname, -, -, hset⟩ := x.set_cases field v
      · rw [hsame]
        exact ht
      · rw [hset]
        exact hkeep (u := a.assign v) (hname ▸ hu)
    | discard field =>
      show t ∈ (x.discard field).2.record.slots
      obtain hsame | ⟨a, -, hname, hdiscard⟩ := x.discard_cases field
      · rw [hsame]
        exact ht
      · rw [hdiscard]
        exact hkeep (u := a.revert) (hname ▸ hu)
    | discardAll => exact hu.elim
    | commit => exact hu.elim
    | stageDelete =>
      show t ∈ x.stageDelete.record.slots
      unfold stageDelete
      split <;> exact ht
    | replay tr =>
      show t ∈ (x.replay tr l).1.2.record.slots
      cases hstack : x.stack tr with
      | nil =>
        rw [replay_nil hstack]
        exact ht
      | cons c older =>
        have hy := exchanged_replay hx.toFramed.names_nodup hstack l
        refine hy.others t ht ?_
        cases tr with
        | undo =>
          have hundo : x.undo = c :: older := hstack
          exact hu c (by rw [hundo]; exact rfl)
        | redo =>
          have hredo : x.redo = c :: older := hstack
          exact h t ht hd c (by rw [hredo]; exact List.mem_cons_self)

/-! ## Lives -/

theorem spares_initial (id : RecordId) (s : Schema) (isNew : Bool) :
    (Record.initial id s isNew).Spares := by
  intro t ht hd c hc
  cases hc

/-- While no statement fails, redo never names a field with an edit, so that it
leaves all edits in place; and an edit stays through all turns that are not about
its field, such as any redo and the undo of other fields. -/
theorem edits_spared {d : Draft} {s : Schema} (hs : d.build = .ok s) (id : RecordId) (isNew : Bool)
    {us : List Turn} (h : Throughout Smooth (Record.initial id s isNew) us) :
    (∀ t ∈ ((Record.initial id s isNew).after us).slots, t.dirty = true →
      ∀ c ∈ ((Record.initial id s isNew).after us).redo, t.name ∉ c.fields) ∧
    (∀ l, ∀ t ∈ ((Record.initial id s isNew).after us).slots, t.dirty = true →
      t ∈ (((Record.initial id s isNew).after us).replay .redo l).1.2.record.slots) ∧
    ∀ t ∈ ((Record.initial id s isNew).after us).slots, t.dirty = true →
      ∀ vs, Throughout (fun x u => x.Smooth u ∧ x.Leaves t.name u)
          ((Record.initial id s isNew).after us) vs →
        t ∈ (((Record.initial id s isNew).after us).after vs).slots := by
  have hstep : ∀ x u, Smooth x u → x.Coherent ∧ x.Spares →
      (x.turn u).record.Coherent ∧ (x.turn u).record.Spares :=
    fun x u hu hx => ⟨hx.1.turn u, hx.2.turn hx.1 hu⟩
  obtain ⟨hx, hspares⟩ := h.preserves hstep
    ⟨initial_coherent (Schema.proper_of_build hs) id isNew, spares_initial id s isNew⟩
  refine ⟨hspares, fun l t ht hd => ?_, fun t ht hd vs hvs => ?_⟩
  · exact mem_turn hx hspares ht hd (u := .asked (.replay .redo) l) trivial
  · have hkept := hvs.preserves (Q := fun x => (x.Coherent ∧ x.Spares) ∧ t ∈ x.slots)
      (fun x u hu hx => ⟨hstep x u hu.1 hx.1, mem_turn hx.1.1 hx.1.2 hx.2 hd hu.2⟩)
      ⟨⟨hx, hspares⟩, ht⟩
    exact hkept.2

/-- The rank was committed and its commit undone, while an edit of the title was
pending. -/
def rankUndone : List Turn :=
  [.asked (.set "RANK" (.integer 1)) (breaking 9), .asked .commit (breaking 9),
    .asked (.set "TITLE" (.text "bread")) (breaking 9), .asked (.replay .undo) (breaking 9)]

/-- The edit is there after the rank was brought back and taken back again. -/
theorem edits_spared_title :
    ((Record.initial (.ofOrdinal 1) ranked false).after rankUndone).dirtyFields = ["TITLE"] ∧
      ((Record.initial (.ofOrdinal 1) ranked false).after rankUndone).redo =
        [⟨[("RANK", .integer 1)]⟩] ∧
      ⟨⟨"TITLE", .text, true⟩, .text "bread", .text "", true⟩ ∈
        (((Record.initial (.ofOrdinal 1) ranked false).after rankUndone).after
          [.asked (.replay .redo) (breaking 9), .asked (.replay .undo) (breaking 9)]).slots := by
  have hs : Draft.build ⟨ranked.table, ranked.fields, ranked.parentColumn⟩ = .ok ranked := by rfl
  have hsmooth : Throughout Smooth (Record.initial (.ofOrdinal 1) ranked false) rankUndone :=
    ⟨by rfl, by rfl, by rfl, by rfl, trivial⟩
  have hother : ∀ c ∈ some (ChangeSet.mk [("RANK", .null)]), "TITLE" ∉ c.fields := by decide
  have hleaves : Throughout (fun x u => x.Smooth u ∧ x.Leaves "TITLE" u)
      ((Record.initial (.ofOrdinal 1) ranked false).after rankUndone)
      [.asked (.replay .redo) (breaking 9), .asked (.replay .undo) (breaking 9)] :=
    ⟨⟨by rfl, trivial⟩, ⟨by rfl, hother⟩, trivial⟩
  exact ⟨by rfl, by rfl, (edits_spared hs _ false hsmooth).2.2 _ List.mem_cons_self rfl _ hleaves⟩

end LiveRecords.Record
