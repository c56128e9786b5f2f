import LiveRecords.Proofs.Runs

/-!
# Bookkeeping of coordinators

A coordinator keeps its own tracks beside the stacks of the records, and hears
of changes one notice at a time. In every state of every run the two agree: a
registered record has as many entries as change sets, and nobody else has any.
So an open store knows from its tracks alone whether there is something to undo
or redo, and whose turn it is.
-/

namespace LiveRecords.Workspace

variable {w : Workspace} {name : String} {s : Store} {t : Track}

/-- A record is registered in an identity map of a store. -/
def Registers (w : Workspace) (s : Store) (r : RecordRef) : Prop :=
  ∃ e ∈ s.maps, ∃ id, w.registered? e.2 id = some r

/-- A record registered in a store has a change set on a track. -/
def Remembers (w : Workspace) (s : Store) (t : Track) : Prop :=
  ∃ r i, w.Registers s r ∧ w.records[r]? = some i ∧ 0 < i.record.depth t

/-- The tracks of all coordinators agree with the stacks of the records. -/
structure Booked (w : Workspace) : Prop where
  /-- A registered record has as many entries as change sets. -/
  counted : ∀ {m id r}, w.registered? m id = some r → ∃ i, w.records[r]? = some i ∧
    ∀ t, ((w.coordinatorOf i.hub).entries t).count r = i.record.depth t
  /-- A record that was freed has no entry. -/
  named : ∀ {h t r}, r ∈ (w.coordinatorOf h).entries t →
    ∃ m id, w.registered? m id = some r
  /-- A store can undo or redo if a registered record can. -/
  available : ∀ {name s}, (name, s) ∈ w.stores → ∀ t,
    w.available s.hub t = true ↔ w.Remembers s t
  /-- A step answers that there is nothing to do only if there is nothing. -/
  nothing : ∀ {name s}, (name, s) ∈ w.stores → ∀ t,
    (w.step s.hub t).1 = .ok false ↔ ¬w.Remembers s t
  /-- Any other step replays the record that the newest entry names. -/
  newest : ∀ {name s}, (name, s) ∈ w.stores → ∀ t, w.Remembers s t →
    ∃ r rest, (w.coordinatorOf s.hub).entries t = r :: rest ∧ w.Registers s r ∧
      w.step s.hub t =
        ((fun _ => true) <$> (w.run r (.replay t)).1, (w.run r (.replay t)).2)

theorem counted_of_registered (hs : w.core.Sound) {m : MapRef} {id : RecordId} {r : RecordRef}
    (h : w.registered? m id = some r) : ∃ i, w.records[r]? = some i ∧
      ∀ t, ((w.coordinatorOf i.hub).entries t).count r = i.record.depth t := by
  have hl : w.core.Listed r := ⟨m, id, lists_of_registered h⟩
  obtain ⟨i, hi⟩ := instance_of_listed hs hl
  have hc := hs.counted (core_records_of_some hi) hl
  rw [core_coordinatorOf] at hc
  exact ⟨i, hi, hc⟩

/-- An entry of an open store names a record registered in it. -/
theorem registers_of_entry (hs : w.core.Sound) (hw : Holding True w) (h : (name, s) ∈ w.stores)
    {r : RecordRef} (hr : r ∈ (w.coordinatorOf s.hub).entries t) : w.Registers s r := by
  obtain ⟨m, hm, id, hl⟩ := registered_of_entry hs hw h hr
  obtain ⟨e, he, rfl⟩ := List.mem_map.mp hm
  exact ⟨e, he, id, registered_of_lists hs hl⟩

/-- The records of a store work with its coordinator. -/
theorem hub_of_registers (hs : w.core.Sound) (hw : Holding True w) (h : (name, s) ∈ w.stores)
    {r : RecordRef} {i : Instance} (hr : w.Registers s r) (hi : w.records[r]? = some i) :
    i.hub = s.hub := by
  obtain ⟨e, he, id, hreg⟩ := hr
  obtain ⟨map, hm, hmem⟩ := lists_of_registered hreg
  obtain ⟨x, hx, hof⟩ := hs.kept hm hmem
  cases (core_records_of_some hi).symm.trans hx
  obtain ⟨b, hb, -, hhub⟩ := (hw.stores _ h).maps e he
  cases (Core.shape_of_map hm).symm.trans hb
  exact hof.hub.trans hhub

/-- There is a change set somewhere exactly if there is an entry. -/
theorem remembers_iff (hs : w.core.Sound) (hw : Holding True w) (h : (name, s) ∈ w.stores) :
    w.Remembers s t ↔ (w.coordinatorOf s.hub).entries t ≠ [] := by
  constructor
  · rintro ⟨r, i, hr, hi, hpos⟩
    obtain ⟨e, -, id, hreg⟩ := id hr
    obtain ⟨j, hj, hc⟩ := counted_of_registered hs hreg
    cases hi.symm.trans hj
    rw [← hc t, hub_of_registers hs hw h hr hi, List.count_pos_iff] at hpos
    exact List.ne_nil_of_mem hpos
  · intro hne
    obtain ⟨r, hr⟩ := List.exists_mem_of_ne_nil _ hne
    have hreg := registers_of_entry hs hw h hr
    obtain ⟨e, -, id, hid⟩ := id hreg
    obtain ⟨i, hi, hc⟩ := counted_of_registered hs hid
    refine ⟨r, i, hreg, hi, ?_⟩
    rw [← hc t, hub_of_registers hs hw h hreg hi]
    exact List.count_pos_iff.mpr hr

theorem available_iff (hs : w.core.Sound) (hw : Holding True w) (h : (name, s) ∈ w.stores) :
    w.available s.hub t = true ↔ (w.coordinatorOf s.hub).entries t ≠ [] := by
  rw [available, Coordinator.available, List.any_eq_true]
  constructor
  · rintro ⟨r, hr, -⟩
    exact List.ne_nil_of_mem hr
  · intro hne
    obtain ⟨r, hr⟩ := List.exists_mem_of_ne_nil _ hne
    exact ⟨r, hr, isAlive_of_entry hs hw h hr⟩

theorem step_eq_false_iff (hs : w.core.Sound) (hw : Holding True w) (h : (name, s) ∈ w.stores) :
    (w.step s.hub t).1 = .ok false ↔ (w.coordinatorOf s.hub).entries t = [] := by
  cases he : (w.coordinatorOf s.hub).entries t with
  | nil => simp [step_of_nil he]
  | cons r rest =>
    rw [step_of_cons hs hw h he]
    cases (w.run r (.replay t)).1 with
    | error e => exact ⟨(by intro h; cases h), (by intro h; cases h)⟩
    | ok reply => exact ⟨(by intro h; cases h), (by intro h; cases h)⟩

theorem booked (hs : w.core.Sound) (hw : Holding True w) : Booked w where
  counted h := counted_of_registered hs h
  named hr := by
    rw [← core_coordinatorOf] at hr
    obtain ⟨⟨m, id, hl⟩, -⟩ := hs.named hr
    exact ⟨m, id, registered_of_lists hs hl⟩
  available h t := (available_iff hs hw h).trans (remembers_iff hs hw h).symm
  nothing h t := by rw [step_eq_false_iff hs hw h, remembers_iff hs hw h, Decidable.not_not]
  newest h t hrem := by
    obtain ⟨r, rest, he⟩ := List.exists_cons_of_ne_nil ((remembers_iff hs hw h).mp hrem)
    exact ⟨r, rest, he, registers_of_entry hs hw h (he ▸ List.mem_cons_self),
      step_of_cons hs hw h he⟩

/-- Whatever a program does, whichever statements fail and however listeners
answer, coordinators and records agree. -/
theorem booked_of_run (hb : Boots w) {actions : List Action}
    (ha : ∀ a ∈ actions, a.sharesHub = false) : Booked (w.performAll actions) := by
  obtain ⟨hs, hw⟩ := (follows_of_forall ha).good Action.Suits.of_sharesHub hb.sound hb.holding
  exact booked hs hw

/-- A program that saves a new record and then a change of it. -/
def saveTwice : List Action :=
  [.openStore "store" .inMemory,
    .registerType "store" { table := "NOTES", fields := [⟨"TITLE", .text, true⟩] } "notes",
    .newRecord "notes" (.ofOrdinal 1) (some "note"), .command "note" .commit,
    .command "note" (.set "TITLE" (.text "milk")), .command "note" .commit]

theorem booked_saveTwice : Boots {} ∧ (∀ a ∈ saveTwice, a.sharesHub = false) ∧
    (coordinatorOf (performAll {} saveTwice) 0).entries .undo = [0] ∧
    Booked (performAll {} saveTwice) :=
  ⟨boots_empty, by decide, by rfl, booked_of_run boots_empty (by decide)⟩

end LiveRecords.Workspace
