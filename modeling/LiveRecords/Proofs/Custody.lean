import LiveRecords.Proofs.Runs

/-!
# Custody of records

An identity map lets a record go only when nobody else holds it. So whoever
holds a record, under a name, in a row of a view or in a staging place, holds
the one that its identity map has for its key, and two who hold a record of one
key hold the same.

Two facts about deeds carry this: records leave an identity map only by being
freed, and only new records are registered. The second is what keeps a record
from coming back in another identity map or under another key.
-/

namespace LiveRecords

namespace Core

variable {k k' : Core} {m : MapRef} {id : RecordId} {r : RecordRef}

/-- Records are made, and of those that were there none is registered anew. -/
structure Adds (k k' : Core) : Prop where
  records : k.records.length ≤ k'.records.length
  lists : ∀ {m id r}, r < k.records.length → k'.Lists m id r → k.Lists m id r

theorem Adds.refl (k : Core) : Adds k k := ⟨Nat.le_refl _, fun _ h => h⟩

theorem Adds.trans {k₁ k₂ k₃ : Core} (h₁ : Adds k₁ k₂) (h₂ : Adds k₂ k₃) : Adds k₁ k₃ :=
  ⟨Nat.le_trans h₁.records h₂.records,
    fun hr hl => h₁.lists hr (h₂.lists (Nat.lt_of_lt_of_le hr h₁.records) hl)⟩

theorem adds_of_maps (hr : k'.records.length = k.records.length) (hm : k'.maps = k.maps) :
    Adds k k' :=
  ⟨Nat.le_of_eq hr.symm, fun _ hl => hl.of_maps hm.symm⟩

theorem adds_setDatabase (k : Core) (c : ConnectionRef) (d : Database) :
    Adds k (k.setDatabase c d) :=
  adds_of_maps (by simp) (by simp)

theorem adds_impose (k : Core) (r : RecordRef) (e : Effect) : Adds k (k.impose r e) :=
  adds_of_maps (by simp) (by simp)

theorem adds_enrol {map : IdentityMap} (hm : k.maps[m]? = some map) (id : RecordId)
    (isNew : Bool) : Adds k (k.enrol m map id isNew) := by
  refine ⟨by simp [enrol], fun hr hl => ?_⟩
  obtain hl | ⟨-, -, rfl⟩ := (lists_enrol hm).mp hl
  · exact hl
  · exact absurd hr (Nat.lt_irrefl _)

theorem adds_dismiss (k : Core) (m : MapRef) (r : RecordRef) (h : HubRef) :
    Adds k (k.dismiss m r h) :=
  ⟨Nat.le_refl _, fun _ hl => (lists_dismiss.mp hl).1⟩

theorem Commands.adds {c : Record.Command} {reply : Except StoreError Record.Reply}
    (h : Commands r c reply k k') : Adds k k' := by
  obtain ⟨i, l, -, -, -, -, rfl⟩ := h
  exact (adds_setDatabase k _ _).trans (adds_impose _ r _)

theorem Meets.adds {isNew : Bool} (h : Meets m id isNew r k k') : Adds k k' := by
  obtain ⟨map, hm, ⟨-, rfl⟩ | ⟨-, -, rfl⟩⟩ := h
  · exact .refl _
  · exact adds_enrol hm id isNew

theorem Asked.adds {cs : List (Record.Command × Except StoreError Record.Reply)}
    (h : Asked r cs k k') : Adds k k' :=
  Chain.preserves (P := Adds k) (fun hc hs => hs.trans hc.adds) h (.refl k)

theorem TakenIn.adds {answered : RecordRef → Prop} {images : List RowImage}
    (h : TakenIn m answered images k k') : Adds k k' := by
  induction h with
  | nil k => exact .refl k
  | cons hmeets _ hc _ _ ih =>
    exact hmeets.adds.trans ((adds_impose _ _ _).trans (hc.adds.trans ih))

/-- No deed registers a record that was there before. -/
theorem Does.adds {d : Deed} (h : Does d k k') : Adds k k' := by
  cases d with
  | command r c reply => exact Commands.adds h
  | read m images answered =>
    obtain ⟨map, -, -, h⟩ := h
    exact h.adds
  | enrol m id isNew =>
    obtain ⟨map, hm, -, rfl⟩ := h
    exact adds_enrol hm id isNew
  | place r parent =>
    obtain ⟨i, -, -, rfl⟩ := h
    exact adds_impose k r _
  | adopt m r parent =>
    obtain ⟨map, i, l, -, -, -, -, -, rfl⟩ := h
    exact (adds_setDatabase k _ _).trans (adds_impose _ r _)
  | free m r =>
    obtain ⟨map, i, l, -, -, -, -, rfl⟩ := h
    split
    · exact (adds_dismiss k m r i.hub).trans (adds_setDatabase _ _ _)
    · exact adds_dismiss k m r i.hub
  | ground =>
    obtain ⟨n, cs, j, -, rfl⟩ := h
    exact adds_of_maps rfl rfl
  | addMap s c h' =>
    obtain ⟨l, -, -, -, -, -, rfl⟩ := h
    exact (adds_setDatabase k c _).trans ⟨Nat.le_refl _, fun _ hl => lists_addMap.mp hl⟩
  | foreign d =>
    obtain ⟨x, rfl⟩ := h
    exact adds_of_maps rfl rfl

/-- A record leaves its identity map only by being freed. -/
theorem Does.lists_or_free {d : Deed} (h : Does d k k') (hl : k.Lists m id r) :
    k'.Lists m id r ∨ d = .free m r := by
  cases hd : d.isGentle with
  | true => exact .inl ((h.stays hd).lists hl)
  | false =>
    cases d with
    | free m' r' =>
      by_cases he : m = m' ∧ r = r'
      · exact .inr (by rw [he.1, he.2])
      · obtain ⟨map, i, l, -, -, -, -, rfl⟩ := h
        have hl' : (k.dismiss m' r' i.hub).Lists m id r :=
          lists_dismiss.mpr ⟨hl, fun hm hr => he ⟨hm, hr⟩⟩
        left
        split
        · exact hl'.of_maps (setDatabase_maps _ _ _)
        · exact hl'
    | ground => exact .inl (Grounds.grows h |>.lists hl)
    | addMap s c h' =>
      obtain ⟨l, -, -, -, -, -, rfl⟩ := h
      exact .inl (lists_addMap.mpr (hl.of_maps (setDatabase_maps k c _)))
    | command r c reply => cases hd
    | read m images answered => cases hd
    | enrol m id isNew => cases hd
    | place r parent => cases hd
    | adopt m r parent => cases hd
    | foreign d => cases hd

/-- Where a record has left its identity map, it was freed on the way. -/
theorem allowed_of_left {allowed : Deed → Core → Prop} {ds : List Deed}
    (h : Course allowed ds k k') (hl : k.Lists m id r) (hn : ¬k'.Lists m id r) :
    ∃ k₁, allowed (.free m r) k₁ := by
  induction h with
  | nil k => exact absurd hl hn
  | cons hd _ ih =>
    obtain hl' | rfl := hd.2.lists_or_free hl
    · exact ih hl' hn
    · exact ⟨_, hd.1⟩

end Core

namespace Workspace

variable {w : Workspace} {own : Prop} {a : Action} {m : MapRef} {id : RecordId} {r : RecordRef}

/-! ## Who is held -/

/-- The pass over the views finds only what is reached. -/
theorem reaches_of_found {n : Nat} {v : ViewRef} (h : v ∈ w.foundViews n) : w.Reaches v := by
  induction n generalizing v with
  | zero =>
    obtain ⟨e, he, rfl⟩ := List.mem_map.mp h
    exact .named he
  | succ n ih =>
    rw [foundViews_succ] at h
    split at h
    · next hn =>
      obtain h | h := List.mem_append.mp h
      · exact ih h
      · obtain ⟨view, hview, id, hc⟩ := mem_childrenOf.mp h
        exact .child (ih (by simpa using hn)) hview hc
    · exact ih h

/-- Whatever is held is registered. -/
theorem Holding.listed (h : Holding own w) (hr : w.isHeld r = true) : w.core.Listed r := by
  rw [isHeld, List.contains_iff_mem, heldRecords] at hr
  obtain hr | hr := List.mem_append.mp hr
  · obtain ⟨e, he, rfl⟩ := List.mem_map.mp hr
    exact h.handles e he
  · obtain ⟨v, hv, hr⟩ := List.mem_flatMap.mp hr
    cases hview : w.views[v]? with
    | none => simp [hview] at hr
    | some view =>
      rw [hview] at hr
      exact h.rows (reaches_of_found hv) hview r hr

/-! ## One action -/

theorem perform_adds (hs : w.core.Sound) (hw : Holding own w) (ha : a.Suits own) :
    w.core.Adds (w.perform a).2.core := by
  obtain ⟨⟨ds, hc⟩, -⟩ := perform_acts hs hw ha
  exact Chain.preserves (P := w.core.Adds) (fun hd hk => hk.trans hd.2.adds) hc (.refl _)

/-- A record leaves its identity map only in an action that may let it go. -/
theorem letsGo_of_left (hs : w.core.Sound) (hw : Holding own w) (ha : a.Suits own)
    (hl : w.core.Lists m id r) (hn : ¬(w.perform a).2.core.Lists m id r) : a.LetsGo w m r := by
  obtain ⟨⟨ds, hc⟩, -⟩ := perform_acts hs hw ha
  obtain ⟨k, hmay⟩ := Core.allowed_of_left hc hl hn
  cases hmay with
  | free h => exact h

/-! ## Runs -/

/-- A record was registered in an identity map at some time of a run. -/
def Issued (w : Workspace) (actions : List Action) (m : MapRef) (r : RecordRef) : Prop :=
  ∃ n id, (w.performAll (actions.take n)).registered? m id = some r

/-- What identity maps promise about a run. -/
structure Guarded (w : Workspace) (actions : List Action) : Prop where
  /-- Whatever is held came from an identity map. -/
  issued : ∀ {r}, (w.performAll actions).isHeld r = true → ∃ m, w.Issued actions m r
  /-- A held record is the one that its identity map has for its key. -/
  held : ∀ {m r}, w.Issued actions m r → (w.performAll actions).isHeld r = true →
    ∃ i, (w.performAll actions).records[r]? = some i ∧
      (w.performAll actions).registered? m i.record.id = some r
  /-- Of two records of an identity map, held at a time under one key, one is the other. -/
  same : ∀ {m r r' i i'}, w.Issued actions m r → w.Issued actions m r' →
    (w.performAll actions).isHeld r = true → (w.performAll actions).isHeld r' = true →
    (w.performAll actions).records[r]? = some i → (w.performAll actions).records[r']? = some i' →
    i.record.id = i'.record.id → r = r'
  /-- A key has one record, whose id it is. -/
  keys : ∀ {m : MapRef} {map}, (w.performAll actions).maps[m]? = some map →
    (map.registered.map (·.1)).Nodup ∧ ∀ e ∈ map.registered,
      ∃ i, (w.performAll actions).records[e.2]? = some i ∧ i.record.id = e.1
  /-- A record leaves its identity map only when nobody else holds it. -/
  leaves : ∀ {n a m id r}, actions[n]? = some a →
    (w.performAll (actions.take n)).registered? m id = some r →
    (w.performAll (actions.take (n + 1))).registered? m id ≠ some r →
    a.LetsGo (w.performAll (actions.take n)) m r

theorem Follows.adds {actions : List Action} (ha : Follows (fun _ a => a.Suits own) w actions)
    (hs : w.core.Sound) (hw : Holding own w) : w.core.Adds (w.performAll actions).core := by
  have h := ha.preserves
    (P := fun u => u.core.Sound ∧ Holding own u ∧ w.core.Adds u.core) ?_ ⟨hs, hw, .refl _⟩
  · exact h.2.2
  · rintro u a ha ⟨hs, hw, hadds⟩
    have hacts := perform_acts hs hw ha
    exact ⟨hacts.sound hs, hacts.2, hadds.trans (perform_adds hs hw ha)⟩

/-- A record is never registered but where it was first. -/
theorem Follows.lists_of_issued {actions : List Action}
    (ha : Follows (fun _ a => a.Suits own) w actions) (hs : w.core.Sound) (hw : Holding own w)
    (hi : w.Issued actions m r) (hl : (w.performAll actions).core.Listed r) :
    ∃ id, (w.performAll actions).core.Lists m id r := by
  obtain ⟨n, id₀, hreg⟩ := hi
  obtain ⟨m', id, hl⟩ := hl
  have hsplit := ha
  rw [← List.take_append_drop n actions, follows_append] at hsplit
  obtain ⟨hs₁, hw₁⟩ := hsplit.1.good (fun h => h) hs hw
  have hadds := hsplit.2.adds hs₁ hw₁
  rw [← performAll_append, List.take_append_drop] at hadds
  have hold := lists_of_registered hreg
  obtain ⟨i, hi, -⟩ := hs₁.resident ⟨m, id₀, hold⟩
  have hbefore := hadds.lists (Core.lt_of_record hi) hl
  cases hs₁.once hbefore hold
  exact ⟨id, hl⟩

theorem Follows.guarded {actions : List Action} (ha : Follows (fun _ a => a.Suits own) w actions)
    (hs : w.core.Sound) (hw : Holding own w) : Guarded w actions := by
  obtain ⟨hs', hw'⟩ := ha.good (fun h => h) hs hw
  have hheld : ∀ {m r}, w.Issued actions m r → (w.performAll actions).isHeld r = true →
      ∃ i, (w.performAll actions).records[r]? = some i ∧
        (w.performAll actions).registered? m i.record.id = some r := by
    intro m r hi hr
    obtain ⟨id, map, hm, hmem⟩ := ha.lists_of_issued hs hw hi (hw'.listed hr)
    obtain ⟨i, hi⟩ := instance_of_listed hs' ⟨m, id, map, hm, hmem⟩
    obtain ⟨x, hx, hof⟩ := hs'.kept hm hmem
    cases (core_records_of_some hi).symm.trans hx
    have hid : i.record.id = id := hof.id
    exact ⟨i, hi, hid ▸ registered_of_lists hs' ⟨map, hm, hmem⟩⟩
  refine ⟨fun hr => ?_, hheld, ?_, ?_, ?_⟩
  · obtain ⟨m, id, hl⟩ := hw'.listed hr
    refine ⟨m, actions.length, id, ?_⟩
    rw [List.take_length]
    exact registered_of_lists hs' hl
  · intro m r r' i i' hr hr' hh hh' hi hi' hid
    obtain ⟨j, hj, hreg⟩ := hheld hr hh
    obtain ⟨j', hj', hreg'⟩ := hheld hr' hh'
    cases hi.symm.trans hj
    cases hi'.symm.trans hj'
    rw [hid, hreg'] at hreg
    exact (Option.some.inj hreg).symm
  · intro m map hm
    refine ⟨hs'.keys hm, fun e he => ?_⟩
    obtain ⟨x, hx, hof⟩ := hs'.kept hm he
    obtain ⟨i, hi, rfl⟩ := instance_of_core hx
    exact ⟨i, hi, hof.id⟩
  · intro n a m id r han hreg hgone
    have hsplit := ha
    rw [← List.take_append_drop n actions, follows_append] at hsplit
    obtain ⟨hs₁, hw₁⟩ := hsplit.1.good (fun h => h) hs hw
    obtain ⟨hlt, rfl⟩ := List.getElem?_eq_some_iff.mp han
    have hdrop := hsplit.2
    rw [List.drop_eq_getElem_cons hlt] at hdrop
    have hnext : w.performAll (actions.take (n + 1)) =
        ((w.performAll (actions.take n)).perform actions[n]).2 := by
      rw [List.take_succ_eq_append_getElem hlt, performAll_append]
      rfl
    rw [hnext] at hgone
    have hs₂ := (perform_acts hs₁ hw₁ hdrop.1).sound hs₁
    exact letsGo_of_left hs₁ hw₁ hdrop.1 (lists_of_registered hreg) fun hl =>
      hgone (registered_of_lists hs₂ hl)

/-- In every run, a held record is the one that its identity map has for its key,
and leaves it only when nobody else holds it. Identity maps may work with the
coordinators of stores where no store steps through its tracks. -/
theorem guarded_of_run (hb : Boots w) {actions : List Action}
    (h : (∀ a ∈ actions, a.sharesHub = false) ∨ ∀ a ∈ actions, a.steps = false) :
    Guarded w actions :=
  (follows_of_forall (suits_of_run h)).guarded hb.sound hb.holding

/-- A program that holds a new record twice and gives it up twice. -/
def givenUpTwice : List Action :=
  [.openStore "store" .inMemory,
    .registerType "store" { table := "NOTES", fields := [⟨"TITLE", .text, true⟩] } "notes",
    .newRecord "notes" (.ofOrdinal 1) (some "note"), .clone "note" (some "copy"),
    .release "notes" "note", .release "notes" "copy"]

/-- The first release leaves the record to the second name, the second one frees it. -/
theorem guarded_givenUpTwice : Boots {} ∧ (∀ a ∈ givenUpTwice, a.sharesHub = false) ∧
    (performAll {} (givenUpTwice.take 5)).isHeld 0 = true ∧
    (performAll {} (givenUpTwice.take 5)).registered? 0 (.ofOrdinal 1) = some 0 ∧
    (performAll {} givenUpTwice).registered? 0 (.ofOrdinal 1) = none ∧
    Guarded {} givenUpTwice :=
  ⟨boots_empty, by decide, by rfl, by rfl, by rfl, guarded_of_run boots_empty (.inl (by decide))⟩

end Workspace

end LiveRecords
