import LiveRecords.Coordinator

/-!
# Scanning the entries of a track

A step asks item after item until one of them does something. The loop here asks
items that may do anything: they live and die as they please, change the tracks
while they are asked, and answer anything. Such a loop need not come to an end,
and so it has a number of rounds to do it in. It ends if an item that had nothing
to do, or that failed, has left the tracks alone: then each round takes the newest
entry away, one round more than there are entries is enough, and what the loop comes
to can be told from the entries, newest first. The step of a host is this loop.
-/

namespace LiveRecords.Coordinator

variable {ε σ : Type}

@[simp] theorem setEntries_setEntries (c : Coordinator) (t : Track) (es fs : List Nat) :
    (c.setEntries t es).setEntries t fs = c.setEntries t fs := by
  cases t <;> rfl

/-- Drops the newest entries up to the first of a living item. -/
def prune (t : Track) (alive : Nat → Bool) (c : Coordinator) :
    Coordinator × List CoordinatorEvent :=
  let es := (c.entries t).dropWhile fun item => !alive item
  (c.setEntries t es, edge t (c.entries t) es)

/-- Items as a coordinator meets them. Which of them live depends on the state,
and one that is asked may do anything to the tracks and to the state. -/
structure Items (ε σ : Type) where
  alive : Nat → σ → Bool
  ask : Track → Nat → Coordinator → σ → Except ε Bool × Coordinator × σ
  announce : CoordinatorEvent → σ → σ

/-- What a loop comes to, with the items that were asked, in order. -/
structure Ending (ε σ : Type) where
  answer : Except ε Bool
  coordinator : Coordinator
  state : σ
  asked : List Nat := []

/-- The ending of a loop that asked one more item before. -/
def Ending.after (item : Nat) (e : Ending ε σ) : Ending ε σ :=
  { e with asked := item :: e.asked }

namespace Items

def announceAll (items : Items ε σ) (es : List CoordinatorEvent) (s : σ) : σ :=
  es.foldl (fun s e => items.announce e s) s

/-- Asks the newest living item, until one does something or fails. An item that
had nothing to do loses its newest entry. There is no result if the loop does not
end within a number of rounds, in each of which one item is asked. -/
def loop (items : Items ε σ) (t : Track) : Nat → Coordinator → σ → Option (Ending ε σ)
  | 0, _, _ => none
  | n + 1, c, s =>
    let pruned := c.prune t fun item => items.alive item s
    let s := items.announceAll pruned.2 s
    match pruned.1.entries t with
    | [] => some { answer := .ok false, coordinator := pruned.1, state := s }
    | item :: _ =>
      match items.ask t item pruned.1 s with
      | (.ok false, c, s) =>
        (items.loop t n (c.remove t item).1 (items.announceAll (c.remove t item).2 s)).map
          (.after item)
      | (answer, c, s) => some { answer, coordinator := c, state := s, asked := [item] }

/-- Items that leave the tracks alone when they had nothing to do or failed. -/
def Quiet (items : Items ε σ) (t : Track) : Prop :=
  ∀ item c s, (items.ask t item c s).1 ≠ .ok true → (items.ask t item c s).2.1 = c

/-- The state once the newest of some entries has been dropped. -/
def dropped (items : Items ε σ) (t : Track) (es : List Nat) (s : σ) : σ :=
  items.announceAll (edge t es es.tail) s

/-! ## One entry -/

section Rounds

variable (items : Items ε σ) (t : Track) (n : Nat) (c : Coordinator) (s : σ)

theorem dropped_cons_cons (i j : Nat) (es : List Nat) : items.dropped t (i :: j :: es) s = s := by
  simp [dropped, edge, announceAll]

theorem loop_nil (h : c.entries t = []) : items.loop t (n + 1) c s =
    some { answer := .ok false, coordinator := c.setEntries t [], state := s } := by
  rw [loop]
  simp [prune, h, edge_self, announceAll]

variable {items t n c s} {i : Nat} {es : List Nat}

/-- The entry of a dead item is dropped without a question. -/
theorem loop_dead (h : c.entries t = i :: es) (hdead : items.alive i s = false) :
    items.loop t (n + 1) c s =
      items.loop t (n + 1) (c.setEntries t es) (items.dropped t (i :: es) s) := by
  cases es with
  | nil =>
    rw [loop, loop_nil _ _ _ _ _ (by simp)]
    simp [prune, h, hdead, dropped]
  | cons j es =>
    have hprune : c.prune t (items.alive · s) =
        (c.setEntries t (j :: es)).prune t (items.alive · s) := by
      simp [prune, h, hdead, edge]
    rw [dropped_cons_cons, loop, hprune, ← loop]

/-- A living item is asked with its entry the newest. -/
theorem loop_alive (h : c.entries t = i :: es) (halive : items.alive i s = true) :
    items.loop t (n + 1) c s =
      match items.ask t i c s with
      | (.ok false, c, s) =>
        (items.loop t n (c.remove t i).1 (items.announceAll (c.remove t i).2 s)).map (.after i)
      | (answer, c, s) => some { answer, coordinator := c, state := s, asked := [i] } := by
  have hprune : c.prune t (items.alive · s) = (c, []) := by
    have hc : c.setEntries t (i :: es) = c := h ▸ c.setEntries_entries t
    simp [prune, h, halive, edge_self, hc]
  rw [loop, hprune]
  simp only [announceAll, h, List.foldl_nil]

/-- An item that had nothing to do loses the entry by which it was asked. -/
theorem loop_idle {s' : σ} (h : c.entries t = i :: es) (halive : items.alive i s = true)
    (hask : items.ask t i c s = (.ok false, c, s')) :
    items.loop t (n + 1) c s =
      (items.loop t n (c.setEntries t es) (items.dropped t (i :: es) s')).map (.after i) := by
  rw [loop_alive h halive, hask]
  simp only [remove, h, List.erase_cons_head, dropped, List.tail_cons]

/-- An item that did something, or failed, decides. -/
theorem loop_decided (h : c.entries t = i :: es) (halive : items.alive i s = true)
    (hask : (items.ask t i c s).1 ≠ .ok false) :
    items.loop t (n + 1) c s = some
      { answer := (items.ask t i c s).1, coordinator := (items.ask t i c s).2.1
        state := (items.ask t i c s).2.2, asked := [i] } := by
  rw [loop_alive h halive]
  rcases hans : items.ask t i c s with ⟨answer, c', s'⟩
  rw [hans] at hask
  rcases answer with e | _ | _
  · rfl
  · exact absurd rfl hask
  · rfl

end Rounds

/-! ## A scan -/

/-- The entries `es`, newest first and with `older` below them, are all passed
over: each is of an item that is dead when its turn comes, or that is asked and
has nothing to do. Asking `asked`, in order, leads from the state `s` to `s'`. -/
inductive PassesOver (items : Items ε σ) (t : Track) (c : Coordinator) (older : List Nat) :
    List Nat → List Nat → σ → σ → Prop
  | nil {s} : PassesOver items t c older [] [] s s
  | dead {i es asked s s'} (hdead : items.alive i s = false)
      (rest : PassesOver items t c older es asked
        (items.dropped t (i :: (es ++ older)) s) s') :
      PassesOver items t c older (i :: es) asked s s'
  | idle {i es asked s s' s''} (halive : items.alive i s = true)
      (hask : items.ask t i (c.setEntries t (i :: (es ++ older))) s =
        (.ok false, c.setEntries t (i :: (es ++ older)), s'))
      (rest : PassesOver items t c older es asked
        (items.dropped t (i :: (es ++ older)) s') s'') :
      PassesOver items t c older (i :: es) (i :: asked) s s''

section Scan

variable {items : Items ε σ} {t : Track} {c : Coordinator} {s s' : σ} {older es asked : List Nat}

theorem PassesOver.sublist (h : items.PassesOver t c older es asked s s') :
    asked.Sublist es := by
  induction h with
  | nil => exact .slnil
  | dead _ _ ih => exact ih.cons _
  | idle _ _ _ ih => exact ih.cons_cons _

/-- The loop follows a scan to the entries that are not passed over, in as many
rounds as items are asked. -/
theorem PassesOver.loop_eq (h : items.PassesOver t c older es asked s s') (n : Nat) :
    items.loop t (n + asked.length + 1) (c.setEntries t (es ++ older)) s =
      (items.loop t (n + 1) (c.setEntries t older) s').map
        fun e => { e with asked := asked ++ e.asked } := by
  induction h with
  | nil => simp
  | dead hdead _ ih =>
    rw [List.cons_append, loop_dead (entries_setEntries_self _ _ _) hdead, setEntries_setEntries]
    exact ih
  | idle halive hask _ ih =>
    rw [List.cons_append, loop_idle (entries_setEntries_self _ _ _) halive hask,
      setEntries_setEntries, List.length_cons, ← Nat.add_assoc, ih, Option.map_map]
    rfl

/-- Entries are passed over until one is found whose item decides. -/
theorem Quiet.exists_scan (hq : items.Quiet t) (c : Coordinator) (es : List Nat) (s : σ) :
    ∃ passed older asked s', es = passed ++ older ∧
      items.PassesOver t c older passed asked s s' ∧
      ∀ i rest, older = i :: rest →
        items.alive i s' = true ∧ (items.ask t i (c.setEntries t older) s').1 ≠ .ok false := by
  induction es generalizing s with
  | nil => exact ⟨[], [], [], s, rfl, .nil, by simp⟩
  | cons i es ih =>
    cases halive : items.alive i s with
    | false =>
      obtain ⟨passed, older, asked, s', rfl, hpass, hold⟩ := ih (items.dropped t (i :: es) s)
      exact ⟨i :: passed, older, asked, s', rfl, .dead halive hpass, hold⟩
    | true =>
      by_cases hask : (items.ask t i (c.setEntries t (i :: es)) s).1 = .ok false
      · have hc := hq i (c.setEntries t (i :: es)) s (by simp [hask])
        obtain ⟨passed, older, asked, s', rfl, hpass, hold⟩ :=
          ih (items.dropped t (i :: es) (items.ask t i (c.setEntries t (i :: es)) s).2.2)
        exact ⟨i :: passed, older, i :: asked, s', rfl,
          .idle halive (Prod.ext hask (Prod.ext hc rfl)) hpass, hold⟩
      · refine ⟨[], i :: es, [], s, rfl, .nil, ?_⟩
        rintro _ _ ⟨⟩
        exact ⟨halive, hask⟩

end Scan

/-- What a loop of a track comes to, told from the entries of the track. -/
inductive Scans (items : Items ε σ) (t : Track) (c : Coordinator) (s : σ) : Ending ε σ → Prop
  /-- Every entry is passed over, and the track is empty. -/
  | exhausted {asked s'} (hpass : items.PassesOver t c [] (c.entries t) asked s s') :
      Scans items t c s
        { answer := .ok false, coordinator := c.setEntries t [], state := s', asked }
  /-- The entries above one are passed over. It is of a living item, which finds
  this entry and all older ones in place, and the loop ends as the item does. -/
  | decided {passed i older asked s' answer c' s''}
      (hentries : c.entries t = passed ++ i :: older)
      (hpass : items.PassesOver t c (i :: older) passed asked s s')
      (halive : items.alive i s' = true)
      (hask : items.ask t i (c.setEntries t (i :: older)) s' = (answer, c', s''))
      (hanswer : answer ≠ .ok false) :
      Scans items t c s { answer, coordinator := c', state := s'', asked := asked ++ [i] }

section Endings

variable {items : Items ε σ} {t : Track} {n : Nat} {c : Coordinator} {s : σ} {e : Ending ε σ}

theorem PassesOver.loop_exhausted {asked : List Nat} {s' : σ}
    (h : items.PassesOver t c [] (c.entries t) asked s s') (hn : asked.length < n) :
    items.loop t n c s =
      some { answer := .ok false, coordinator := c.setEntries t [], state := s', asked } := by
  obtain ⟨n, rfl⟩ : ∃ k, n = k + asked.length + 1 := ⟨n - asked.length - 1, by omega⟩
  have hend := loop_nil items t n (c.setEntries t []) s' (entries_setEntries_self _ _ _)
  have hloop := h.loop_eq n
  rw [List.append_nil, setEntries_entries, hend] at hloop
  simpa using hloop

/-- A scan tells what the loop comes to. -/
theorem Scans.loop_eq (h : items.Scans t c s e) (hn : e.asked.length < n) :
    items.loop t n c s = some e := by
  cases h with
  | exhausted hpass => exact hpass.loop_exhausted hn
  | @decided passed i older asked s' answer c' s'' hentries hpass halive hask hanswer =>
    rw [List.length_append] at hn
    obtain ⟨n, rfl⟩ : ∃ k, n = k + asked.length + 1 := ⟨n - asked.length - 1, by omega⟩
    have hloop := hpass.loop_eq n
    rw [← hentries, setEntries_entries,
      loop_decided (entries_setEntries_self _ _ _) halive (by rwa [hask]), hask] at hloop
    exact hloop

/-- No more items are asked than there are entries. -/
theorem Scans.once (h : items.Scans t c s e) : e.asked.Sublist (c.entries t) := by
  cases h with
  | exhausted hpass => exact hpass.sublist
  | decided hentries hpass _ _ _ =>
    rw [hentries]
    exact hpass.sublist.append ((List.nil_sublist _).cons_cons _)

/-- Of quiet items, a scan passes over some entries and ends at the next. -/
theorem Quiet.exists_scans (hq : items.Quiet t) (c : Coordinator) (s : σ) :
    ∃ e, items.Scans t c s e := by
  obtain ⟨passed, older, asked, s', hentries, hpass, hold⟩ := hq.exists_scan c (c.entries t) s
  cases older with
  | nil =>
    rw [List.append_nil] at hentries
    subst hentries
    exact ⟨_, .exhausted hpass⟩
  | cons i older =>
    obtain ⟨halive, hask⟩ := hold i older rfl
    exact ⟨_, .decided hentries hpass halive rfl hask⟩

end Endings

/-- What is said of every loop whose items are quiet. -/
structure Settles (items : Items ε σ) (t : Track) (c : Coordinator) (s : σ) (e : Ending ε σ) :
    Prop where
  scans : items.Scans t c s e
  /-- No entry has its item asked twice, and newer ones come first. -/
  once : e.asked.Sublist (c.entries t)
  /-- There was nothing to do exactly if every entry is passed over. -/
  exhausted : e.answer = .ok false ↔
    ∃ asked s', items.PassesOver t c [] (c.entries t) asked s s'
  empty : e.answer = .ok false → e.coordinator = c.setEntries t []
  /-- An item that fails keeps its entry and all older ones. -/
  failed : ∀ err, e.answer = .error err → ∃ passed i older,
    c.entries t = passed ++ i :: older ∧ e.coordinator = c.setEntries t (i :: older)

/-- A scan of quiet items settles all that is said of their loop. -/
theorem Scans.settles {items : Items ε σ} {t : Track} {c : Coordinator} {s : σ} {e : Ending ε σ}
    (h : items.Scans t c s e) (hq : items.Quiet t) : items.Settles t c s e := by
  have hscan := h
  cases h with
  | exhausted hpass =>
    exact
      { scans := hscan
        once := hscan.once
        exhausted := ⟨fun _ => ⟨_, _, hpass⟩, fun _ => rfl⟩
        empty := fun _ => rfl
        failed := fun _ h => nomatch h }
  | @decided passed i older asked s' answer c' s'' hentries hpass halive hask hanswer =>
    refine
      { scans := hscan
        once := hscan.once
        exhausted := ⟨fun h => absurd h hanswer, ?_⟩
        empty := fun h => absurd h hanswer
        failed := ?_ }
    · -- Two scans of the same entries come to the same, since both are the loop.
      rintro ⟨_, _, hall⟩
      have hlast := hscan.loop_eq (Nat.lt_succ_of_le hscan.once.length_le)
      have hlength := Nat.lt_succ_of_le hall.sublist.length_le
      have hsame := hlast.symm.trans (hall.loop_exhausted hlength)
      exact congrArg Ending.answer (Option.some.inj hsame)
    · rintro err rfl
      have hkept := hq i (c.setEntries t (i :: older)) s' (by simp [hask])
      rw [hask] at hkept
      exact ⟨passed, i, older, hentries, hkept⟩

end Items

/-! ## The step of a host -/

/-- The items of a host. Its items live throughout, and one that has nothing to
do leaves the tracks alone. -/
def Host.items (h : Host ε σ) : Items ε σ where
  alive item _ := h.alive item
  announce := h.announce
  ask _ item c s :=
    match h.attempt item c s with
    | .nothing s => (.ok false, c, s)
    | .applied c s => (.ok true, c, s)
    | .failed e c s => (.error e, c, s)

section Host

variable {h : Host ε σ} {t : Track} {i : Nat} {es : List Nat} {c : Coordinator} {s s' : σ}

theorem stepEntries_dead (halive : h.alive i = false) :
    stepEntries h t (i :: es) c s = stepEntries h t es c (h.items.dropped t (i :: es) s) := by
  simp only [stepEntries, halive]
  rfl

theorem stepEntries_nothing (halive : h.alive i = true)
    (hattempt : h.attempt i (c.setEntries t (i :: es)) s = .nothing s') :
    stepEntries h t (i :: es) c s = stepEntries h t es c (h.items.dropped t (i :: es) s') := by
  simp only [stepEntries, halive, hattempt]
  rfl

end Host

theorem loop_of_entries (h : Host ε σ) (t : Track) (c : Coordinator) (es : List Nat) (s : σ) :
    ∃ asked, ∀ n, es.length < n → h.items.loop t n (c.setEntries t es) s = some
      { answer := (stepEntries h t es c s).1, coordinator := (stepEntries h t es c s).2.1
        state := (stepEntries h t es c s).2.2, asked } := by
  induction es generalizing s with
  | nil =>
    refine ⟨[], fun n hn => ?_⟩
    obtain ⟨n, rfl⟩ := Nat.exists_eq_add_one.mpr hn
    rw [Items.loop_nil _ _ _ _ _ (entries_setEntries_self _ _ _), setEntries_setEntries]
    rfl
  | cons i es ih =>
    have hentries := entries_setEntries_self c t (i :: es)
    cases halive : h.alive i with
    | false =>
      obtain ⟨asked, hrest⟩ := ih (h.items.dropped t (i :: es) s)
      refine ⟨asked, fun n hn => ?_⟩
      obtain ⟨n, rfl⟩ := Nat.exists_eq_add_one.mpr (Nat.zero_lt_of_lt hn)
      rw [List.length_cons] at hn
      rw [Items.loop_dead hentries halive, setEntries_setEntries, hrest _ (by omega),
        stepEntries_dead halive]
    | true =>
      cases hattempt : h.attempt i (c.setEntries t (i :: es)) s with
      | nothing s' =>
        obtain ⟨asked, hrest⟩ := ih (h.items.dropped t (i :: es) s')
        refine ⟨i :: asked, fun n hn => ?_⟩
        obtain ⟨n, rfl⟩ := Nat.exists_eq_add_one.mpr (Nat.zero_lt_of_lt hn)
        rw [List.length_cons] at hn
        have hask : h.items.ask t i (c.setEntries t (i :: es)) s =
            (.ok false, c.setEntries t (i :: es), s') := by simp [Host.items, hattempt]
        rw [Items.loop_idle hentries halive hask, setEntries_setEntries, hrest _ (by omega),
          stepEntries_nothing halive hattempt]
        rfl
      | applied c' s' =>
        refine ⟨[i], fun n hn => ?_⟩
        obtain ⟨n, rfl⟩ := Nat.exists_eq_add_one.mpr (Nat.zero_lt_of_lt hn)
        rw [Items.loop_decided hentries halive (by simp [Host.items, hattempt])]
        simp [stepEntries, halive, hattempt, Host.items]
      | failed e c' s' =>
        refine ⟨[i], fun n hn => ?_⟩
        obtain ⟨n, rfl⟩ := Nat.exists_eq_add_one.mpr (Nat.zero_lt_of_lt hn)
        rw [Items.loop_decided hentries halive (by simp [Host.items, hattempt])]
        simp [stepEntries, halive, hattempt, Host.items]

/-- The step of a host is the loop of its items. -/
theorem loop_of_host (h : Host ε σ) (t : Track) (c : Coordinator) (s : σ) :
    ∃ asked, ∀ n, (c.entries t).length < n → h.items.loop t n c s = some
      { answer := (step h t c s).1, coordinator := (step h t c s).2.1
        state := (step h t c s).2.2, asked } := by
  have hloop := loop_of_entries h t c (c.entries t) s
  rwa [setEntries_entries] at hloop

/-! ## Quiet items -/

namespace Items

/-- A loop over quiet items ends, with at most one item asked for each entry, and
what it comes to is told from the entries of the track: it drops the newest of them
up to one that decides. If the items are those of a host, its step ends so. -/
theorem Quiet.loop_settles {items : Items ε σ} {t : Track} (hq : items.Quiet t)
    (c : Coordinator) (s : σ) :
    ∃ e, (∀ n, (c.entries t).length < n → items.loop t n c s = some e) ∧
      items.Settles t c s e ∧
      ∀ h : Host ε σ, h.items = items → step h t c s = (e.answer, e.coordinator, e.state) := by
  obtain ⟨e, hscan⟩ := hq.exists_scans c s
  have hloop : ∀ n, (c.entries t).length < n → items.loop t n c s = some e :=
    fun n hn => hscan.loop_eq (Nat.lt_of_le_of_lt hscan.once.length_le hn)
  refine ⟨e, hloop, hscan.settles hq, ?_⟩
  rintro h rfl
  obtain ⟨asked, hstep⟩ := loop_of_host h t c s
  have hsame := (hstep _ (Nat.lt_succ_self _)).symm.trans (hloop _ (Nat.lt_succ_self _))
  rw [← Option.some.inj hsame]

/-- Items that write down when they are asked. Item 2 is dead, item 3 fails and
the others have nothing to do. -/
def sample : Host String (List Nat) where
  alive item := item != 2
  announce _ asked := asked
  attempt item c asked :=
    if item = 3 then .failed "failed" c (asked ++ [item]) else .nothing (asked ++ [item])

theorem sample_quiet (t : Track) : sample.items.Quiet t := fun item c s _ => by
  by_cases h : item = 3 <;> simp [Host.items, sample, h]

theorem sample_settles :
    ∃ e, (∀ n, 5 < n →
        sample.items.loop .undo n { undo := [1, 2, 1, 3, 1], redo := [4] } [] = some e) ∧
      sample.items.Settles .undo { undo := [1, 2, 1, 3, 1], redo := [4] } [] e ∧
      step sample .undo { undo := [1, 2, 1, 3, 1], redo := [4] } [] =
        (e.answer, e.coordinator, e.state) :=
  have ⟨e, hloop, hsettles, hstep⟩ :=
    (sample_quiet .undo).loop_settles { undo := [1, 2, 1, 3, 1], redo := [4] } []
  ⟨e, hloop, hsettles, hstep sample rfl⟩

example : sample.items.loop .undo 3 { undo := [1, 2, 1, 3, 1], redo := [4] } [] = some
    { answer := .error "failed", coordinator := { undo := [3, 1], redo := [4] }
      state := [1, 1, 3], asked := [1, 1, 3] } := rfl

end Items

end LiveRecords.Coordinator
