import LiveRecords.Proofs.Pasts
import LiveRecords.Proofs.Tending

/-!
# The history of a store

Rounds in which one record after another is changed and committed make a history
of the whole store. Undo goes back through it round by round, whichever records
the rounds were of, and redo goes forth again.

The entries of the coordinator say of which record each round was, and the stack
of that record what the round changed. A round is taken back because its entry
and its change set are the newest at the same time. All that undo leaves behind
is what redo could bring back, and redo brings it back exactly.
-/

namespace LiveRecords

namespace Outlook

open LiveRecords.Core

/-- A record has gained a change set, and the undo of it would lead back. -/
structure Gains (o : Outlook) (m : MapRef) (s : Schema) (id : RecordId) (r : RecordRef)
    (x : Resident) (y : Record) (c : Coordinator) (k k' : Core) : Prop where
  sees : o.Sees k m s id r x
  alters : Alters o.database s id r x.hub y c k k'
  record : (y.turned .undo).past = x.record.past
  entries : c.undo = r :: (k.coordinatorOf x.hub).undo

/-- The newest change set of a coordinator is replayed. -/
structure Turns (o : Outlook) (m : MapRef) (s : Schema) (id : RecordId) (r : RecordRef)
    (x : Resident) (t : Track) (k k' : Core) : Prop where
  sees : o.Sees k m s id r x
  newest : ((k.coordinatorOf x.hub).entries t).head? = some r
  alters : Alters o.database s id r x.hub (x.record.turned t)
    ((k.coordinatorOf x.hub).turned t r) k k'

end Outlook

namespace Workspace

open LiveRecords.Core

variable {w w₁ v v' : Workspace} {o : Outlook} {unread : RecordRef → Prop} {m m' : MapRef}
  {s s' : Schema} {id id' : RecordId} {r r' : RecordRef} {x x' : Resident} {y : Record}
  {c : Coordinator} {t : Track} {f : Record → Record} {g : Coordinator → Coordinator}

/-- A step of a store takes back what one record did last, as far as can be seen,
if it does so for the record and for the coordinator. -/
theorem Tended.back (h : Tended o unread w) (hv : Tended o unread v) (hv' : Tended o unread v')
    (hx : o.Sees w.core m s id r x) (hr : ¬unread r) (hnew : x.record.isNew = false)
    (a : Alters o.database s id r x.hub y c w.core w₁.core)
    (hlook : v.core.mapMemory f g = w₁.core.mapMemory f g)
    (hturns : o.Turns m' s' id' r' x' t v.core v'.core) (hhub : x'.hub = x.hub)
    (hf : ∀ {y y'}, f y = f y' → y.slots = y'.slots ∧ y.isNew = y'.isNew)
    (hrecord : ∀ {y'}, f y' = f y → f (y'.turned t) = f x.record)
    (hentries : ∀ {c'}, g c' = g c → (c'.entries t).head? = some r ∧
      g (c'.turned t r) = g (w.core.coordinatorOf x.hub)) :
    v'.core.mapMemory f g = w.core.mapMemory f g := by
  have hlt := h.hub_lt hx
  have hlt₁ : x.hub < w₁.core.coordinators.length := by
    rw [a.coordinators, List.length_modify]
    exact hlt
  have hcoordinator := coordinatorOf_of_mapMemory hlook hlt₁
  rw [a.coordinatorOf hlt] at hcoordinator
  obtain ⟨hhead, hback⟩ := hentries hcoordinator
  -- the entries name the record that was changed
  have hnewest := hturns.newest
  rw [hhub, hhead] at hnewest
  cases hnewest
  have hmaps : v.core.maps = w.core.maps := (congrArg Core.maps hlook).trans a.maps
  have hdatabases : v.core.databases = w₁.core.databases := (congrArg Core.databases hlook :)
  have hsees := hturns.sees
  obtain ⟨rfl, rfl⟩ := hv.sound.key_unique hsees.lists (hx.lists.of_maps hmaps)
  have hs := hsees.types.unique (Outlook.types_of_maps hmaps.symm hx.types)
  subst hs
  obtain ⟨hlooks, hconnection, -⟩ := records_of_mapMemory hlook hsees.record
    (a.records_self hx.record)
  have hrec := hrecord hlooks
  obtain ⟨hslots, hisNew⟩ := hf hrec
  have hx' : o.Sees v'.core m' s' id' r { x with record := x'.record.turned t } := by
    have hmaps' := hturns.alters.maps
    refine ⟨Outlook.types_of_maps hmaps'.symm hsees.types, hsees.lists.of_maps hmaps', ?_⟩
    rw [hturns.alters.records_self hsees.record, hconnection, hhub]
  have ha' := hturns.alters
  rw [hhub] at ha'
  exact a.mapMemory_back hlook ha' hx.record hrec hback
    (h.faithful.databases_back hv'.faithful hx hr h.sound hv'.sound h.sole h.ahead hnew a
      hdatabases ha' hx' hslots (hisNew.trans hnew))

/-- An undo takes back what a record has gained. -/
theorem Tended.undo_back (h : Tended o unread w) (hv : Tended o unread v)
    (hv' : Tended o unread v') (hgains : o.Gains m s id r x y c w.core w₁.core) (hr : ¬unread r)
    (hnew : x.record.isNew = false) (hpast : v.core.past = w₁.core.past)
    (hturns : o.Turns m' s' id' r' x' .undo v.core v'.core) (hhub : x'.hub = x.hub) :
    v'.core.past = w.core.past := by
  refine h.back hv hv' hgains.sees hr hnew hgains.alters hpast hturns hhub
    (fun he => ⟨(congrArg Record.slots he :), (congrArg Record.isNew he :)⟩) (fun {y'} he => ?_)
    fun {c'} he => ?_
  · rw [Record.past_turned, he, ← Record.past_turned]
    exact hgains.record
  · have hundo : c'.undo = c.undo := (congrArg Coordinator.undo he :)
    refine ⟨?_, Coordinator.past_turned he hgains.entries⟩
    show c'.undo.head? = some r
    rw [hundo, hgains.entries]
    rfl

/-- A step the other way takes back a step. -/
theorem Tended.turn_back (h : Tended o unread w) (hv : Tended o unread v)
    (hv' : Tended o unread v') (hturns : o.Turns m s id r x t w.core w₁.core) (hr : ¬unread r)
    (hx : x.record.Settled) (hsame : v.core = w₁.core)
    (hturns' : o.Turns m' s' id' r' x' t.opposite v.core v'.core) (hhub : x'.hub = x.hub) :
    v'.core = w.core := by
  obtain ⟨rest, hentries⟩ := List.head?_eq_some_iff.mp hturns.newest
  have hstack : x.record.stack t ≠ [] := by
    have hcount := h.sound.counted hturns.sees.record ⟨m, id, hturns.sees.lists⟩ t
    rw [hentries] at hcount
    intro hnil
    simp [Record.depth, hnil] at hcount
  rw [← mapMemory_self v'.core, ← mapMemory_self w.core]
  refine h.back hv hv' hturns.sees hr hx.isNew hturns.alters
    ((mapMemory_self _).trans (hsame.trans (mapMemory_self _).symm)) hturns' hhub
    (fun he => ⟨congrArg Record.slots he, congrArg Record.isNew he⟩) (fun {y'} he => ?_)
    fun {c'} he => ?_
  · subst he
    exact Record.turned_turned (h.faithful.intact hturns.sees) hx.unedited hstack
  · subst he
    refine ⟨?_, Coordinator.turned_turned hentries⟩
    rw [(Coordinator.turned_of_cons hentries).2]
    rfl

/-- A command that nobody answers, unless it is a commit of the whole row. -/
theorem Tended.run_alters (h : Tended o unread w) (hx : o.Sees w.core m s id r x)
    {e : Record.Command}
    (he : e = .commit → x.record.isNew = false ∧ x.record.deletePending = false)
    (hq : w.Unanswered r e) :
    ∃ l : Link, (x.record.run l e).1.1 = (w.run r e).1 ∧
      Alters o.database s id r x.hub (x.record.run l e).1.2.record
        (Notice.told (x.record.run l e).1.2.notices r (w.core.coordinatorOf x.hub)) w.core
        (w.run r e).2.core ∧ Keeps w (w.run r e).2 := by
  obtain ⟨hid, hschema, -⟩ := hx.of h.sound
  obtain ⟨l, hl, hreply, hcore, hkeeps⟩ := h.run_unanswered hx hq
  refine ⟨l, hreply, ?_, hkeeps⟩
  rw [hcore]
  refine hx.alters (hx.types.connection h.sole h.sound h.ahead).1 _ fun {es} hes => ?_
  obtain ⟨es', hrows⟩ := Record.run_rewrites (h.faithful.intact hx)
    (hl ▸ h.faithful.plain) (hl ▸ hschema ▸ hes) he
  rw [hl, hid, hschema] at hrows
  exact ⟨es', hrows⟩

/-! ## Steps of a store -/

/-- A state between rounds and steps: no record of a store has anything to write,
and each takes for stored what is. -/
structure Steady (o : Outlook) (unread : RecordRef → Prop) (name : String) (st : Store)
    (w : Workspace) : Prop where
  tended : Tended o unread w
  store : (name, st) ∈ w.stores
  connection : st.connection = o.connection
  settled : ∀ {m s id r x}, o.Sees w.core m s id r x → x.hub = st.hub →
    ¬unread r ∧ x.record.Settled

/-- No listener answers when the newest change set of a coordinator is replayed. -/
def StepsQuietly (h : HubRef) (t : Track) (w : Workspace) : Prop :=
  ∀ r ∈ ((w.coordinatorOf h).entries t).head?, w.Unanswered r (.replay t)

variable {name : String} {st : Store}

namespace Steady

/-- The records of a store are seen on its connection. -/
theorem sees (h : Steady o unread name st w) (hm : m ∈ st.maps.map (·.2))
    (hl : w.core.Lists m id r) : ∃ s x, o.Sees w.core m s id r x ∧ x.hub = st.hub := by
  obtain ⟨e, he, rfl⟩ := List.mem_map.mp hm
  obtain ⟨map, hmap, hmem⟩ := hl
  obtain ⟨b, hb, hconnection, hhub⟩ := (h.tended.holding.stores _ h.store).maps e he
  cases (Core.shape_of_map hmap).symm.trans hb
  obtain ⟨x, hx, hof⟩ := h.tended.sound.kept hmap hmem
  exact ⟨map.schema, x, ⟨⟨map, hmap, hconnection.trans h.connection, rfl⟩, ⟨map, hmap, hmem⟩, hx⟩,
    hof.hub.trans hhub⟩

theorem sees_newest (h : Steady o unread name st w)
    (he : ((w.coordinatorOf st.hub).entries t).head? = some r) :
    ∃ m s id x, o.Sees w.core m s id r x ∧ x.hub = st.hub := by
  obtain ⟨m, hm, id, hl⟩ := registered_of_entry h.tended.sound h.tended.holding h.store
    (List.mem_of_head? he)
  obtain ⟨s, x, hx⟩ := h.sees hm hl
  exact ⟨m, s, id, x, hx⟩

/-- A change of one record that leaves it settled. -/
theorem alters (h : Steady o unread name st w) (hx : o.Sees w.core m s id r x)
    (hhub : x.hub = st.hub) (a : Alters o.database s id r x.hub y c w.core v.core)
    (hy : y.Settled) (hv : Tended o unread v) (hst : v.stores = w.stores) :
    Steady o unread name st v := by
  refine ⟨hv, hst ▸ h.store, h.connection, fun {m' s' id' r' x'} hx' hhub' => ?_⟩
  by_cases hr : r' = r
  · subst hr
    have hrec := hx'.record
    rw [a.records_self hx.record] at hrec
    cases hrec
    exact ⟨(h.settled hx hhub).1, hy⟩
  · exact h.settled (hx'.of_maps a.maps (a.records_of_ne hr)) hhub'

/-- A step with the newest change set succeeds. -/
theorem step (h : Steady o unread name st w) (hu : w.Unrefused st.connection)
    (hq : StepsQuietly st.hub t w) (he : ((w.coordinatorOf st.hub).entries t).head? = some r) :
    (w.step st.hub t).1 = .ok true ∧ Steady o unread name st (w.step st.hub t).2 ∧
      Later w (w.step st.hub t).2 ∧ ∃ m s id x, x.hub = st.hub ∧
        o.Turns m s id r x t w.core (w.step st.hub t).2.core := by
  obtain ⟨m, s, id, x, hx, hhub⟩ := h.sees_newest he
  obtain ⟨hr, hsettled⟩ := h.settled hx hhub
  obtain ⟨rest, hentries⟩ := List.head?_eq_some_iff.mp he
  have htended := h.tended
  have hstack : (x.record.stack t).isEmpty = false := by
    have hcount := htended.sound.counted hx.record ⟨m, id, hx.lists⟩ t
    rw [hhub, core_coordinatorOf, hentries] at hcount
    refine Bool.eq_false_iff.mpr fun hnil => ?_
    rw [Record.depth, List.isEmpty_iff.mp hnil] at hcount
    simp at hcount
  have hrow : ((w.databaseOf o.connection).image? s id).isSome := by
    obtain ⟨image, himage, -⟩ := (htended.faithful.aligned hx hr).stored hsettled.isNew
    rw [htended.databaseOf hx.types, himage]
    rfl
  have hok := htended.replay_ok hx (h.connection ▸ hu) hrow t
  rw [hstack] at hok
  obtain ⟨l, hreply, halters, hkeeps⟩ :=
    htended.run_alters hx (fun he => by cases he) (hq r he)
  rw [hok] at hreply
  obtain ⟨b, hb, heq⟩ := map_eq_ok.mp hreply
  cases heq
  obtain ⟨-, hrecord, hnotices⟩ :=
    Record.replay_of_success (htended.faithful.intact hx).toShaped hb
  rw [hstack, if_neg Bool.false_ne_true] at hnotices
  rw [show (x.record.run l (.replay t)).1.2.record = _ from hrecord,
    show (x.record.run l (.replay t)).1.2.notices = _ from hnotices] at halters
  have hstep := step_of_cons htended.sound htended.holding h.store hentries
  rw [hstep]
  refine ⟨by rw [hok]; rfl, h.alters hx hhub halters (hsettled.turned t)
    (htended.run ⟨m, id, hx.lists⟩ _) hkeeps.stores, later_run r _ w, m, s, id, x, hhub, hx,
    ?_, halters⟩
  rw [hhub, core_coordinatorOf]
  exact he

end Steady

/-! ## Rounds -/

/-- Values are set in a record, one after another. -/
def setAll (r : RecordRef) : List (String × Value) → Workspace → Workspace
  | [], w => w
  | e :: es, w => setAll r es (w.run r (.set e.1 e.2)).2

/-- No listener answers while values are set. -/
def SetsQuietly (r : RecordRef) : List (String × Value) → Workspace → Prop
  | [], _ => True
  | e :: es, w => w.Unanswered r (.set e.1 e.2) ∧ SetsQuietly r es (w.run r (.set e.1 e.2)).2

/-- A record gets values and is committed. -/
structure Round where
  record : RecordRef
  values : List (String × Value)

def Round.perform (a : Round) (w : Workspace) : Except StoreError Record.Reply × Workspace :=
  (setAll a.record a.values w).run a.record .commit

/-- A round changes a live record of a store, and no listener answers. -/
structure Round.Changes (a : Round) (st : Store) (w : Workspace) : Prop where
  live : ∃ m ∈ st.maps.map (·.2), ∃ id, w.registered? m id = some a.record
  quiet : SetsQuietly a.record a.values w
  unanswered : (setAll a.record a.values w).Unanswered a.record .commit
  updated : ∃ fields, (a.perform w).1 = .ok (.committed (.updated fields))

def performRounds (w : Workspace) (rounds : List Round) : Workspace :=
  rounds.foldl (fun w a => (a.perform w).2) w

/-- Each of some rounds changes a live record. -/
def Progresses (st : Store) : Workspace → List Round → Prop
  | _, [] => True
  | w, a :: rounds => a.Changes st w ∧ Progresses st (a.perform w).2 rounds

/-- Setting values changes the edits of a record, and nothing that undo looks at. -/
theorem Tended.setAll {es : List (String × Value)} (h : Tended o unread w)
    (hx : o.Sees w.core m s id r x) (hq : SetsQuietly r es w) :
    Tended o unread (setAll r es w) ∧ (setAll r es w).stores = w.stores ∧
      ∃ y c, o.Sees (setAll r es w).core m s id r { x with record := y } ∧
        y.rested = x.record.rested ∧ c.undo = (w.core.coordinatorOf x.hub).undo ∧
        Alters o.database s id r x.hub y c w.core (setAll r es w).core := by
  induction es generalizing w x with
  | nil =>
    have hlt := (hx.types.connection h.sole h.sound h.ahead).2
    exact ⟨h, rfl, x.record, _, hx, rfl, rfl, .refl id h.faithful.plain hlt hx.record
      (h.hub_lt hx)⟩
  | cons e es ih =>
    obtain ⟨l, -, halters, hkeeps⟩ := h.run_alters hx (fun he => by cases he) hq.1
    have hlt := (hx.types.connection h.sole h.sound h.ahead).2
    have hhub := h.hub_lt hx
    have hnext : o.Sees (w.run r (.set e.1 e.2)).2.core m s id r
        { x with record := (x.record.set e.1 e.2).2.record } :=
      ⟨Outlook.types_of_maps halters.maps.symm hx.types, hx.lists.of_maps halters.maps,
        halters.records_self hx.record⟩
    obtain ⟨h', hstores, y, c, hy, hrested, hundo, hrest⟩ :=
      ih (h.run ⟨m, id, hx.lists⟩ _) hnext hq.2
    refine ⟨h', hstores.trans hkeeps.stores, y, c, hy,
      hrested.trans (Record.rested_set (h.faithful.intact hx) e.1 e.2), ?_, halters.trans hrest hlt⟩
    rw [hundo, halters.coordinatorOf hhub]
    exact Record.undo_told_set x.record e.1 e.2 r _

/-- After a round the state is steady again, and the record has gained what the
round changed. -/
theorem Steady.round (h : Steady o unread name st w) {a : Round} (ha : a.Changes st w) :
    Steady o unread name st (a.perform w).2 ∧ ∃ m s id x y c, x.hub = st.hub ∧
      o.Gains m s id a.record x y c w.core (a.perform w).2.core := by
  obtain ⟨m, hm, id, hr⟩ := ha.live
  obtain ⟨s, x, hx, hhub⟩ := h.sees hm (lists_of_registered hr)
  obtain ⟨-, hsettled⟩ := h.settled hx hhub
  obtain ⟨h₁, hstores₁, y, c, hx₁, hrested, hundo, ha₁⟩ := h.tended.setAll hx ha.quiet
  obtain ⟨fields, hok⟩ := ha.updated
  obtain ⟨i, hi, hres⟩ := instance_of_core hx₁.record
  have hstored := isNew_of_updated hi hok
  rw [show i.record = y from congrArg Resident.record hres] at hstored
  obtain ⟨l, hreply, ha₂, hkeeps⟩ := h₁.run_alters hx₁ (fun _ => hstored) ha.unanswered
  obtain ⟨hnew, hpending⟩ := hstored
  have hreply' : (y.run l .commit).1.1 = .ok (.committed (.updated fields)) := hreply.trans hok
  dsimp only at ha₂
  rw [Record.run_commit_of_stored hnew hpending] at hreply' ha₂
  obtain ⟨out, hout, heq⟩ := map_eq_ok.mp hreply'
  cases heq
  obtain ⟨-, hunchanged, -⟩ | ⟨-, -, hsaved, hnotices⟩ :=
    Record.commitFields_of_success (h₁.faithful.intact hx₁) hout
  · cases hunchanged
  have hlt := (hx.types.connection h.tended.sole h.tended.sound h.tended.ahead).2
  have hcoordinators := h.tended.hub_lt hx
  dsimp only at ha₂ hsaved hnotices
  rw [hsaved, hnotices, ha₁.coordinatorOf hcoordinators] at ha₂
  have hall := ha₁.trans ha₂ hlt
  refine ⟨h.alters hx hhub hall (.saved hnew hpending) (h₁.run ⟨m, id, hx₁.lists⟩ _)
    (hkeeps.stores.trans hstores₁), m, s, id, x, _, _, hhub, hx, hall, ?_, ?_⟩
  · rw [Record.past_turned_saved (h₁.faithful.intact hx₁).toShaped, hrested]
    exact Record.rested_of_unedited (h.tended.faithful.intact hx) hsettled.unedited
  · exact congrArg (a.record :: ·) hundo

/-! ## Histories -/

/-- A store goes a number of steps. -/
def stepped (h : HubRef) (t : Track) : Nat → Workspace → Workspace
  | 0, w => w
  | n + 1, w => ((stepped h t n w).step h t).2

theorem performRounds_cons (w : Workspace) (a : Round) (rounds : List Round) :
    w.performRounds (a :: rounds) = (a.perform w).2.performRounds rounds := rfl

/-- Between two rounds a record has gained what the one changed. -/
theorem Steady.rounds {rounds : List Round} (h : Steady o unread name st w)
    (ha : Progresses st w rounds) {i : Nat} (hi : i < rounds.length) :
    Steady o unread name st (w.performRounds (rounds.take i)) ∧
      ∃ m s id r x y c, x.hub = st.hub ∧
        o.Gains m s id r x y c (w.performRounds (rounds.take i)).core
          (w.performRounds (rounds.take (i + 1))).core := by
  induction rounds generalizing w i with
  | nil => cases hi
  | cons a rounds ih =>
    obtain ⟨hnext, hgains⟩ := h.round ha.1
    cases i with
    | zero =>
      obtain ⟨m, s, id, x, y, c, hgains⟩ := hgains
      exact ⟨h, m, s, id, a.record, x, y, c, hgains⟩
    | succ i =>
      rw [List.take_succ_cons, List.take_succ_cons, performRounds_cons, performRounds_cons]
      exact ih hnext ha.2 (Nat.lt_of_succ_lt_succ hi)

theorem Steady.performRounds {rounds : List Round} (h : Steady o unread name st w)
    (ha : Progresses st w rounds) : Steady o unread name st (w.performRounds rounds) := by
  induction rounds generalizing w with
  | nil => exact h
  | cons a rounds ih => exact ih (h.round ha.1).1 ha.2

/-- Where the past of a state is the one after a round, undo goes back before the
round. -/
theorem Steady.undo (h : Steady o unread name st w) (hv : Steady o unread name st v)
    (hgains : o.Gains m s id r x y c w.core w₁.core) (hhub : x.hub = st.hub)
    (hpast : v.core.past = w₁.core.past) (hu : v.Unrefused st.connection)
    (hq : StepsQuietly st.hub .undo v) :
    (v.step st.hub .undo).1 = .ok true ∧ Steady o unread name st (v.step st.hub .undo).2 ∧
      Later v (v.step st.hub .undo).2 ∧ (v.step st.hub .undo).2.core.past = w.core.past ∧
      ∃ m s id r x, x.hub = st.hub ∧
        o.Turns m s id r x .undo v.core (v.step st.hub .undo).2.core := by
  have hlt := h.tended.hub_lt hgains.sees
  have hlt₁ : x.hub < w₁.core.coordinators.length := by
    rw [hgains.alters.coordinators, List.length_modify]
    exact hlt
  have hundo := congrArg Coordinator.undo (coordinatorOf_of_mapMemory hpast hlt₁)
  rw [hgains.alters.coordinatorOf hlt, hhub, core_coordinatorOf] at hundo
  have hhead : ((v.coordinatorOf st.hub).entries .undo).head? = some r := by
    refine (congrArg List.head? (hundo.trans hgains.entries)).trans ?_
    rfl
  obtain ⟨hok, hv', hlater, m', s', id', x', hhub', hturns⟩ := hv.step hu hq hhead
  obtain ⟨hr, hsettled⟩ := h.settled hgains.sees hhub
  have hback := h.tended.undo_back hv.tended hv'.tended hgains hr hsettled.isNew hpast hturns
    (hhub'.trans hhub.symm)
  exact ⟨hok, hv', hlater, hback, m', s', id', r, x', hhub', hturns⟩

/-- After an undo, redo brings everything back. -/
theorem Steady.redo (h : Steady o unread name st w)
    (hturns : o.Turns m s id r x .undo w.core w₁.core) (hhub : x.hub = st.hub)
    (hv : Steady o unread name st v) (hsame : v.core = w₁.core) (hu : v.Unrefused st.connection)
    (hq : StepsQuietly st.hub .redo v) :
    (v.step st.hub .redo).1 = .ok true ∧ Steady o unread name st (v.step st.hub .redo).2 ∧
      Later v (v.step st.hub .redo).2 ∧ (v.step st.hub .redo).2.core = w.core := by
  have hlt := h.tended.hub_lt hturns.sees
  have hcoordinator := hturns.alters.coordinatorOf hlt
  rw [← hsame, hhub, core_coordinatorOf] at hcoordinator
  obtain ⟨rest, hentries⟩ := List.head?_eq_some_iff.mp hturns.newest
  have hhead : ((v.coordinatorOf st.hub).entries .redo).head? = some r := by
    rw [hcoordinator, ← hhub]
    exact congrArg List.head? (Coordinator.turned_of_cons hentries).2
  obtain ⟨hok, hv', hlater, m', s', id', x', hhub', hturns'⟩ := hv.step hu hq hhead
  obtain ⟨hr, hsettled⟩ := h.settled hturns.sees hhub
  exact ⟨hok, hv', hlater, h.tended.turn_back hv.tended hv'.tended hturns hr hsettled hsame hturns'
    (hhub'.trans hhub.symm)⟩

section Stepped

variable {rounds : List Round} (h : Steady o unread name st w) (ha : Progresses st w rounds)
  (hu : (w.performRounds rounds).Unrefused st.connection)
include h ha hu

/-- As many undos as there were rounds, at most, each of which goes back one round. -/
theorem Steady.undone {k : Nat} (hk : k ≤ rounds.length)
    (hq : ∀ i < k, StepsQuietly st.hub .undo
      (stepped st.hub .undo i (w.performRounds rounds))) :
    Steady o unread name st (stepped st.hub .undo k (w.performRounds rounds)) ∧
      (stepped st.hub .undo k (w.performRounds rounds)).Unrefused st.connection ∧
      (stepped st.hub .undo k (w.performRounds rounds)).core.past =
        (w.performRounds (rounds.take (rounds.length - k))).core.past := by
  induction k with
  | zero =>
    rw [Nat.sub_zero, List.take_length]
    exact ⟨h.performRounds ha, hu, rfl⟩
  | succ k ih =>
    obtain ⟨hv, huv, hpast⟩ := ih (Nat.le_of_succ_le hk) fun i hi => hq i (Nat.lt_succ_of_lt hi)
    obtain ⟨hw, m, s, id, r, x, y, c, hhub, hgains⟩ :=
      h.rounds ha (i := rounds.length - (k + 1)) (by omega)
    rw [show rounds.length - (k + 1) + 1 = rounds.length - k by omega] at hgains
    obtain ⟨-, hv', hlater, hpast', -⟩ :=
      hw.undo hv hgains hhub hpast huv (hq k (Nat.lt_succ_self k))
    exact ⟨hv', huv.later hlater, hpast'⟩

/-- Each of these undos succeeds. -/
theorem Steady.undo_of_lt {k : Nat} (hk : k < rounds.length)
    (hq : ∀ i ≤ k, StepsQuietly st.hub .undo
      (stepped st.hub .undo i (w.performRounds rounds))) :
    ((stepped st.hub .undo k (w.performRounds rounds)).step st.hub .undo).1 = .ok true ∧
      ∃ m s id r x, x.hub = st.hub ∧ o.Turns m s id r x .undo
        (stepped st.hub .undo k (w.performRounds rounds)).core
        (stepped st.hub .undo (k + 1) (w.performRounds rounds)).core := by
  obtain ⟨hv, huv, hpast⟩ :=
    h.undone ha hu (Nat.le_of_lt hk) fun i hi => hq i (Nat.le_of_lt hi)
  obtain ⟨hw, m, s, id, r, x, y, c, hhub, hgains⟩ :=
    h.rounds ha (i := rounds.length - (k + 1)) (by omega)
  rw [show rounds.length - (k + 1) + 1 = rounds.length - k by omega] at hgains
  obtain ⟨hok, -, -, -, hturns⟩ := hw.undo hv hgains hhub hpast huv (hq k (Nat.le_refl k))
  exact ⟨hok, hturns⟩

/-- As many redos as there were undos, at most, each of which takes back one undo. -/
theorem Steady.redone {k j : Nat} (hk : k ≤ rounds.length) (hj : j ≤ k)
    (hq : ∀ i < k, StepsQuietly st.hub .undo
      (stepped st.hub .undo i (w.performRounds rounds)))
    (hq' : ∀ i < j, StepsQuietly st.hub .redo
      (stepped st.hub .redo i (stepped st.hub .undo k (w.performRounds rounds)))) :
    (∀ i < j, ((stepped st.hub .redo i (stepped st.hub .undo k
        (w.performRounds rounds))).step st.hub .redo).1 = .ok true) ∧
      Steady o unread name st
        (stepped st.hub .redo j (stepped st.hub .undo k (w.performRounds rounds))) ∧
      (stepped st.hub .redo j
        (stepped st.hub .undo k (w.performRounds rounds))).Unrefused st.connection ∧
      (stepped st.hub .redo j (stepped st.hub .undo k (w.performRounds rounds))).core =
        (stepped st.hub .undo (k - j) (w.performRounds rounds)).core := by
  induction j with
  | zero =>
    obtain ⟨hv, huv, -⟩ := h.undone ha hu hk hq
    exact ⟨fun i hi => absurd hi (Nat.not_lt_zero i), hv, huv, rfl⟩
  | succ j ih =>
    obtain ⟨hoks, hv, huv, hsame⟩ :=
      ih (Nat.le_of_succ_le hj) fun i hi => hq' i (Nat.lt_succ_of_lt hi)
    have hlt : k - (j + 1) < k := by omega
    obtain ⟨hw, -, -⟩ := h.undone ha hu (Nat.le_trans (Nat.le_of_lt hlt) hk)
      fun i hi => hq i (Nat.lt_trans hi hlt)
    obtain ⟨-, m, s, id, r, x, hhub, hturns⟩ := h.undo_of_lt ha hu (Nat.lt_of_lt_of_le hlt hk)
      fun i hi => hq i (Nat.lt_of_le_of_lt hi hlt)
    rw [show k - (j + 1) + 1 = k - j by omega] at hturns
    obtain ⟨hok, hv', hlater, hback⟩ :=
      hw.redo hturns hhub hv hsame huv (hq' j (Nat.lt_succ_self j))
    refine ⟨fun i hi => ?_, hv', huv.later hlater, hback⟩
    obtain hi | rfl := Nat.lt_succ_iff_lt_or_eq.mp hi
    · exact hoks i hi
    · exact hok

end Stepped

/-- How some undos and then some redos go through a history of rounds. -/
structure Retraces (w : Workspace) (st : Store) (rounds : List Round) (undos redos : Nat) :
    Prop where
  undoes : ∀ i < undos,
    ((stepped st.hub .undo i (w.performRounds rounds)).step st.hub .undo).1 = .ok true
  back : (stepped st.hub .undo undos (w.performRounds rounds)).core.past =
    (w.performRounds (rounds.take (rounds.length - undos))).core.past
  redoes : ∀ i < redos, ((stepped st.hub .redo i
    (stepped st.hub .undo undos (w.performRounds rounds))).step st.hub .redo).1 = .ok true
  forth : (stepped st.hub .redo redos
      (stepped st.hub .undo undos (w.performRounds rounds))).core.past =
    (w.performRounds (rounds.take (rounds.length - undos + redos))).core.past
  /-- Nothing is left of undos that were all taken back. -/
  same : redos = undos → (stepped st.hub .redo redos
      (stepped st.hub .undo undos (w.performRounds rounds))).core = (w.performRounds rounds).core

/-- The rounds of a store make a linear history, whichever records they are of and
whatever happened before them. As many undos as there were rounds, or fewer, lead
to the past of the state that many rounds ago; as many redos as there were undos,
or fewer, lead forth again; and if as many, then to where the rounds ended. -/
theorem retraces_of_run (hb : Boots w) {actions : List Action} {d : DatabaseRef} {name : String}
    {st : Store} (ha : Follows (Action.Private d) w actions)
    (hst : (name, st) ∈ (w.performAll actions).stores)
    (hc : (w.performAll actions).SoleWriter st.connection d)
    (hd : (w.performAll actions).Prepared st.connection (w.core.database d))
    (hlive : ∀ {m id r i}, m ∈ st.maps.map (·.2) →
      (w.performAll actions).registered? m id = some r →
      (w.performAll actions).records[r]? = some i → ¬Unread w actions r ∧ i.record.Settled)
    {rounds : List Round} (hr : Progresses st (w.performAll actions) rounds) {k j : Nat}
    (hk : k ≤ rounds.length) (hj : j ≤ k)
    (hu : ((w.performAll actions).performRounds rounds).Unrefused st.connection)
    (hq : ∀ i < k, StepsQuietly st.hub .undo
      (stepped st.hub .undo i ((w.performAll actions).performRounds rounds)))
    (hq' : ∀ i < j, StepsQuietly st.hub .redo (stepped st.hub .redo i
      (stepped st.hub .undo k ((w.performAll actions).performRounds rounds)))) :
    (w.performAll actions).Retraces st rounds k j := by
  have htended := tended_of_run hb ha hc hd
  have hserves := htended.holding.stores _ hst
  have hsteady : Steady ((w.performAll actions).outlook st.connection d false) (Unread w actions)
      name st (w.performAll actions) := by
    refine ⟨htended, hst, rfl, fun {m s id r x} hx hhub => ?_⟩
    obtain ⟨map, hmap, hmem⟩ := hx.lists
    obtain ⟨x', hx', hof⟩ := htended.sound.kept hmap hmem
    cases hx.record.symm.trans hx'
    have hm := hserves.all trivial (Core.shape_of_map hmap) (hof.hub.symm.trans hhub)
    obtain ⟨i, hi, rfl⟩ := instance_of_core hx.record
    exact hlive hm (registered_of_lists htended.sound hx.lists) hi
  obtain ⟨-, -, hpast⟩ := hsteady.undone hr hu hk hq
  obtain ⟨hoks, -, -, hsame⟩ := hsteady.redone hr hu hk hj hq hq'
  obtain ⟨-, -, hpast'⟩ :=
    hsteady.undone hr hu (k := k - j) (by omega) fun i hi => hq i (by omega)
  refine ⟨fun i hi => ?_, hpast, hoks, ?_, fun he => ?_⟩
  · exact (hsteady.undo_of_lt hr hu (Nat.lt_of_lt_of_le hi hk)
      fun n hn => hq n (Nat.lt_of_le_of_lt hn hi)).1
  · rw [hsame, hpast', show rounds.length - (k - j) = rounds.length - k + j by omega]
  · subst he
    rw [hsame, Nat.sub_self]
    rfl

/-- A program that saves two records. -/
def twoNotes : List Action :=
  saveTwice.take 4 ++
    [.newRecord "notes" (.ofOrdinal 2) (some "other"), .command "other" .commit]

/-- A change of each. -/
def twoChanges : List Round :=
  [⟨0, [("TITLE", .text "milk")]⟩, ⟨1, [("TITLE", .text "bread")]⟩]

theorem private_twoNotes : Follows (Action.Private 0) {} twoNotes :=
  ⟨⟨rfl, id⟩, ⟨rfl, id⟩, ⟨rfl, id⟩, ⟨rfl, id⟩, ⟨rfl, id⟩, ⟨rfl, id⟩, trivial⟩

theorem settled_twoNotes : ∀ i ∈ (performAll {} twoNotes).records, i.record.Settled := by
  have h : ∀ i ∈ (performAll {} twoNotes).records, i.record.isNew = false ∧
      i.record.deletePending = false ∧ ∀ t ∈ i.record.slots, t.dirty = false := by decide +kernel
  exact fun i hi => ⟨(h i hi).1, (h i hi).2.1, (h i hi).2.2⟩

theorem progresses_twoChanges {st : Store} (hm : st.maps.map (·.2) = [0]) :
    Progresses st (performAll {} twoNotes) twoChanges := by
  refine ⟨⟨⟨0, by rw [hm]; decide, .ofOrdinal 1, by decide +kernel⟩, ⟨?_, trivial⟩, ?_,
    ["TITLE"], by rfl⟩, ⟨⟨0, by rw [hm]; decide, .ofOrdinal 2, by decide +kernel⟩,
    ⟨?_, trivial⟩, ?_, ["TITLE"], by rfl⟩, trivial⟩
  all_goals
    unfold Unanswered
    decide +kernel

/-- Both changes are undone, and one of them is redone. -/
theorem retraces_twoChanges : ∃ st, ("store", st) ∈ (performAll {} twoNotes).stores ∧
    (performAll {} twoNotes).Retraces st twoChanges 2 1 := by
  obtain ⟨st, hst, hc, hh, hm⟩ : ∃ st : Store, (performAll {} twoNotes).stores = [("store", st)] ∧
      st.connection = 0 ∧ st.hub = 0 ∧ st.maps.map (·.2) = [0] :=
    ⟨_, by rfl, by rfl, by rfl, by rfl⟩
  have hmem : ("store", st) ∈ (performAll {} twoNotes).stores := hst ▸ List.mem_singleton_self _
  have hsole : (performAll {} twoNotes).SoleWriter 0 0 :=
    soleWriter_of_single (n := ["TITLE"]) (by decide +kernel) (by decide +kernel) (by decide)
  refine ⟨st, hmem, retraces_of_run boots_empty private_twoNotes hmem (hc ▸ hsole)
    (prepared_empty _ _)
    (fun {_ _ _ i} _ _ hi => ⟨not_unreadFrom (by decide) id,
      settled_twoNotes i (List.mem_of_getElem? hi)⟩)
    (progresses_twoChanges hm) (Nat.le_refl 2) (Nat.le_succ 1) (unrefused_of_outage (by rfl) _)
    (fun i hi => ?_) (fun i hi => ?_)⟩
  · rw [hh]
    unfold StepsQuietly Unanswered
    obtain rfl | rfl : i = 0 ∨ i = 1 := by omega
    · decide +kernel
    · decide +kernel
  · rw [hh]
    unfold StepsQuietly Unanswered
    obtain rfl : i = 0 := by omega
    decide +kernel

end Workspace

end LiveRecords
