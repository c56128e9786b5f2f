import LiveRecords.Proofs.Custody
import LiveRecords.Proofs.Patching
import LiveRecords.Proofs.Tending
import LiveRecords.Proofs.Timelines

/-!
# Chronicles of records

Along a run, a record changes by the commands that the program asks of it, and
by nothing else but its parent: other records may do what they like, and reading
its row brings it nothing new. So its timeline at the end is the one that it had
at the beginning, after those commands.

A record that takes in its row is where this rests on what is stored: the row
has the values that the record takes for stored, so none of its slots changes.
-/

namespace LiveRecords

namespace Record

variable {x : Record}

/-- Slots that hold the values that are stored take in nothing. -/
theorem takeIn_self {ts : List Slot} {vs : List Value}
    (h : ∀ (i : Nat) (t : Slot) (v : Value), ts[i]? = some t → vs[i]? = some v →
      t.dirty = false → t.current = v ∧ t.baseline = v) : takeIn ts vs = (ts, []) := by
  induction ts generalizing vs with
  | nil =>
    unfold takeIn
    rfl
  | cons t ts ih =>
    cases vs with
    | nil =>
      unfold takeIn
      rfl
    | cons v vs =>
      have hrest : takeIn ts vs = (ts, []) :=
        ih fun i u w hu hw => h (i + 1) u w (by simpa using hu) (by simpa using hw)
      have hnews : isNews t v = false := by
        cases hd : t.dirty with
        | true => simp [isNews, hd]
        | false =>
          obtain ⟨hcur, hbase⟩ := h 0 t v rfl rfl hd
          simp [isNews, hcur, hbase]
      unfold takeIn
      rw [hrest, hnews]
      rfl

/-- A record that takes in the row it takes for stored changes its parent at most. -/
theorem hydrate_of_agrees (hx : x.Intact) {image : RowImage}
    (ha : image.Agrees x.schema x.slots) :
    (x.hydrate image).record = { x with parent := image.parent } := by
  have hsame : takeIn x.slots image.values = (x.slots, []) := by
    refine takeIn_self fun i t v ht hv hd => ?_
    have hmem := List.mem_of_getElem? ht
    have hbase := ha t hmem
    rw [value?_of_slot hx (hx.getElem?_slots ht), hv] at hbase
    cases hbase
    exact ⟨(hx.slots t hmem).current_eq hd, rfl⟩
  unfold hydrate
  rw [hsame]
  exact record_setParent x image.parent

end Record

/-- A record in memory with another parent. -/
def Resident.reparent (x : Resident) (parent : Option RecordId) : Resident :=
  { x with record := { x.record with parent } }

/-- A deed that asks nothing of a record, whose listeners do not ask either. -/
def Deed.Shuns (r : RecordRef) : Deed → Prop
  | .command j _ _ => j ≠ r
  | .read _ _ answered => ¬answered r
  | _ => True

namespace Outlook

open LiveRecords.Core

variable {o : Outlook} {apart : RecordRef → Prop} {k k' : Core} {m m' : MapRef} {s : Schema}
  {id : RecordId} {r : RecordRef} {x : Resident}

theorem records_meets {j : RecordRef} {id' : RecordId} {isNew : Bool}
    (h : Meets m' id' isNew j k k') (hx : k.records[r]? = some x) : k'.records[r]? = some x := by
  obtain ⟨map, -, ⟨-, rfl⟩ | ⟨-, -, rfl⟩⟩ := h
  · exact hx
  · rw [records_enrol_of_lt _ _ _ _ _ (lt_of_record hx)]
    exact hx

/-- A record that nobody asks anything of while rows are taken in. -/
theorem Sees.takenIn (hx : o.Sees k m s id r x) (hr : ¬apart r) (hnew : x.record.isNew = false)
    (h : o.Faithful apart k) (ho : o.Sole) (hk : k.Precedes o.last) (hs : k.Sound)
    {answered : RecordRef → Prop} {images : List RowImage} (hd : TakenIn m' answered images k k')
    (hq : ¬answered r) (himg : ∀ {s}, o.Types k m' s → (images.map (·.id)).Nodup ∧
      ∀ y ∈ images, (k.database o.database).image? s y.id = some y) :
    ∃ p, o.Sees k' m s id r (x.reparent p) := by
  induction hd generalizing x with
  | nil _ => exact ⟨x.record.parent, hx⟩
  | @cons image images j y cs k₀ k₁ k₂ k₃ hmeets hy hasked hans _ ih =>
    have h₁ := h.hydrate hs hmeets hy fun ht => (himg ht).2 _ List.mem_cons_self
    obtain ⟨hs₂, hstays⟩ := sound_hydrated hs hmeets hy
    obtain ⟨h₂, -⟩ := h₁.asked ho (hstays.precedes_of hk) hs₂ hasked
    obtain ⟨hs₃, hk₃, hrest⟩ := h.images_rest ho hk hs hmeets hy hasked himg
    have hall : k₀.Stays k₂ := hstays.trans hasked.stays
    have hx₁ := records_meets hmeets hx.record
    obtain ⟨p, hp⟩ : ∃ p, k₂.records[r]? = some (x.reparent p) := by
      by_cases hj : j = r
      · subst hj
        cases hy.symm.trans hx₁
        have hnil : cs = [] := Decidable.byContradiction fun hne => hq (hans hne)
        subst hnil
        cases hasked
        -- the row that is taken in is the one that the record takes for stored
        obtain ⟨rfl, rfl⟩ := (hs.meets hmeets).1.key_unique (hs.meets hmeets).2
          (hmeets.stays.lists hx.lists)
        obtain ⟨y', hy', hagree⟩ := (h.aligned hx hr).stored hnew
        rw [(himg hx.types).2 image List.mem_cons_self] at hy'
        cases hy'
        obtain ⟨-, rfl, -⟩ := hx.of hs
        refine ⟨image.parent, ?_⟩
        rw [records_impose_self hx₁, Record.hydrate_of_agrees (h.intact hx) hagree]
        rfl
      · refine ⟨x.record.parent, ?_⟩
        rw [hasked.records_of_ne (Ne.symm hj), records_impose_of_ne _ (Ne.symm hj)]
        exact hx₁
    exact ih (x := x.reparent p) ⟨hx.types.ahead hall.precedes, hall.lists hx.lists, hp⟩ hnew h₂
      hk₃ hs₃ hrest

/-- A deed that asks nothing of a record leaves it, up to its parent. -/
theorem Sees.does (hx : o.Sees k m s id r x) (hr : ¬apart r) (hnew : x.record.isNew = false)
    (h : o.Faithful apart k) (ho : o.Sole) (hs : k.Sound) {d : Deed} (hd : Does d k k')
    (hk' : k'.Precedes o.last) (hq : d.Shuns r) (hl : k'.Lists m id r) :
    ∃ p, o.Sees k' m s id r (x.reparent p) := by
  have htypes := hx.types.ahead hd.precedes
  have hsame : k'.records[r]? = k.records[r]? → ∃ p, o.Sees k' m s id r (x.reparent p) :=
    fun he => ⟨x.record.parent, htypes, hl, he.trans hx.record⟩
  -- only a new parent is imposed on a record
  have hparent : ∀ {k₁ : Core} {j : RecordRef} {y : Resident} {p : Option RecordId},
      k₁.records = k.records → k₁.records[j]? = some y → k' = k₁.impose j (y.record.setParent p) →
      ∃ p, o.Sees k' m s id r (x.reparent p) := by
    rintro k₁ j y p he hy rfl
    by_cases hj : j = r
    · subst hj
      have hy' := hy
      rw [he, hx.record] at hy'
      cases hy'
      refine ⟨p, htypes, hl, ?_⟩
      rw [records_impose_self hy, Record.record_setParent]
      rfl
    · refine hsame ?_
      rw [records_impose_of_ne _ (Ne.symm hj), he]
  cases d with
  | command j c reply => exact hsame (Commands.records_of_ne hd (Ne.symm hq))
  | read m' images answered =>
    obtain ⟨map, hm, hreads, htaken⟩ := hd
    have hk := htaken.stays.precedes.trans hk'
    exact hx.takenIn hr hnew h ho hk hs htaken hq fun ht => h.images ho hk hs hm hreads ht
  | enrol m' id' isNew =>
    obtain ⟨map, hm, hid, rfl⟩ := hd
    exact hsame (records_enrol_of_lt _ _ _ _ _ (lt_of_record hx.record))
  | place j parent =>
    obtain ⟨y, hy, -, he⟩ := hd
    exact hparent rfl hy he
  | adopt m' j parent =>
    obtain ⟨map, y, l, -, hy, -, -, -, he⟩ := hd
    exact hparent (setDatabase_records _ _ _) ((setDatabase_records k _ _).symm ▸ hy) he
  | free m' j =>
    obtain ⟨map, y, l, -, -, -, -, rfl⟩ := hd
    refine hsame ?_
    split
    · rw [setDatabase_records]
      rfl
    · rfl
  | ground =>
    obtain ⟨n, cs, i, -, rfl⟩ := hd
    exact hsame rfl
  | addMap s' c i =>
    obtain ⟨l, -, -, -, -, -, rfl⟩ := hd
    refine hsame ?_
    show (k.setDatabase c _).records[r]? = _
    rw [setDatabase_records]
  | foreign d =>
    obtain ⟨y, rfl⟩ := hd
    exact hsame rfl

/-- Deeds that ask nothing of a record leave it, up to its parent. -/
theorem Sees.course (hx : o.Sees k m s id r x) (hr : ¬apart r) (hnew : x.record.isNew = false)
    (h : o.Faithful apart k) (ho : o.Sole) (hs : k.Sound) {ds : List Deed}
    (hd : Course (fun d k => o.Orderly apart d k ∧ d.Shuns r) ds k k')
    (hk' : k'.Precedes o.last) (hl : k'.Lists m id r) :
    ∃ p, o.Sees k' m s id r (x.reparent p) := by
  induction hd generalizing x with
  | nil _ => exact ⟨x.record.parent, hx⟩
  | @cons d ds k₀ k₁ k₂ hd hrest ih =>
    have hk₁ := (Course.precedes hrest).trans hk'
    have hadds : k₁.Adds k₂ :=
      Chain.preserves (P := k₁.Adds) (fun hd hk => hk.trans hd.2.adds) hrest (.refl _)
    have hlt := Nat.lt_of_lt_of_le (lt_of_record hx.record) hd.2.adds.records
    obtain ⟨p, hp⟩ := hx.does hr hnew h ho hs hd.2 hk₁ hd.1.2 (hadds.lists hlt hl)
    exact ih (x := x.reparent p) hp hnew (h.does ho hs hd.1.1 hd.2 hk₁) (hs.does hd.2) hk' hl

end Outlook

namespace Workspace

open LiveRecords.Core

variable {w : Workspace} {o : Outlook} {apart : RecordRef → Prop} {a : Action} {m : MapRef}
  {s : Schema} {id : RecordId} {r : RecordRef} {x : Resident} {c : Record.Command}

/-! ## What is asked of a record -/

/-- The command that an action asks of a record: under a name, through the tracks
of a store, or through a view. -/
def Action.asks (w : Workspace) (r : RecordRef) : Action → Option Record.Command
  | .stepAll store t => (w.stores.lookup store).bind fun s =>
      if ((w.coordinatorOf s.hub).entries t).head? = some r then some (.replay t) else none
  | .command record c => if w.handle? record = some r then some c else none
  | .setData view n (.field field) v => (w.viewNames.lookup view).bind fun u =>
      match (w.recordAt u n).1 with
      | .ok j => if j = r then some (.set field v) else none
      | .error _ => none
  | .commitStaging view _ =>
      if ((w.viewNames.lookup view).bind fun v => (w.views[v]?).bind (·.staging)) = some r then
        some .commit
      else none
  | _ => none

/-- The commands that a run asks of a record. -/
def commandsOn (r : RecordRef) : Workspace → List Action → List Record.Command
  | _, [] => []
  | w, a :: actions => (a.asks w r).toList ++ commandsOn r (w.perform a).2 actions

/-- A private action that asks of a record at most what its timeline follows.
The listeners of the record ask nothing. -/
structure Action.Respects (d : DatabaseRef) (r : RecordRef) (w : Workspace) (a : Action) :
    Prop where
  isPrivate : a.Private d w
  quiet : w.armed r = 0
  asks : ∀ {c i}, a.asks w r = some c → w.records[r]? = some i →
    c.Tracks i.record (w.run r c).1

/-- An action that asks nothing of a record does not address it, or does nothing. -/
theorem not_addresses_of_asks (hq : w.armed r = 0) (hn : a.asks w r = none) :
    ¬a.Addresses w r ∨ (w.perform a).2 = w := by
  rw [Classical.or_iff_not_imp_left, Classical.not_not]
  intro hadd
  cases a with
  | stepAll store t =>
    obtain ⟨s, rest, hs, he⟩ := hadd
    rw [Action.asks, hs, Option.bind_some, he, List.head?_cons, if_pos rfl] at hn
    cases hn
  | command record c =>
    have hh : w.handle? record = some r := hadd
    rw [Action.asks, if_pos hh] at hn
    cases hn
  | addChild map parent child => exact absurd hadd.2 (hq ▸ Nat.lt_irrefl 0)
  | removeChild map child => exact absurd hadd.2 (hq ▸ Nat.lt_irrefl 0)
  | setData view n role v =>
    obtain ⟨u, hu, hr⟩ := hadd
    cases role with
    | field field =>
      rw [Action.asks, hu, Option.bind_some, hr] at hn
      dsimp only at hn
      rw [if_pos rfl] at hn
      cases hn
    | children =>
      rw [perform, withView, hu]
      rfl
    | record =>
      rw [perform, withView, hu]
      rfl
  | createStaging view key as =>
    obtain ⟨v, y, -, -, -, hpos⟩ := hadd
    exact absurd hpos (hq ▸ Nat.lt_irrefl 0)
  | commitStaging view as =>
    obtain ⟨v, hv, hst⟩ := hadd
    rw [Action.asks, hv, Option.bind_some, if_pos hst] at hn
    cases hn
  | _ => exact hadd.elim

theorem Action.May.shuns {d : Deed} {k : Core} (h : a.May w d k) (hq : w.armed r = 0)
    (hn : ¬a.Addresses w r) : d.Shuns r := by
  cases h with
  | read hans => exact fun hr => absurd (hans r hr) (hq ▸ Nat.lt_irrefl 0)
  | command hadd => exact fun he => hn (he ▸ hadd)
  | _ => trivial

/-- An action that asks nothing of a record leaves it, up to its parent. -/
theorem Tended.perform_leaves (h : Tended o apart w) (hx : o.Sees w.core m s id r x)
    (hr : ¬apart r) (hnew : x.record.isNew = false) (ha : a.Upholds o apart w)
    (hq : w.armed r = 0) (hn : a.asks w r = none)
    (hlast : (w.perform a).2.core.Precedes o.last) (hl : (w.perform a).2.core.Lists m id r) :
    ∃ p, o.Sees (w.perform a).2.core m s id r (x.reparent p) := by
  obtain hadd | hsame := not_addresses_of_asks hq hn
  · obtain ⟨⟨ds, hc⟩, -⟩ := perform_acts h.sound h.holding (.of_sharesHub ha.sharesHub)
    have hshuns : Course (fun d k => o.Orderly apart d k ∧ d.Shuns r) (ds.map fun d => d) w.core
        (w.perform a).2.core :=
      Chain.map (fun hd => ⟨⟨ha.orderly hd.1 hd.2, hd.1.shuns hq hadd⟩, hd.2⟩) hc
    exact hx.course hr hnew h.faithful h.sole h.sound hshuns hlast hl
  · rw [hsame]
    exact ⟨x.record.parent, hx⟩

/-- What is left after a staged record was committed is the matter of its view. -/
theorem core_commitStaging {v : ViewRef} (hst : (w.views[v]?).bind (·.staging) = some r) :
    (w.commitStaging v).2.core = (w.run r .commit).2.core := by
  unfold commitStaging
  rw [hst]
  dsimp only
  split
  · next hq => rw [hq]
  · next w₁ hq =>
    rw [hq]
    have hmore : (fetchMore v (w₁.setView v fun view =>
        { view with staging := none, window := { view.window with atEnd := false } })).2.core =
        w₁.core := (fetchMore_idle v _).1
    split
    · next hq' => rw [hq'] at hmore; exact hmore
    · next hq' =>
      rw [hq'] at hmore
      exact (still_announceView v _ _).1.trans hmore

/-- What is left after a row was edited through a view is the matter of the view. -/
theorem core_setData {v : ViewRef} {n : Nat} {field : String} {value : Value}
    (hr : (w.recordAt v n).1 = .ok r) :
    (w.setData v n (.field field) value).2.core =
      ((w.recordAt v n).2.run r (.set field value)).2.core := by
  unfold setData
  dsimp only
  split
  · next hq => rw [hq] at hr; cases hr
  · next j w₁ hq =>
    rw [hq] at hr
    cases hr
    rw [hq]
    split
    · next hq' => rw [hq']
    · next hq' => rw [hq']; exact (still_announceView v _ _).1
    · next hq' => rw [hq']

/-- An action that asks a command of a record has it carried out, once the row of
the record was read where the action asks through a view. -/
theorem perform_asks {P : Deed → Core → Prop} (hs : w.core.Sound) (hw : Holding True w)
    (hl : w.core.Listed r) (hq : w.armed r = 0)
    (hreads : ∀ m images answered k, ¬answered r → P (.read m images answered) k)
    (hc : a.asks w r = some c) :
    ∃ k reply, (∃ ds, Course P ds w.core k) ∧ Commands r c reply k (w.perform a).2.core ∧
      ((∀ y reply', c.Tracks y reply') ∨ k = w.core ∧ reply = (w.run r c).1) := by
  -- the command as it is carried out where nothing is read before
  have hrun : (w.perform a).2.core = (w.run r c).2.core →
      ∃ k reply, (∃ ds, Course P ds w.core k) ∧ Commands r c reply k (w.perform a).2.core ∧
        ((∀ y reply', c.Tracks y reply') ∨ k = w.core ∧ reply = (w.run r c).1) := by
    intro hcore
    obtain ⟨i, hi⟩ := instance_of_listed hs hl
    obtain ⟨hcom, -⟩ := Workspace.run_unanswered hi hl (unanswered_of_armed hi hl hq c)
    exact ⟨w.core, _, ⟨[], .nil _⟩, hcore ▸ hcom, .inr ⟨rfl, rfl⟩⟩
  cases a with
  | stepAll store t =>
    rw [Action.asks] at hc
    obtain ⟨st, hst, hc⟩ := Option.bind_eq_some_iff.mp hc
    split at hc
    · next hhead =>
      cases hc
      obtain ⟨rest, he⟩ := List.head?_eq_some_iff.mp hhead
      refine hrun ?_
      rw [perform, withStore, hst]
      dsimp only
      rw [snd_answer, step_of_cons hs hw (mem_of_lookup hst) he]
    · cases hc
  | command record c' =>
    rw [Action.asks] at hc
    split at hc
    · next hh =>
      cases hc
      refine hrun ?_
      rw [perform, withRecord, hh]
      dsimp only
      rw [snd_answer]
    · cases hc
  | setData view n role v =>
    cases role with
    | field field =>
      rw [Action.asks] at hc
      obtain ⟨u, hu, hc⟩ := Option.bind_eq_some_iff.mp hc
      split at hc
      · next j hj =>
        split at hc
        · next he =>
          cases hc
          subst he
          have hlets : LetsRead P w := fun m images answered k hans =>
            hreads m images answered k fun ha => absurd (hans j ha) (hq ▸ Nat.lt_irrefl 0)
          obtain ⟨hacts, ⟨-, harmed⟩, hl'⟩ := recordAt_acts hs hw (.of_lookup hu) n hlets
          have hlj := hl' j hj
          obtain ⟨i, hi⟩ := instance_of_listed (hacts.sound hs) hlj
          have hq' : (w.recordAt u n).2.armed j = 0 := Nat.le_zero.mp (hq ▸ harmed j)
          obtain ⟨hcom, -⟩ := Workspace.run_unanswered hi hlj
            (unanswered_of_armed hi hlj hq' (.set field v))
          have hcore : (w.perform (.setData view n (.field field) v)).2.core =
              ((w.recordAt u n).2.run j (.set field v)).2.core := by
            rw [perform, withView, hu]
            dsimp only
            rw [snd_answer, core_setData hj]
          exact ⟨_, _, hacts.1, hcore ▸ hcom, .inl fun _ _ => trivial⟩
        · cases hc
      · cases hc
    | children => cases hc
    | record => cases hc
  | commitStaging view as =>
    rw [Action.asks] at hc
    split at hc
    · next hst =>
      cases hc
      obtain ⟨v, hv, hst⟩ := Option.bind_eq_some_iff.mp hst
      refine hrun ?_
      rw [perform, withView, hv]
      dsimp only
      rw [core_answerHeld, core_commitStaging hst]
    · cases hc
  | _ => cases hc

/-! ## Runs -/

/-- One action does to the timeline of a record what it asks of the record. -/
theorem Tended.perform_timeline (h : Tended o apart w) (hx : o.Sees w.core m s id r x)
    (hr : ¬apart r) (ht : x.record.Tracked) (ha : a.Upholds o apart w) (hq : w.armed r = 0)
    (hasks : ∀ {c}, a.asks w r = some c → c.Tracks x.record (w.run r c).1)
    (hlast : (w.perform a).2.core.Precedes o.last) (hl : (w.perform a).2.core.Lists m id r) :
    ∃ x', o.Sees (w.perform a).2.core m s id r x' ∧ x'.record.Tracked ∧
      x'.record.timeline = (a.asks w r).toList.foldl (Timeline.step s) x.record.timeline := by
  cases hc : a.asks w r with
  | none =>
    obtain ⟨p, hp⟩ := h.perform_leaves hx hr ht.isNew ha hq hc hlast hl
    exact ⟨x.reparent p, hp, ⟨ht.isNew, ht.deletePending, ht.edited⟩, rfl⟩
  | some c =>
    obtain ⟨k, reply, ⟨ds, hreads⟩, hcom, htracks⟩ :=
      perform_asks (P := fun d k => o.Orderly apart d k ∧ d.Shuns r) h.sound h.holding
        ⟨m, id, hx.lists⟩ hq (fun _ _ _ _ ha => ⟨trivial, ha⟩) hc
    have hahead := (Course.precedes hreads).trans hcom.stays.precedes
    have hk := hcom.stays.precedes.trans hlast
    have hlk := hl.of_maps hcom.maps.symm
    obtain ⟨p, hp⟩ := hx.course hr ht.isNew h.faithful h.sole h.sound hreads hk hlk
    have horderly : Course (o.Orderly apart) (ds.map fun d => d) w.core k :=
      Chain.map (fun hd => ⟨hd.1.1, hd.2⟩) hreads
    have hfaithful := h.faithful.course h.sole h.sound horderly hk
    have hsound := h.sound.course horderly
    obtain ⟨-, hschema, -⟩ := hp.of hsound
    obtain ⟨y, l, hy, -, -, hreply, hcore⟩ := hcom
    cases hy.symm.trans hp.record
    have hrun : c.Tracks (x.reparent p).record ((x.reparent p).record.run l c).1.1 := by
      rw [hreply]
      obtain hall | ⟨rfl, rfl⟩ := htracks
      · exact hall _ _
      · have hsame := hp.record
        rw [hx.record] at hsame
        rw [← Option.some.inj hsame]
        exact hasks hc
    obtain ⟨htimeline, htracked⟩ := Record.timeline_run (hfaithful.intact hp)
      (x := (x.reparent p).record) ⟨ht.isNew, ht.deletePending, ht.edited⟩ hrun
    refine ⟨{ x.reparent p with record := ((x.reparent p).record.run l c).1.2.record }, ?_,
      htracked, ?_⟩
    · refine ⟨hx.types.ahead hahead, hl, ?_⟩
      rw [hcore]
      exact records_impose_self (by rw [setDatabase_records]; exact hy) _
    · rw [htimeline, hschema]
      rfl

/-- A run does to the timeline of a record what it asks of the record. -/
theorem Tended.performAll_timeline {actions : List Action} (h : Tended o apart w)
    (hb : o.strict = false) (hapart : ∀ j, w.records.length ≤ j → apart j)
    (hx : o.Sees w.core m s id r x) (hr : ¬apart r) (ht : x.record.Tracked)
    (ha : Follows (Action.Respects o.database r) w actions)
    (hlast : (w.performAll actions).core.Precedes o.last)
    (hl : (w.performAll actions).core.Lists m id r) :
    Tended o apart (w.performAll actions) ∧
      ∃ x', o.Sees (w.performAll actions).core m s id r x' ∧ x'.record.Tracked ∧
        x'.record.timeline = (commandsOn r w actions).foldl (Timeline.step s)
          x.record.timeline := by
  induction actions generalizing w x with
  | nil => exact ⟨h, x, hx, ht, rfl⟩
  | cons a actions ih =>
    obtain ⟨hprivate, hq, hasks⟩ := ha.1
    have hupholds : a.Upholds o apart w := hprivate.upholds hb fun j hj => by
      cases a with
      | withId map key as =>
        obtain ⟨m', -, -, rfl⟩ := hj
        exact hapart _ (Nat.le_refl _)
      | _ => exact hj.elim
    have hsuits : a.Suits True := .of_sharesHub hprivate.sharesHub
    have hrest : Follows (fun _ a => a.Suits True) (w.perform a).2 actions :=
      ha.2.mono fun hd => .of_sharesHub hd.isPrivate.sharesHub
    have hacts := perform_acts h.sound h.holding hsuits
    have hadds := perform_adds h.sound h.holding hsuits
    have hadds' := hrest.adds (hacts.sound h.sound) hacts.2
    have hfirst : (w.perform a).2.core.Precedes o.last :=
      (performAll_precedes (fun hd => .of_sharesHub hd.isPrivate.sharesHub) ha.2
        (hacts.sound h.sound) hacts.2).trans hlast
    have hlists := hadds'.lists
      (Nat.lt_of_lt_of_le (lt_of_record hx.record) hadds.records) hl
    have hlength : w.records.length ≤ (w.perform a).2.records.length := by
      simpa [core] using hadds.records
    obtain ⟨x₁, hx₁, ht₁, htimeline⟩ := h.perform_timeline hx hr ht hupholds hq
      (fun hc => by
        obtain ⟨i, hi, rfl⟩ := instance_of_core hx.record
        exact hasks hc hi) hfirst hlists
    obtain ⟨htended, x', hx', ht', hall⟩ := ih (h.performed hupholds hfirst)
      (fun j hj => hapart j (Nat.le_trans hlength hj)) hx₁ ht₁ ha.2 hlast hl
    refine ⟨htended, x', hx', ht', ?_⟩
    rw [hall, htimeline, commandsOn, List.foldl_append]

/-- The values of a row are those that an aligned record takes for stored. -/
theorem values_of_agrees {y : Record} (hy : y.Intact) {image : RowImage}
    (hi : image.Fits y.schema) (ha : image.Agrees y.schema y.slots) :
    image.values = y.committed.map (·.2) := by
  refine List.ext_getElem? fun i => ?_
  rw [Record.committed, List.map_map, List.getElem?_map]
  cases ht : y.slots[i]? with
  | none =>
    rw [Option.map_none, List.getElem?_eq_none_iff, hi.length, ← hy.fields, List.length_map]
    exact List.getElem?_eq_none_iff.mp ht
  | some t =>
    have hbase := ha t (List.mem_of_getElem? ht)
    rw [Record.value?_of_slot hy (hy.getElem?_slots ht)] at hbase
    exact hbase

/-- A record and its row are as a timeline has them. -/
structure Chronicled (w : Workspace) (c : ConnectionRef) (x : Record) (t : Timeline) : Prop where
  committed : x.committed = t.present
  values : x.values = t.draft
  undo : x.depth .undo = t.past.length
  redo : x.depth .redo = t.future.length
  stored : ∃ image, (w.databaseOf c).image? x.schema x.id = some image ∧
    image.values = t.present.map (·.2)

theorem Tended.chronicled (h : Tended o apart w) (hx : o.Sees w.core m s id r x) (hr : ¬apart r)
    (hnew : x.record.isNew = false) : Chronicled w o.connection x.record x.record.timeline := by
  obtain ⟨rfl, rfl, -⟩ := hx.of h.sound
  have hintact := h.faithful.intact hx
  obtain ⟨image, himage, hagree⟩ := (h.faithful.aligned hx hr).stored hnew
  obtain ⟨es, hes, hstored⟩ := h.holds hx.types
  rw [← h.databaseOf hx.types] at himage
  have hfits := hes.shelf.stored_fits ((hstored _).symm.trans himage)
  exact ⟨rfl, rfl, (Record.length_timeline _).1.symm, (Record.length_timeline _).2.symm, image,
    himage, values_of_agrees hintact hfits hagree⟩

/-- Along every run that leaves a database to the records of its connection,
whatever other records do and whatever fails for them: a record whose row was
written or read is, in every state that follows, and so is its row, as its
timeline has them after the commands that the run asked of it. -/
theorem chronicled_of_run (hb : Boots w) {before after : List Action} {c : ConnectionRef}
    {d : DatabaseRef} (ha : Follows (Action.Private d) w before)
    (hafter : Follows (Action.Respects d r) (w.performAll before) after)
    (hc : (w.performAll (before ++ after)).SoleWriter c d)
    (hd : (w.performAll (before ++ after)).Prepared c (w.core.database d)) {i j : Instance}
    (hi : (w.performAll before).Finds c s id r i) (hread : ¬Unread w before r)
    (ht : i.record.Tracked) (hj : (w.performAll (before ++ after)).Finds c s id r j) :
    Chronicled (w.performAll (before ++ after)) c j.record
      ((commandsOn r (w.performAll before) after).foldl (Timeline.step s) i.record.timeline) := by
  rw [performAll_append] at hc hd hj ⊢
  have hsuits : Follows (fun _ a => a.Suits True) (w.performAll before) after :=
    hafter.mono fun h => .of_sharesHub h.isPrivate.sharesHub
  obtain ⟨hs, hw⟩ := ha.good (fun h => .of_sharesHub h.sharesHub) hb.sound hb.holding
  have hlast := performAll_precedes (fun h => .of_sharesHub h.isPrivate.sharesHub) hafter hs hw
  have htended := tended_within hb (hc.sole false) rfl ha (hb.faithful hd) hlast
  obtain ⟨m, hx⟩ := Finds.sees
    (o := ((w.performAll before).performAll after).outlook c d false) hi
  obtain ⟨m', hx'⟩ := Finds.sees
    (o := ((w.performAll before).performAll after).outlook c d false) hj
  have hlt := (List.getElem?_eq_some_iff.mp hi.record).1
  -- whatever is made from here on is set apart, like what is unread by now
  have hwide : Tended (((w.performAll before).performAll after).outlook c d false)
      (fun j => Unread w before j ∨ (w.performAll before).records.length ≤ j)
      (w.performAll before) :=
    ⟨hs, hw, hc.sole false, hlast, htended.faithful.mono fun _ => .inl⟩
  have hr : ¬(Unread w before r ∨ (w.performAll before).records.length ≤ r) :=
    fun h => h.elim hread (Nat.not_le_of_lt hlt)
  obtain ⟨rfl, -⟩ := hs.key_unique
    ((hsuits.adds hs hw).lists (Core.lt_of_record hx.record) hx'.lists) hx.lists
  obtain ⟨hend, x, hsees, ht', htimeline⟩ := hwide.performAll_timeline rfl (fun _ => .inr) hx hr
    ht hafter (.refl _) hx'.lists
  cases hx'.record.symm.trans hsees.record
  exact htimeline ▸ hend.chronicled hsees hr ht'.isNew

/-- A change of a saved record that is committed, undone and redone, the last by
way of the store. -/
def thereAndBack : List Action :=
  [.command "note" (.set "TITLE" (.text "milk")), .command "note" .commit,
    .command "note" (.replay .undo), .stepAll "store" .redo]

theorem respects_of_asks {d : DatabaseRef} (hp : a.Private d w) (hq : w.armed r = 0)
    (hc : a.asks w r = some c) {i : Instance} (hi : w.records[r]? = some i)
    (ht : c.Tracks i.record (w.run r c).1) : a.Respects d r w := by
  refine ⟨hp, hq, fun hc' hi' => ?_⟩
  cases hc.symm.trans hc'
  cases hi.symm.trans hi'
  exact ht

theorem respects_thereAndBack :
    Follows (Action.Respects 0 0) (performAll {} (saveTwice.take 4)) thereAndBack := by
  have hat : ∀ n,
      (h : 0 < (performAll {} (saveTwice.take 4 ++ thereAndBack.take n)).records.length) →
      (performAll {} (saveTwice.take 4 ++ thereAndBack.take n)).records[0]? = some _ :=
    fun n h => List.getElem?_eq_getElem h
  refine ⟨respects_of_asks (c := .set "TITLE" (.text "milk")) ⟨rfl, id⟩ (by rfl) (by rfl)
      (hat 0 (by decide)) trivial,
    respects_of_asks (c := .commit) ⟨rfl, id⟩ (by rfl) (by rfl) (hat 1 (by decide)) ⟨_, by rfl⟩,
    respects_of_asks (c := .replay .undo) ⟨rfl, id⟩ (by rfl) (by rfl) (hat 2 (by decide))
      ⟨?_, _, by rfl⟩,
    respects_of_asks (c := .replay .redo) ⟨rfl, id⟩ (by rfl) (by rfl) (hat 3 (by decide))
      ⟨?_, _, by rfl⟩, trivial⟩
  · unfold Record.Unedited
    decide +kernel
  · unfold Record.Unedited
    decide +kernel

/-- Before the commands the record is saved with nothing to replay, and its
timeline after them has the change committed again, with one before it. -/
theorem finds_before_thereAndBack : ∃ i,
    (performAll {} (saveTwice.take 4)).Finds 0 notes (.ofOrdinal 1) 0 i ∧ i.record.Tracked ∧
    (commandsOn 0 (performAll {} (saveTwice.take 4)) thereAndBack).foldl (Timeline.step notes)
      i.record.timeline =
        { past := [[("TITLE", .text "")]], present := [("TITLE", .text "milk")]
          draft := [("TITLE", .text "milk")], future := [] } :=
  ⟨_, ⟨⟨0, _, List.getElem?_eq_getElem (by decide +kernel), by decide +kernel,
      by decide +kernel, by decide +kernel⟩, List.getElem?_eq_getElem (by decide +kernel)⟩,
    ⟨by decide +kernel, by decide +kernel, .inr (by decide +kernel)⟩, by decide +kernel⟩

theorem finds_after_thereAndBack : ∃ j,
    (performAll {} (saveTwice.take 4 ++ thereAndBack)).Finds 0 notes (.ofOrdinal 1) 0 j :=
  ⟨_, ⟨0, _, List.getElem?_eq_getElem (by decide +kernel), by decide +kernel,
    by decide +kernel, by decide +kernel⟩, List.getElem?_eq_getElem (by decide +kernel)⟩

/-- After the redo the change is committed again, and can be undone. -/
theorem chronicled_thereAndBack : ∃ j,
    (performAll {} (saveTwice.take 4 ++ thereAndBack)).Finds 0 notes (.ofOrdinal 1) 0 j ∧
    Chronicled (performAll {} (saveTwice.take 4 ++ thereAndBack)) 0 j.record
      { past := [[("TITLE", .text "")]], present := [("TITLE", .text "milk")]
        draft := [("TITLE", .text "milk")], future := [] } := by
  obtain ⟨i, hi, ht, htimeline⟩ := finds_before_thereAndBack
  obtain ⟨j, hj⟩ := finds_after_thereAndBack
  have hread : ¬Unread {} (saveTwice.take 4) 0 := not_unreadFrom (by decide) id
  have h := chronicled_of_run boots_empty (private_saveTwice.take 4) respects_thereAndBack
    (soleWriter_of_single (n := ["TITLE"]) (by decide +kernel) (by decide +kernel) (by decide))
    (prepared_empty _ _) hi hread ht hj
  exact ⟨j, hj, htimeline ▸ h⟩

end Workspace

end LiveRecords
