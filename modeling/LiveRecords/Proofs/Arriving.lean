import LiveRecords.Proofs.Belonging
import LiveRecords.Proofs.Cancelling
import LiveRecords.Proofs.Heralding
import LiveRecords.Proofs.Showing
import LiveRecords.Proofs.Windowing

/-!
# Saved records come into view

A view that saves the record in its staging place reads one page on, from as many
rows down as it has rows in view. The new row is selected, but the page has it only
where it stands as many rows down as that: where rows above it went, it stands too
high for the page. So a row of the view resolves to the record that was saved
exactly if that page has its key, or the view had read the key before.
-/

namespace LiveRecords

/-! ## Records that are saved -/

namespace Record

variable {x : Record} {l : Link}

/-- No command gives a record another parent. -/
theorem run_parent (x : Record) (l : Link) (c : Command) :
    (x.run l c).1.2.record.parent = x.parent := by
  cases c with
  | set field v =>
    show (x.set field v).2.record.parent = x.parent
    obtain ⟨hsame, -⟩ | ⟨t, -, -, -, -, hset⟩ := x.set_cases field v
    · rw [hsame]
      rfl
    · rw [hset]
      rfl
  | discard field =>
    show (x.discard field).2.record.parent = x.parent
    obtain hsame | ⟨t, -, -, hdiscard⟩ := x.discard_cases field
    · rw [hsame]
      rfl
    · rw [hdiscard]
      rfl
  | discardAll => rfl
  | stageDelete =>
    show x.stageDelete.record.parent = x.parent
    unfold Record.stageDelete
    split <;> rfl
  | commit =>
    show (x.commit l).1.2.record.parent = x.parent
    unfold Record.commit
    split
    · unfold commitRow
      split <;> rfl
    · unfold commitFields
      dsimp only
      split <;> rfl
  | replay t =>
    show (x.replay t l).1.2.record.parent = x.parent
    cases hs : x.stack t with
    | nil =>
      rw [replay_nil hs]
      rfl
    | cons c older =>
      simp only [Record.replay, hs]
      cases t <;> rfl

theorem keeps_parent (c : Command) (p : Option RecordId) : c.Keeps (·.parent = p) :=
  fun x l h => (x.run_parent l c).trans h

/-- A commit that succeeds leaves no new record. -/
theorem commit_stores {reply : Reply} (h : (x.run l .commit).1.1 = .ok reply) :
    (x.run l .commit).1.2.record.Stored := by
  cases hnew : x.isNew with
  | false => exact run_stored hnew .commit
  | true =>
    obtain ⟨o, ho, -⟩ := map_eq_ok.mp (show Reply.committed <$> (x.commit l).1.1 = .ok reply from h)
    show (x.commit l).1.2.record.isNew = false
    unfold Record.commit at ho ⊢
    rw [hnew] at ho ⊢
    simp only [Bool.true_or, if_true] at ho ⊢
    unfold commitRow at ho ⊢
    split at ho
    · cases ho
    · rfl

end Record

/-! ## The page that follows -/

/-- A window that shows all it has read and reads on reads the rows that follow it. -/
theorem Window.Filled.prefetch_next {x : Window} {s : Schema} {l : Link} {ids : List RecordId}
    {es : List ViewEvent} (h : x.Filled) (hopen : x.atEnd = false)
    (hids : ids.length < maxCount)
    (hpages : ∀ {offset limit page}, (l.selectKeys s x.filter offset limit).1 = .ok page →
      page = (ids.drop offset).take limit)
    (hok : (x.prefetch s x.nextTarget l).1.1 = .ok es) :
    (x.prefetch s x.nextTarget l).1.2.keys =
      x.keys ++ (ids.drop x.keys.length).take x.fetchSize := by
  have hbottom : x.bottom = x.keys.length := h
  have hnext : x.nextTarget = min (x.keys.length + x.fetchSize) maxCount := by
    rw [nextTarget, hbottom]
  unfold Window.prefetch at hok ⊢
  split at hok
  · next hstop =>
    -- No more rows are asked for, or none are left that could be counted.
    have hle : x.nextTarget ≤ x.bottom := by simpa [hopen] using hstop
    have hnone : (ids.drop x.keys.length).take x.fetchSize = [] := by
      rw [← List.length_eq_zero_iff, List.length_take, List.length_drop]
      omega
    rw [if_pos hstop, hnone, List.append_nil]
  · next hgo =>
    rw [if_neg hgo]
    split at hok
    · cases hok
    · next keys l' hseek =>
      have hlt : x.keys.length < x.nextTarget := by
        simp only [Bool.or_eq_true, decide_eq_true_eq, not_or, Nat.not_le] at hgo
        omega
      obtain ⟨page, rfl, hpage⟩ := Workspace.seek_eq_ok (congrArg Prod.fst hseek)
      obtain ⟨hle, -⟩ | hpage := hpage
      · omega
      show x.keys ++ page = _
      rw [hpages hpage]
      congr 1
      refine List.take_eq_take_iff.mpr ?_
      rw [List.length_drop]
      omega

/-- A view of the rows of a type below a key. New records in it get that parent. -/
structure View.IsBelow (x : View) (s : Schema) (column : String) (p : RecordId) : Prop where
  named : s.parentColumn = some column
  filter : x.window.filter = Workspace.childFilter column p
  parent : x.parent = some p

/-- The view with an empty staging place, which reads on. -/
def View.emptied (x : View) : View :=
  { x with staging := none, window := { x.window with atEnd := false } }

/-! ## Records that are staged -/

namespace Workspace

open LiveRecords.Core

variable {w w' : Workspace} {o : Outlook} {unread : RecordRef → Prop} {m : MapRef} {s : Schema}
  {id : RecordId} {r : RecordRef} {v : ViewRef} {x : View} {c : ConnectionRef} {d : DatabaseRef}
  {a : Action}

/-- Who was unread after a run was made by then. -/
theorem lt_of_unreadFrom {actions : List Action} (ha : Follows (fun _ a => a.Suits True) w actions)
    (hs : w.core.Sound) (hw : Holding True w) (hmade : ∀ r, unread r → r < w.records.length)
    (h : unreadFrom unread w actions r) : r < (w.performAll actions).records.length := by
  induction actions generalizing w unread with
  | nil => exact hmade r h
  | cons a actions ih =>
    have hacts := perform_acts hs hw ha.1
    refine ih ha.2 (hacts.sound hs) hacts.2 (fun j hj => ?_) h
    obtain hj | ⟨hj, -⟩ := hj
    · obtain ⟨y, hy, -⟩ := has_of_makesUp hw hj
      obtain ⟨i, hi, -⟩ := instance_of_core hy
      exact (List.getElem?_eq_some_iff.mp hi).1
    · have hle := (perform_adds hs hw ha.1).records
      simp only [core, List.length_map] at hle
      exact Nat.lt_of_lt_of_le (hmade j hj) hle

/-- A record that was made and is not unread stays so: only records that are made
become unread. -/
theorem not_unreadFrom_of_lt {actions : List Action}
    (ha : Follows (fun _ a => a.Suits True) w actions) (hs : w.core.Sound)
    (hw : Holding True w) (hlt : r < w.records.length) (hr : ¬unread r) :
    ¬unreadFrom unread w actions r := by
  induction actions generalizing w unread with
  | nil => exact hr
  | cons a actions ih =>
    have hacts := perform_acts hs hw ha.1
    have hle := (perform_adds hs hw ha.1).records
    simp only [core, List.length_map] at hle
    refine ih ha.2 (hacts.sound hs) hacts.2 (Nat.lt_of_lt_of_le hlt hle) fun hj => ?_
    obtain hmade | ⟨hold, -⟩ := hj
    · cases a with
      | withId map id as =>
        obtain ⟨-, -, -, rfl⟩ := hmade
        exact Nat.lt_irrefl _ hlt
      | _ => exact hmade.elim
    · exact hr hold

theorem unreadFrom_append (unread : RecordRef → Prop) (w : Workspace) (as bs : List Action) :
    unreadFrom unread w (as ++ bs) = unreadFrom (unreadFrom unread w as) (w.performAll as) bs := by
  induction as generalizing unread w with
  | nil => rfl
  | cons a as ih => exact ih _ _

/-- A record that an action makes, and does not make up, is never unread after it. -/
theorem not_unread_of_made (hb : Boots w) {before after : List Action}
    (ha : Follows (fun _ a => a.Suits True) w (before ++ a :: after)) (hkey : a.asksByKey = false)
    (hlt : (w.performAll before).records.length ≤ r)
    (hmade : r < ((w.performAll before).perform a).2.records.length) :
    ¬Unread w (before ++ a :: after) r := by
  obtain ⟨hbefore, ha, hafter⟩ := follows_append.mp ha
  obtain ⟨hs, hw⟩ := hbefore.good (fun h => h) hb.sound hb.holding
  have hacts := perform_acts hs hw ha
  rw [Unread, unreadFrom_append, unreadFrom]
  refine not_unreadFrom_of_lt hafter (hacts.sound hs) hacts.2 hmade fun hr => ?_
  obtain hr | ⟨hr, -⟩ := hr
  · exact not_makesUp hkey hr
  · have hold := lt_of_unreadFrom hbefore hb.sound hb.holding (fun _ hr => hr.elim) hr
    exact Nat.not_lt_of_le hlt hold

/-- A record that was made for a staging place is registered under its key, with the
parent that the view has. -/
theorem createStaging_lists (hs : w.core.Sound) (hx : w.views[v]? = some x)
    (hm : x.map < w.maps.length) (key : RecordId) :
    (w.createStaging v key).2.core.Lists x.map key (w.createStaging v key).1 ∧
      ∀ p, x.parent = some p →
        (w.createStaging v key).2.core.Has (w.createStaging v key).1 (·.parent = some p) := by
  have hlists := register_listed hs hm key true
  obtain ⟨y, hy⟩ : ∃ y, (w.register x.map key true).2.records[(w.register x.map key true).1]? =
      some y := by
    obtain ⟨z, hz, -⟩ := (register_goes (P := fun _ _ => True) hm key true
      trivial).sound hs |>.resident ⟨_, _, hlists⟩
    obtain ⟨i, hi, -⟩ := instance_of_core hz
    exact ⟨i, hi⟩
  have hstill := fun (r : RecordRef) (u : Workspace) => (still_announceView v
    (u.setView v fun view => { view with staging := some r }) .stagingChanged).1
  unfold createStaging
  rw [hx]
  dsimp only
  generalize w.register x.map key true = q at hlists hy ⊢
  obtain ⟨r, w₁⟩ := q
  dsimp only at hlists hy ⊢
  cases hp : x.parent with
  | none =>
    refine ⟨?_, fun p hp' => by cases hp'⟩
    rw [hstill]
    exact hlists
  | some parent =>
    obtain ⟨cs, hasked, -, -⟩ := carryOut_asked hy ⟨_, _, hlists⟩
      (y.record.setParent (some parent))
    rw [hy]
    dsimp only
    rw [hstill]
    refine ⟨hlists.of_maps ?_, fun p hp' => ?_⟩
    · show (w₁.carryOut r _).core.maps = _
      rw [hasked.maps, impose_maps]
    · cases hp'
      refine Has.asked ⟨_, records_impose_self (core_records_of_some hy) _, ?_⟩
        (fun _ _ c => Record.keeps_parent c _) hasked
      rw [Record.record_setParent]

/-! ## Records that are shown -/

/-- A row in view resolves to the record under its key, and to no other. -/
theorem recordAt_iff (hs : w.core.Sound) (hshown : w.Shown) (hx : w.views[v]? = some x)
    (hheld : ∀ e ∈ x.rows, w.core.Listed e.2) (hfilled : x.window.Filled)
    (hl : w.core.Lists x.map id r) :
    (∃ row < w.rowCount v, (w.recordAt v row).1 = .ok r) ↔ id ∈ w.confirmed v := by
  have hlists := hl
  obtain ⟨map, hmap, -⟩ := hlists
  have hm : x.map < w.maps.length := (List.getElem?_eq_some_iff.mp hmap).1
  have hkeys : w.confirmed v = x.window.keys := by simp [confirmed, hx]
  have hcount : w.rowCount v = x.window.keys.length := by simp [rowCount, hx, hfilled.symm]
  rw [hkeys, hcount]
  constructor
  · rintro ⟨row, -, hrow⟩
    obtain ⟨id', y, -, hy, hmap, hwindow, hlook⟩ := recordAt_kept hx (Prod.ext hrow rfl)
    obtain ⟨hlasts, hstays, -⟩ := recordAt_lasts hs hx hm row
    obtain ⟨key, hkey, hstands⟩ := hlasts.shown hshown y (List.mem_of_getElem? hy) (row, r)
      (mem_of_lookup hlook)
    -- The record that was resolved stands under the key of the row and under no other.
    obtain ⟨-, rfl⟩ := hstands.only (hstays.lists hl)
    rw [hwindow] at hkey
    exact List.mem_of_getElem? hkey
  · intro hid
    obtain ⟨row, hrow⟩ := List.mem_iff_getElem?.mp hid
    have hlt := (List.getElem?_eq_some_iff.mp hrow).1
    have hkey : x.window.key? row = some id := by
      rw [Window.key?, if_pos (by rw [show x.window.bottom = _ from hfilled]; exact hlt), hrow]
    refine ⟨row, hlt, ?_⟩
    unfold recordAt
    rw [hx]
    dsimp only
    rw [hkey]
    dsimp only
    split
    · next r' hlook =>
      have hmem := mem_of_lookup hlook
      obtain ⟨id', hid', hstands⟩ := hshown x (List.mem_of_getElem? hx) _ hmem
      rw [hrow] at hid'
      cases hid'
      obtain ⟨m', key, hl'⟩ := hheld _ hmem
      obtain ⟨rfl, rfl⟩ := hstands.only hl'
      have hsame : r' = r := hs.record_unique hl' hl
      rw [hsame]
    · rw [recordFor, registered_of_lists hs hl]

/-! ## Saving what is staged -/

/-- A record that was committed is new no more, and has the parent that it had. -/
theorem run_commit_stores (hs : w.core.Sound) (hl : w.core.Listed r) {reply : Record.Reply}
    (hok : (w.run r .commit).1 = .ok reply) :
    (w.run r .commit).2.core.Has r Record.Stored ∧
      ∀ p, w.core.Has r (·.parent = p) → (w.run r .commit).2.core.Has r (·.parent = p) := by
  obtain ⟨i, hi⟩ := instance_of_listed hs hl
  obtain ⟨cs, hasked, -, -⟩ := run_asked hi hl .commit
  refine ⟨?_, fun p hp => hp.asked (fun _ _ c => Record.keeps_parent c p) hasked⟩
  cases hasked with
  | cons hfirst hrest =>
    obtain ⟨y, l, hy, -, -, hreply, rfl⟩ := hfirst
    have hdb := setDatabase_records w.core y.connection (y.record.run l .commit).2.database
    refine Has.asked ⟨_, records_impose_self (by rw [hdb]; exact hy) _, ?_⟩
      (fun _ _ c => Record.keeps_stored c) hrest
    exact Record.commit_stores (hreply.trans hok)

/-- What is staged was committed, and the page that follows was read. -/
structure Saves (v : ViewRef) (r : RecordRef) (x : View) (map : IdentityMap) (w w' : Workspace) :
    Prop where
  committed : ∃ reply, (w.run r .commit).1 = .ok reply
  core : w'.core = (w.run r .commit).2.core
  view : ∃ l es, l.database = w'.databaseOf map.connection ∧
    (x.emptied.window.prefetch map.schema x.emptied.window.nextTarget l).1.1 = .ok es ∧
    w'.views[v]? = some { x.emptied with
      window := (x.emptied.window.prefetch map.schema x.emptied.window.nextTarget l).1.2 }

theorem commitStaging_saves {map : IdentityMap} (hx : w.views[v]? = some x)
    (hm : w.maps[x.map]? = some map) (hst : x.staging = some r) {found : Option RecordRef}
    (hok : (w.commitStaging v).1 = .ok found) :
    found = some r ∧ Saves v r x map w (w.commitStaging v).2 := by
  have hstaged : (w.views[v]?).bind (·.staging) = some r := by simp [hx, hst]
  have hcore := core_commitStaging hstaged
  have hdb : (w.commitStaging v).2.databaseOf map.connection =
      (w.run r .commit).2.databaseOf map.connection := by
    rw [← core_databaseOf, hcore, core_databaseOf]
  have hviews := (pervades_bypasses.passing.run r .commit w).views
  have hmaps := passing_maps.run r .commit w
  cases hq : w.run r .commit with
  | mk result w₁ =>
    rw [hq] at hviews hmaps
    cases result with
    | error e =>
      have heq : w.commitStaging v = (.error e, w₁) := by
        unfold commitStaging
        rw [hstaged]
        dsimp only
        rw [hq]
      rw [heq] at hok
      cases hok
    | ok reply =>
      have hw₁ : w₁.views = w.views := hviews
      have hx₁ : (w₁.setView v View.emptied).views[v]? = some x.emptied := by
        simp [setView, hw₁, hx]
      have hm₁ : (w₁.setView v View.emptied).maps[x.emptied.map]? = some map := by
        rw [← hm, ← hmaps]
        rfl
      obtain ⟨hview, hresult, -⟩ := prefetch_eq hx₁ hm₁ x.emptied.window.nextTarget
      cases hq' : (w₁.setView v View.emptied).prefetch v x.emptied.window.nextTarget with
      | mk fetched w₂ =>
        rw [hq'] at hview hresult
        have hmore : (w₁.setView v fun view =>
            { view with staging := none, window := { view.window with atEnd := false } }).fetchMore
              v = (fetched, w₂) := by
          show (w₁.setView v View.emptied).fetchMore v = _
          simp only [fetchMore, hx₁, hq']
        cases fetched with
        | error e =>
          have heq : w.commitStaging v = (.error e, w₂) := by
            unfold commitStaging
            rw [hstaged]
            dsimp only
            rw [hq]
            dsimp only
            rw [hmore]
          rw [heq] at hok
          cases hok
        | ok =>
          have heq : w.commitStaging v = (.ok (some r), announceView v w₂ .stagingChanged) := by
            unfold commitStaging
            rw [hstaged]
            dsimp only
            rw [hq]
            dsimp only
            rw [hmore]
          obtain ⟨es, hread, -⟩ := map_eq_ok.mp hresult.symm
          rw [heq] at hok
          cases hok
          refine ⟨rfl, ⟨reply, by rw [hq]⟩, hcore, _, es, ?_, hread, ?_⟩
          · rw [hdb, hq]
            rfl
          · rw [heq, (still_announceView v w₂ .stagingChanged).2.views]
            exact hview

/-! ## Rows that are selected -/

theorem isName_parent {k : Core} (ht : o.Types k m s) (hs : k.Sound) {column : String}
    (hcolumn : s.parentColumn = some column) : isName column = true := by
  obtain ⟨map, hm, -, rfl⟩ := ht
  obtain ⟨draft, hbuild⟩ := (hs.placed hm).schema
  exact Schema.isName_of_build hbuild (by simp [Schema.columnNames, hcolumn])

/-- A record that is not unread, and new no more, has its row among those of its type. -/
theorem Tended.exists_shelved (h : Tended o unread w) {y : Resident}
    (hy : o.Sees w.core m s id r y) (hr : ¬unread r) (hnew : y.record.isNew = false) :
    ∃ es e, (w.databaseOf o.connection).Holds s es ∧ e ∈ es ∧ e.image.id = id ∧
      (o.strict = true → s.parentColumn ≠ none → e.image.parent = y.record.parent) := by
  have haligned := h.faithful.aligned hy hr
  obtain ⟨image, himage, -⟩ := haligned.stored hnew
  obtain ⟨es, hes, -⟩ := h.holds hy.types
  have hrow := (hes.image? (hy.types.proper h.sound) id).symm.trans himage
  obtain ⟨e, he, rfl⟩ := Option.map_eq_some_iff.mp hrow
  obtain ⟨hmem, hid⟩ := mem_of_shelved? he
  refine ⟨es, e, by rw [h.databaseOf hy.types]; exact hes, hmem, hid, fun hstrict hcolumn => ?_⟩
  obtain ⟨-, hschema, -⟩ := hy.of h.sound
  exact haligned.parent hstrict _ himage (hschema ▸ hcolumn)

/-- A view without a condition selects the row. -/
theorem Tended.selects_all (h : Tended o unread w) {y : Resident}
    (hy : o.Sees w.core m s id r y) (hr : ¬unread r) (hnew : y.record.isNew = false) {f : Filter}
    (hnone : f.predicates = []) : id ∈ w.selected o.connection s f := by
  obtain ⟨es, e, hes, he, rfl, -⟩ := h.exists_shelved hy hr hnew
  exact hes.mem_selected_all (hy.types.proper h.sound) hnone he

/-- A child view selects the row if the record is one below its key. -/
theorem Tended.selects_below (h : Tended o unread w) (hstrict : o.strict = true) {y : Resident}
    (hy : o.Sees w.core m s id r y) (hr : ¬unread r) (hnew : y.record.isNew = false)
    {column : String} (hcolumn : s.parentColumn = some column)
    (hclock : Table.Expression.clock? column = none) {p : RecordId}
    (hp : y.record.parent = some p) : id ∈ w.selected o.connection s (childFilter column p) := by
  obtain ⟨es, e, hes, he, rfl, hparent⟩ := h.exists_shelved hy hr hnew
  refine hes.mem_selected_below (hy.types.proper h.sound) hcolumn
    (isName_parent hy.types h.sound hcolumn) hclock he ?_
  rw [hparent hstrict (by simp [hcolumn]), hp]

/-! ## Runs -/

/-- The parent of the record in a staging place. -/
def stagedParent (w : Workspace) (v : ViewRef) : Option (Option RecordId) :=
  (w.stagedIn v).bind fun r => (w.records[r]?).map (·.record.parent)

theorem stagedParent_eq_some (hr : w.stagedIn v = some r) {p : Option RecordId} :
    w.stagedParent v = some p ↔ w.core.Has r (·.parent = p) := by
  rw [stagedParent, hr, Option.bind_some, Option.map_eq_some_iff]
  constructor
  · rintro ⟨i, hi, hp⟩
    exact ⟨_, core_records_of_some hi, hp⟩
  · rintro ⟨y, hy, hp⟩
    obtain ⟨i, hi, rfl⟩ := instance_of_core hy
    exact ⟨i, hi, hp⟩

/-- A record was made for the staging place of a view. -/
structure Stages (v : ViewRef) (x : View) (key : RecordId) (r : RecordRef) (w w' : Workspace) :
    Prop where
  made : r = w.records.length
  staged : w'.stagedIn v = some r
  lists : w'.core.Lists x.map key r
  parent : ∀ p, x.parent = some p → w'.stagedParent v = some (some p)

/-- Under a key that no record has, a record is made and staged. -/
theorem perform_createStaging_stages (hs : w.core.Sound) (hw : w.Rooted) {view : String}
    (hv : w.viewNames.lookup view = some v) (hx : w.views[v]? = some x) {key : RecordId}
    (as : Option String) (hnew : w.registered? x.map key = none) :
    ∃ r, (w.perform (.createStaging view key as)).1 = .ok (.found (some r)) ∧
      Stages v x key r w (w.perform (.createStaging view key as)).2 := by
  obtain ⟨w₁, r, heq, hplaces, -, hr⟩ := createStaging_places hw hx key
  obtain ⟨hlists, hparent⟩ := createStaging_lists hs hx
    (hw.views x (List.mem_of_getElem? hx)) key
  have hperform := perform_createStaging hv key as
  rw [heq] at hlists hparent hperform
  have hstaged : (w.perform (.createStaging view key as)).2.stagedIn v = some r := by
    rw [hperform, (hushed_answerHeld as _).stagedIn, stagedIn,
      (still_announceView v w₁ .stagingChanged).2.views]
    exact hplaces.placed
  have hcore : (w.perform (.createStaging view key as)).2.core =
      (announceView v w₁ .stagingChanged).core := by
    rw [hperform, core_answerHeld]
  refine ⟨r, by rw [hperform]; rfl, hr hnew, hstaged, hcore ▸ hlists, fun p hp => ?_⟩
  exact (stagedParent_eq_some hstaged).mpr (hcore ▸ hparent p hp)

theorem perform_commitStaging_saves {view : String} (hv : w.viewNames.lookup view = some v)
    {map : IdentityMap} (hx : w.views[v]? = some x) (hm : w.maps[x.map]? = some map)
    (hst : x.staging = some r) {as : Option String} {reply : Reply}
    (hok : (w.perform (.commitStaging view as)).1 = .ok reply) :
    reply = .found (some r) ∧ Saves v r x map w (w.perform (.commitStaging view as)).2 := by
  have hperform := perform_commitStaging hv as
  have hsaves : ∀ found, (w.commitStaging v).1 = .ok found →
      found = some r ∧ Saves v r x map w (w.commitStaging v).2 :=
    fun _ => commitStaging_saves hx hm hst
  generalize w.commitStaging v = q at hperform hsaves
  obtain ⟨result, w₁⟩ := q
  have hcore : (w.perform (.commitStaging view as)).2.core = w₁.core := by
    rw [hperform, core_answerHeld]
  have hviews : (w.perform (.commitStaging view as)).2.views = w₁.views := by
    rw [hperform, views_answerHeld]
  rw [hperform] at hok
  cases result with
  | error e => cases hok
  | ok found =>
    obtain ⟨rfl, hsaves⟩ := hsaves found rfl
    cases hok
    obtain ⟨l, es, hl, hread, hview⟩ := hsaves.view
    refine ⟨rfl, hsaves.committed, hcore.trans hsaves.core, l, es, ?_, hread, hviews ▸ hview⟩
    rw [hl, ← core_databaseOf, ← core_databaseOf, hcore]

/-- What a view has read once what was staged in it is saved. -/
theorem Saves.keys {map : IdentityMap} (h : Saves v r x map w w') (hfilled : x.window.Filled)
    {ids : List RecordId} (hids : ids.length < Database.maxPage)
    (hpages : ∀ {l : Link} {offset limit page}, l.database = w'.databaseOf map.connection →
      (l.selectKeys map.schema x.window.filter offset limit).1 = .ok page →
      page = (ids.drop offset).take limit) :
    ∃ y, w'.views[v]? = some y ∧ y.map = x.map ∧ y.rows = x.rows ∧ y.staging = none ∧
      y.window.keys = x.window.keys ++ (ids.drop x.window.keys.length).take x.window.fetchSize := by
  obtain ⟨l, es, hl, hread, hview⟩ := h.view
  have hlarge : Database.maxPage < Window.maxCount := by decide
  have hopen : x.emptied.window.Filled := hfilled
  exact ⟨_, hview, rfl, rfl, rfl,
    hopen.prefetch_next rfl (Nat.lt_trans hids hlarge) (fun hpage => hpages hl hpage) hread⟩

/-- A view waits for what is staged in it to be saved. -/
structure Awaits (v : ViewRef) (x y : View) (key : RecordId) (r : RecordRef) (w : Workspace) :
    Prop where
  view : w.views[v]? = some y
  resumes : View.Resumes x y
  staged : y.staging = some r
  filled : y.window.Filled
  held : ∀ e ∈ y.rows, w.core.Listed e.2
  lists : w.core.Lists x.map key r

/-- As long as a record is staged, it stays under its key. -/
theorem awaits_of_run (hs : w.core.Sound) (hw : Holding True w) (hviews : w.Consistent)
    {actions : List Action} (ha : Follows (fun _ a => a.Suits True) w (a :: actions))
    (hx : w.views[v]? = some x) {key : RecordId} (hstages : Stages v x key r w (w.perform a).2)
    {name : String} (hv : (w.performAll (a :: actions)).viewNames.lookup name = some v)
    (hst : (w.performAll (a :: actions)).stagedIn v = some r) :
    ∃ y, Awaits v x y key r (w.performAll (a :: actions)) := by
  have hacts := perform_acts hs hw ha.1
  have hadds := ha.2.adds (hacts.sound hs) hacts.2
  obtain ⟨-, hw'⟩ := ha.good (fun h => h) hs hw
  obtain ⟨y, hy, hresumes⟩ := ha.resumes hs hw hx
  have hstaged : y.staging = some r := by
    rw [stagedIn, hy] at hst
    exact hst
  have hheld := hw'.rows (.of_lookup hv) hy
  have hfilled := (hviews.performAll (a :: actions)).filled
  refine ⟨y, hy, hresumes, hstaged, hfilled y (List.mem_of_getElem? hy),
    fun e he => hheld e.2 (List.mem_append_left _ (List.mem_map_of_mem he)), ?_⟩
  obtain ⟨m, id, hl⟩ := hheld r (List.mem_append_right _ (by simp [hstaged]))
  have hsound := hacts.sound hs
  obtain ⟨rfl, rfl⟩ :=
    hsound.key_unique (hadds.lists (hsound.stands hstages.lists).made hl) hstages.lists
  exact hl

theorem Saves.maps {map : IdentityMap} (h : Saves v r x map w w') : w'.core.maps = w.core.maps :=
  (congrArg Core.maps h.core).trans (passing_maps.run r .commit w)

/-- A record is staged under a key that no record has, and is saved by the view in
whose staging place it still is. -/
theorem saves_of_run (hs : w.core.Sound) (hw : Holding True w) (hrooted : w.Rooted)
    (hviews : w.Consistent) {actions : List Action} {view view' : String} {key : RecordId}
    {as as' : Option String} {reply : Reply} {u z : Workspace}
    (hu : u = (w.perform (.createStaging view key as)).2) (hz : z = u.performAll actions)
    (hw' : w' = (z.perform (.commitStaging view' as')).2)
    (ha : Follows (fun _ a => a.Suits True) w (.createStaging view key as :: actions))
    (hv : w.viewNames.lookup view = some v) (hv' : z.viewNames.lookup view' = some v)
    (hx : w.views[v]? = some x) {map : IdentityMap} (hmap : w.maps[x.map]? = some map)
    (hnew : w.registered? x.map key = none) (hstaged : z.stagedIn v = u.stagedIn v)
    (hok : (z.perform (.commitStaging view' as')).1 = .ok reply) :
    ∃ r y map', Stages v x key r w u ∧ z.core.Sound ∧ Awaits v x y key r z ∧
      reply = .found (some r) ∧ Saves v r y map' z w' ∧
      w'.core.maps[x.map]? = some map' ∧ map.Alike map' := by
  subst hu hw'
  have hwaits : w.performAll (.createStaging view key as :: actions) = z := hz.symm
  obtain ⟨r, -, hstages⟩ := perform_createStaging_stages hs hrooted hv hx as hnew
  obtain ⟨y, hy⟩ := awaits_of_run hs hw hviews ha hx hstages (hwaits ▸ hv')
    (hwaits ▸ hstaged.trans hstages.staged)
  obtain ⟨hs', -⟩ := ha.good (fun h => h) hs hw
  have hprecedes := performAll_precedes (fun h => h) ha hs hw
  rw [hwaits] at hy hs' hprecedes
  obtain ⟨map', hmap', hlike⟩ := hprecedes.map hmap
  obtain ⟨rfl, hsaves⟩ := perform_commitStaging_saves hv' hy.view (hy.resumes.map ▸ hmap') hy.staged
    hok
  exact ⟨r, y, map', hstages, hs', hy, rfl, hsaves, hsaves.maps ▸ hmap', hlike⟩

/-- A record that was saved is new no more, and has the parent that it had. -/
theorem Awaits.sees {y : View} {key : RecordId} {map : IdentityMap} (h : Awaits v x y key r w)
    (hs : w.core.Sound) (hsaves : Saves v r y map w w') (ht : o.Types w'.core x.map s) :
    ∃ z, o.Sees w'.core x.map s key r z ∧ z.record.isNew = false ∧
      ∀ p, w.stagedParent v = some p → z.record.parent = p := by
  obtain ⟨reply, hcommitted⟩ := hsaves.committed
  obtain ⟨⟨z, hz, hstored⟩, hparent⟩ := run_commit_stores hs ⟨_, _, h.lists⟩ hcommitted
  rw [← hsaves.core] at hz hparent
  refine ⟨z, ⟨ht, h.lists.of_maps hsaves.maps, hz⟩, hstored, fun p hp => ?_⟩
  have hst : w.stagedIn v = some r := by simp [stagedIn, h.view, h.staged]
  obtain ⟨z', hz', hp'⟩ := hparent p ((stagedParent_eq_some hst).mp hp)
  cases hz.symm.trans hz'
  exact hp'

/-- A row in view resolves to what was saved if the view had read its key, or if the
key is among those that follow. -/
theorem Awaits.shows {y : View} {key : RecordId} {map : IdentityMap} (h : Awaits v x y key r w)
    (hsaves : Saves v r y map w w') (hs : w'.core.Sound) (hshown : w'.Shown) (hfilled : w'.Filled)
    {ids : List RecordId} (hids : ids.length < Database.maxPage)
    (hpages : ∀ {l : Link} {offset limit page}, l.database = w'.databaseOf map.connection →
      (l.selectKeys map.schema x.window.filter offset limit).1 = .ok page →
      page = (ids.drop offset).take limit) :
    w'.stagedIn v = none ∧ ((∃ row < w'.rowCount v, (w'.recordAt v row).1 = .ok r) ↔
      key ∈ w.confirmed v ∨ key ∈ (ids.drop (w.rowCount v)).take x.window.fetchSize) := by
  obtain ⟨z, hz, hmap, hrows, hst, hkeys⟩ := hsaves.keys h.filled hids
    fun hl hpage => hpages hl (h.resumes.filter ▸ hpage)
  have hheld : ∀ e ∈ z.rows, w'.core.Listed e.2 := by
    intro e he
    obtain ⟨m, id, hl⟩ := h.held e (hrows ▸ he)
    exact ⟨m, id, hl.of_maps hsaves.maps⟩
  have hcount : w.rowCount v = y.window.keys.length := by
    rw [rowCount, h.view]
    exact h.filled
  have hconfirmed : w.confirmed v = y.window.keys := by simp [confirmed, h.view]
  have hconfirmed' : w'.confirmed v = z.window.keys := by simp [confirmed, hz]
  refine ⟨by simp [stagedIn, hz, hst], ?_⟩
  rw [recordAt_iff hs hshown hz hheld (hfilled z (List.mem_of_getElem? hz))
      (hmap.trans h.resumes.map ▸ h.lists.of_maps hsaves.maps),
    hconfirmed', hkeys, hcount, hconfirmed, h.resumes.fetchSize, List.mem_append]

/-- A view of the only writer of its database saves what is staged in it. Then the
record is staged no more and its row is selected by the view. A row in view resolves
to it exactly if the view had read its key before, or if the key is on the page that
starts as many rows down as the view has rows. -/
theorem arrives_of_run (hb : Boots w) {before actions : List Action} {view view' : String}
    {key : RecordId} {as as' : Option String} {reply : Reply} {u z : Workspace}
    (hu : u = ((w.performAll before).perform (.createStaging view key as)).2)
    (hz : z = u.performAll actions) (hw' : w' = (z.perform (.commitStaging view' as')).2)
    (ha : Follows (Action.Private d) w
      (before ++ .createStaging view key as :: (actions ++ [.commitStaging view' as'])))
    (hc : w'.SoleWriter c d) (hd : w'.Prepared c (w.core.database d))
    (hv : (w.performAll before).viewNames.lookup view = some v)
    (hv' : z.viewNames.lookup view' = some v)
    (hx : (w.performAll before).views[v]? = some x)
    (hm : ((w.performAll before).maps[x.map]?).map (fun map => (map.connection, map.schema)) =
      some (c, s))
    (hnew : (Action.createStaging view key as).IsGiven (w.performAll before) c)
    (hstaged : z.stagedIn v = u.stagedIn v)
    (hkind : x.window.filter.predicates = [] ∨ ∃ column p, x.IsBelow s column p ∧
      Table.Expression.clock? column = none ∧ z.stagedParent v = u.stagedParent v ∧
      Follows (Action.Sheltered c d) w
        (before ++ .createStaging view key as :: (actions ++ [.commitStaging view' as'])))
    (hfew : (w'.selected c s x.window.filter).length < Database.maxPage)
    (hok : (z.perform (.commitStaging view' as')).1 = .ok reply) :
    ∃ r, u.stagedIn v = some r ∧ reply = .found (some r) ∧ w'.stagedIn v = none ∧
      key ∈ w'.selected c s x.window.filter ∧
      ((∃ row < w'.rowCount v, (w'.recordAt v row).1 = .ok r) ↔ key ∈ z.confirmed v ∨
        key ∈ ((w'.selected c s x.window.filter).drop (z.rowCount v)).take
          x.window.fetchSize) := by
  have hsuits : ∀ {w : Workspace} {a : Action}, a.Private d w → a.Suits True :=
    fun h => .of_sharesHub h.sharesHub
  obtain ⟨hbefore, hcreate, hafter⟩ := follows_append.mp ha
  obtain ⟨hactions, hcommit, -⟩ := follows_append.mp (hu ▸ hafter)
  obtain ⟨hs₀, hw₀⟩ := hbefore.good hsuits hb.sound hb.holding
  have hrun : Follows (fun _ a => a.Suits True) (w.performAll before)
      (.createStaging view key as :: actions) :=
    ⟨hsuits hcreate, (hu ▸ hactions).mono hsuits⟩
  have hend : w.performAll
      (before ++ .createStaging view key as :: (actions ++ [.commitStaging view' as'])) = w' := by
    rw [performAll_append, ← List.cons_append, performAll_append, hw', hz, hu]
    rfl
  obtain ⟨map₀, hmap₀, hcs⟩ := Option.map_eq_some_iff.mp hm
  obtain ⟨rfl, rfl⟩ := Prod.mk.inj hcs
  obtain ⟨r, y, map, hstages, hs₂, hy, rfl, hsaves, hmap, hlike⟩ := saves_of_run hs₀ hw₀
    (hb.rooted.performAll before) (hb.consistent.performAll before) hu hz hw' hrun hv hv' hx hmap₀
    (hnew v x hv hx ⟨map₀, hmap₀, rfl⟩).1 hstaged hok
  have htypes : ∀ b, (w'.outlook map₀.connection d b).Types w'.core x.map map₀.schema :=
    fun b => ⟨map, hmap, hlike.connection.symm, hlike.schema.symm⟩
  have hread : ¬Unread w
      (before ++ .createStaging view key as :: (actions ++ [.commitStaging view' as'])) r :=
    not_unread_of_made hb (ha.mono hsuits) rfl (Nat.le_of_eq hstages.made.symm) (by
      have hs₁ := (perform_acts hs₀ hw₀ (hsuits hcreate)).sound hs₀
      simpa [core] using (hs₁.stands (hu ▸ hstages.lists)).made)
  have htended := tended_of_run hb ha (hend ▸ hc) (hend ▸ hd)
  rw [hend] at htended
  have hselected : key ∈ w'.selected map₀.connection map₀.schema x.window.filter := by
    obtain hnone | ⟨column, p, hbelow, hclock, hsame, hsheltered⟩ := hkind
    · obtain ⟨x', hx', hstored, -⟩ := hy.sees hs₂ hsaves (htypes false)
      exact htended.selects_all hx' hread hstored hnone
    · obtain ⟨x', hx', hstored, hparent⟩ := hy.sees hs₂ hsaves (htypes true)
      have hstrict := tended_of_sheltered hb hsheltered (hend ▸ hc) (hend ▸ hd)
      rw [hend] at hstrict
      have hp := hparent _ (hsame.trans (hstages.parent p hbelow.parent))
      rw [hbelow.filter]
      exact hstrict.selects_below rfl hx' hread hstored hbelow.named hclock hp
  have hbrief : x.window.filter.isBrief = true := by
    obtain hnone | ⟨column, p, hbelow, -⟩ := hkind
    · simp [Filter.isBrief, hnone]
    · rw [hbelow.filter]
      rfl
  have hshown := (ha.mono hsuits).shown hb.sound hb.holding hb.shown
  have hfilled := (hb.consistent.performAll
    (before ++ .createStaging view key as :: (actions ++ [.commitStaging view' as']))).filled
  rw [hend] at hshown hfilled
  obtain ⟨hnone, hiff⟩ := hy.shows hsaves htended.sound hshown hfilled hfew fun hl hpage =>
    htended.page_eq (htypes false) hbrief hfew hmap (by rw [hl, ← core_databaseOf]) hpage
  exact ⟨r, hstages.staged, rfl, hnone, hselected, hiff⟩

/-- A note is saved, and the notes below it are listed. -/
def listsBelow : List Action :=
  nestsNotes.take 4 ++ [.openView "list" "notes" "store" (.below (.ofOrdinal 1)) (some 5)]

/-- A note is staged in the list and gets a text. -/
def stagesMilk : Action := .createStaging "list" (.ofOrdinal 2) (some "note")

def textsMilk : List Action := [.command "note" (.set "TITLE" (.text "milk"))]

def savesStaged : Action := .commitStaging "list" none

theorem given_createStaging {view : String} (hv : w.viewNames.lookup view = some v)
    (hm : (w.views[v]?).map (·.map) = some m) {as : Option String} (h : w.Unused m id) :
    (Action.createStaging view id as).IsGiven w c := by
  intro v' x hv' hx _
  rw [hv] at hv'
  cases hv'
  rw [hx] at hm
  cases hm
  exact h

theorem given_stagesMilk : stagesMilk.IsGiven (performAll {} listsBelow) 0 :=
  given_createStaging (v := 0) (m := 0) (by rfl) (by rfl)
    (unused_of_rows (by rfl) (by decide +kernel))

theorem sheltered_listsBelow : Follows (Action.Sheltered 0 0) {}
    (listsBelow ++ stagesMilk :: (textsMilk ++ [savesStaged])) := by
  refine ⟨⟨⟨rfl, id⟩, fun _ => trivial⟩, ⟨⟨rfl, id⟩, fun _ => trivial⟩, ⟨⟨rfl, id⟩, fun _ => ?_⟩,
    ⟨⟨rfl, id⟩, fun _ => trivial⟩, ⟨⟨rfl, id⟩, fun _ => trivial⟩,
    ⟨⟨rfl, id⟩, fun _ => given_stagesMilk⟩, ⟨⟨rfl, id⟩, fun _ => trivial⟩,
    ⟨⟨rfl, id⟩, fun _ => trivial⟩, trivial⟩
  exact given_newRecord (m := 0) (by rfl) (unused_of_rows (by rfl) (by decide +kernel))

/-- The note that was staged in a list comes into view as its first row. -/
theorem arrives_listsBelow :
    ((((performAll {} listsBelow).perform stagesMilk).2.performAll textsMilk).perform
      savesStaged).1 = .ok (.found (some 1)) ∧
    ∃ row < ((((performAll {} listsBelow).perform stagesMilk).2.performAll textsMilk).perform
        savesStaged).2.rowCount 0,
      (((((performAll {} listsBelow).perform stagesMilk).2.performAll textsMilk).perform
        savesStaged).2.recordAt 0 row).1 = .ok 1 := by
  have hx : (performAll {} listsBelow).views[0]? =
      some ((performAll {} listsBelow).views.get ⟨0, by decide +kernel⟩) :=
    List.getElem?_eq_getElem _
  have hbelow : ((performAll {} listsBelow).views.get ⟨0, by decide +kernel⟩).IsBelow
      { notes with parentColumn := some "PARENT" } "PARENT" (.ofOrdinal 1) :=
    ⟨by rfl, by rfl, by rfl⟩
  have hc : ((((performAll {} listsBelow).perform stagesMilk).2.performAll textsMilk).perform
      savesStaged).2.SoleWriter 0 0 :=
    soleWriter_of_single (n := ["TITLE", "PARENT"]) (by rfl) (by rfl) (by decide)
  have hok : ((((performAll {} listsBelow).perform stagesMilk).2.performAll textsMilk).perform
      savesStaged).1 = .ok (.found (some 1)) := by
    rfl
  obtain ⟨r, -, hr, -, -, hiff⟩ := arrives_of_run boots_empty rfl rfl rfl
    (sheltered_listsBelow.mono fun h => h.isPrivate) hc (prepared_empty _ _) (by rfl) (by rfl) hx
    (by rfl) given_stagesMilk (by rfl)
    (.inr ⟨_, _, hbelow, by decide +kernel, by rfl, sheltered_listsBelow⟩) (by decide +kernel) hok
  cases hr
  exact ⟨hok, hiff.mpr (.inr (by decide +kernel))⟩

/-- A note is saved, and all notes are listed. -/
def listsOne : List Action :=
  keepsThree.take 4 ++ [.openView "list" "notes" "store" (.filter {}) (some 5)]

/-- The note that the list shows is deleted. -/
def deletesFirst : List Action := [.command "a" .stageDelete, .release "notes" "a"]

/-- Where the row above the new one went, the page that follows starts below the new
row, and no row in view resolves to the record that was saved. -/
theorem savedOutOfView :
    Follows (Action.Private 0) {} (listsOne ++ stagesMilk :: (deletesFirst ++ [savesStaged])) ∧
      ((((performAll {} listsOne).perform stagesMilk).2.performAll deletesFirst).perform
        savesStaged).2.SoleWriter 0 0 ∧
      ((((performAll {} listsOne).perform stagesMilk).2.performAll deletesFirst).perform
        savesStaged).2.Prepared 0 {} ∧
      stagesMilk.IsGiven (performAll {} listsOne) 0 ∧
      (performAll {} listsOne).isAtEnd 0 = true ∧
      (((performAll {} listsOne).perform stagesMilk).2.performAll deletesFirst).views =
        ((performAll {} listsOne).perform stagesMilk).2.views ∧
      ((performAll {} listsOne).perform stagesMilk).2.stagedIn 0 = some 1 ∧
      ((((performAll {} listsOne).perform stagesMilk).2.performAll deletesFirst).perform
        savesStaged).1 = .ok (.found (some 1)) ∧
      .ofOrdinal 2 ∈ ((((performAll {} listsOne).perform stagesMilk).2.performAll
        deletesFirst).perform savesStaged).2.selected 0 notes {} ∧
      ∀ row < ((((performAll {} listsOne).perform stagesMilk).2.performAll deletesFirst).perform
          savesStaged).2.rowCount 0,
        (((((performAll {} listsOne).perform stagesMilk).2.performAll deletesFirst).perform
          savesStaged).2.recordAt 0 row).1 ≠ .ok 1 := by
  refine ⟨⟨⟨rfl, id⟩, ⟨rfl, id⟩, ⟨rfl, id⟩, ⟨rfl, id⟩, ⟨rfl, id⟩, ⟨rfl, id⟩, ⟨rfl, id⟩, ⟨rfl, id⟩,
      ⟨rfl, id⟩, trivial⟩,
    soleWriter_of_single (n := ["TITLE"]) (by rfl) (by rfl) (by decide), prepared_empty _ _,
    given_createStaging (v := 0) (m := 0) (by rfl) (by rfl)
      (unused_of_rows (by rfl) (by decide +kernel)),
    by rfl, by rfl, by rfl, by rfl, by decide +kernel, fun row hrow hok => ?_⟩
  -- The view has one row, under the key of the note that was deleted.
  have hzero : row = 0 := by
    have hcount : ((((performAll {} listsOne).perform stagesMilk).2.performAll
        deletesFirst).perform savesStaged).2.rowCount 0 = 1 := by
      rfl
    omega
  subst hzero
  cases hok

end Workspace

end LiveRecords
