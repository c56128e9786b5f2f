import LiveRecords.Proofs.Bypassing
import LiveRecords.Proofs.Overlooking

/-!
# What is staged, and who hears of it

Those who listen to a view hear that its staging place changed whenever it holds
something else than before, and at no other time. A commit of the staged record
that fails leaves it in place. Only where the record was committed and the page
that follows cannot be read, the commit fails with the place emptied, and nobody
hears of it.
-/

namespace LiveRecords.Workspace

variable {w w₁ w₂ w' : Workspace} {v : ViewRef} {x : View} {staged : Option RecordRef}

/-- In these views and in no others the staging place holds something else than
before, and all who listen to them heard of it, once. -/
structure Heralds (changed : List ViewRef) (w w' : Workspace) : Prop where
  nodup : changed.Nodup
  changed_iff : ∀ v, v ∈ changed ↔ w'.stagedIn v ≠ w.stagedIn v
  heard : w'.stagings = w.stagings ++ changed.flatMap w.listeningTo

theorem heralds_nil (hs : w'.stagings = w.stagings) (h : ∀ v, w'.stagedIn v = w.stagedIn v) :
    Heralds [] w w' where
  nodup := .nil
  changed_iff v := by simp [h v]
  heard := by simpa using hs

theorem Hushed.heralds (h : Hushed w w') : Heralds [] w w' := heralds_nil h.stagings h.stagedIn

/-- The staging place of one view was filled or emptied, and nobody heard of it yet. -/
structure Places (v : ViewRef) (staged : Option RecordRef) (w w' : Workspace) : Prop where
  placed : w'.stagedIn v = staged
  stagedIn : ∀ j, j ≠ v → w'.stagedIn j = w.stagedIn j
  stagings : w'.stagings = w.stagings
  listeningTo : ∀ j, w'.listeningTo j = w.listeningTo j
  records : w.records.length ≤ w'.records.length
  rooted : w.Rooted → (∀ r, staged = some r → r < w'.records.length) → w'.Rooted

theorem Hushed.trans_places (h : Hushed w w₁) (h' : Places v staged w₁ w') :
    Places v staged w w' where
  placed := h'.placed
  stagedIn j hj := (h'.stagedIn j hj).trans (h.stagedIn j)
  stagings := h'.stagings.trans h.stagings
  listeningTo j := (h'.listeningTo j).trans (h.listeningTo j)
  records := Nat.le_trans h.records h'.records
  rooted hw := h'.rooted (h.rooted hw)

theorem Places.trans_hushed (h : Places v staged w w₁) (h' : Hushed w₁ w')
    (hr : ∀ r, staged = some r → r < w₁.records.length) : Places v staged w w' where
  placed := (h'.stagedIn v).trans h.placed
  stagedIn j hj := (h'.stagedIn j).trans (h.stagedIn j hj)
  stagings := h'.stagings.trans h.stagings
  listeningTo j := (h'.listeningTo j).trans (h.listeningTo j)
  records := Nat.le_trans h.records h'.records
  rooted hw _ := h'.rooted (h.rooted hw hr)

theorem places_setView (hx : w.views[v]? = some x) {f : View → View}
    (hm : ∀ x, (f x).map = x.map) (hs : ∀ x, (f x).staging = staged)
    (hl : ∀ x, (f x).listeners = x.listeners) :
    Places v staged w (w.setView v f) where
  placed := by simp [Workspace.stagedIn, setView, hx, hs]
  stagedIn j hj := by simp [Workspace.stagedIn, setView, Ne.symm hj]
  stagings := rfl
  listeningTo j := by
    simp only [Workspace.listeningTo, setView, List.getElem?_modify]
    cases w.views[j]? with
    | none => rfl
    | some x => by_cases hj : v = j <;> simp [hj, hl]
  records := Nat.le_refl _
  rooted hw hr := hw.setView hm fun x _ r hr' => hr r (hs x ▸ hr')

/-! ## Hearing of it -/

theorem stagings_foldl_write (ls : List (Nat × String)) (w : Workspace) :
    (ls.foldl (fun w l => w.write (.view l.2 .stagingChanged)) w).stagings =
      w.stagings ++ ls.map (·.2) := by
  induction ls generalizing w with
  | nil => simp
  | cons l ls ih =>
    have hone : (w.write (.view l.2 .stagingChanged)).stagings = w.stagings ++ [l.2] := by
      simp [Workspace.stagings, write, List.filterMap_append, Heard.staging?]
    rw [List.foldl_cons, ih, hone, List.map_cons, List.append_assoc]
    rfl

theorem stagings_announceView (v : ViewRef) (w : Workspace) :
    (announceView v w .stagingChanged).stagings = w.stagings ++ w.listeningTo v := by
  unfold announceView
  split
  · next h => simp [listeningTo, h]
  · next x h =>
    rw [Observers.deliver, stagings_foldl_write, listeningTo, h]
    rfl

/-- Where another thing is staged than before, those who listen are told. -/
theorem Places.heralds (h : Places v staged w w₁) (hne : staged ≠ w.stagedIn v) :
    Heralds [v] w (announceView v w₁ .stagingChanged) := by
  have hviews := (still_announceView v w₁ .stagingChanged).2.views
  have hstaged : ∀ j, (announceView v w₁ .stagingChanged).stagedIn j = w₁.stagedIn j :=
    fun j => by rw [Workspace.stagedIn, Workspace.stagedIn, hviews]
  refine ⟨by simp, fun j => ?_, ?_⟩
  · rw [List.mem_singleton, hstaged]
    by_cases hj : j = v
    · subst hj
      exact iff_of_true rfl (h.placed ▸ hne)
    · exact iff_of_false hj fun hne => hne (h.stagedIn j hj)
  · rw [stagings_announceView, h.stagings, h.listeningTo, List.flatMap_singleton]

/-! ## Filling the place and emptying it -/

theorem rooted_announceView (hw : w.Rooted) (v : ViewRef) (e : ViewEvent) :
    (announceView v w e).Rooted := by
  unfold announceView
  split
  · exact hw
  · refine foldl_related (R := fun w w' => w.Rooted → w'.Rooted) (fun _ => id)
      (fun h h' hw => h' (h hw)) _ (fun w l hw => ?_) _ w hw
    exact ⟨hw.registered, hw.staged, hw.views, hw.mapNames, hw.stores⟩

theorem Rooted.stagedIn_lt (hw : w.Rooted) {r : RecordRef} (h : w.stagedIn v = some r) :
    r < w.records.length := by
  obtain ⟨x, hx, hr⟩ := Option.bind_eq_some_iff.mp h
  exact hw.staged x (List.mem_of_getElem? hx) r hr

/-- The record under a key was made, and only now if there was none under the key. -/
theorem Rooted.register (hw : w.Rooted) {m : MapRef} (hm : m < w.maps.length) (id : RecordId)
    (isNew : Bool) :
    (w.register m id isNew).1 < (w.register m id isNew).2.records.length ∧
      (w.registered? m id = none → (w.register m id isNew).1 = w.records.length) := by
  obtain ⟨map, hmap⟩ : ∃ map, w.maps[m]? = some map := ⟨_, List.getElem?_eq_getElem hm⟩
  unfold Workspace.register registered?
  rw [hmap]
  dsimp only [Option.bind_some]
  split
  · next r hr =>
    rw [hr]
    exact ⟨hw.registered map (List.mem_of_getElem? hmap) _ (mem_of_lookup hr), by simp⟩
  · exact ⟨by simp [report, setMap], fun _ => rfl⟩

/-- A new record comes into the staging place. -/
theorem createStaging_places (hw : w.Rooted) (hx : w.views[v]? = some x) (key : RecordId) :
    ∃ w₁ r, w.createStaging v key = (r, announceView v w₁ .stagingChanged) ∧
      Places v (some r) w w₁ ∧ r < w₁.records.length ∧
      (w.registered? x.map key = none → r = w.records.length) := by
  obtain ⟨hlt, hnew⟩ := hw.register (hw.views x (List.mem_of_getElem? hx)) key true
  have hreg := pervades_hushed.register x.map key true w
  have hviews := (pervades_bypasses.register x.map key true w).views
  cases hq : w.register x.map key true with
  | mk r w₁ =>
    rw [hq] at hlt hnew hreg hviews
    -- A parent that is given to the record leaves the views.
    have hstaged : ∀ w₂, Hushed w₁ w₂ → w₂.views = w₁.views →
        Places v (some r) w (w₂.setView v fun view => { view with staging := some r }) ∧
          r < w₂.records.length := by
      intro w₂ h hv
      have hx₂ : w₂.views[v]? = some x := by rw [hv, hviews, hx]
      exact ⟨(hreg.trans h).trans_places (places_setView hx₂ (fun _ => rfl) (fun _ => rfl)
        fun _ => rfl), Nat.lt_of_lt_of_le hlt h.records⟩
    unfold createStaging
    rw [hx]
    dsimp only
    rw [hq]
    dsimp only
    split
    · next parent i _ hi =>
      obtain ⟨hplaces, hlt₂⟩ := hstaged _ (pervades_hushed.passing.place hi (some parent))
        (pervades_bypasses.passing.place hi (some parent)).views
      exact ⟨_, r, rfl, hplaces, hlt₂, hnew⟩
    · obtain ⟨hplaces, hlt₂⟩ := hstaged w₁ (.refl w₁) rfl
      exact ⟨_, r, rfl, hplaces, hlt₂, hnew⟩

/-- The staged record is committed, but the page that follows cannot be read. -/
def LosesPage (w : Workspace) (v : ViewRef) : Prop :=
  ∃ r reply e, w.stagedIn v = some r ∧ (w.run r .commit).1 = .ok reply ∧
    (w.commitStaging v).1 = .error e

/-- What a commit of what is staged comes to. -/
inductive Commits (v : ViewRef) (w : Workspace) :
    Except StoreError (Option RecordRef) × Workspace → Prop
  /-- Nothing is staged. -/
  | idle : w.stagedIn v = none → Commits v w (.ok none, w)
  /-- The record could not be committed and stays. -/
  | refused {w' e} : ¬w.LosesPage v → Hushed w w' → Commits v w (.error e, w')
  | lost {w' e} : w.LosesPage v → Places v none w w' → Commits v w (.error e, w')
  | done {w' r} : ¬w.LosesPage v → w.stagedIn v = some r → Places v none w w' →
    Commits v w (.ok (some r), announceView v w' .stagingChanged)

theorem commitStaging_commits (v : ViewRef) (w : Workspace) :
    Commits v w (w.commitStaging v) := by
  cases hr : w.stagedIn v with
  | none =>
    have heq : w.commitStaging v = (.ok none, w) := by
      unfold commitStaging
      rw [show (w.views[v]?).bind (·.staging) = none from hr]
    rw [heq]
    exact .idle hr
  | some r =>
    obtain ⟨x, hx, -⟩ := Option.bind_eq_some_iff.mp hr
    have hrun := pervades_hushed.passing.run r .commit w
    have hviews := (pervades_bypasses.passing.run r .commit w).views
    cases hq : w.run r .commit with
    | mk result w₁ =>
      rw [hq] at hrun hviews
      cases result with
      | error e =>
        have heq : w.commitStaging v = (.error e, w₁) := by
          unfold commitStaging
          rw [show (w.views[v]?).bind (·.staging) = some r from hr]
          dsimp only
          rw [hq]
        rw [heq]
        refine .refused (fun ⟨r', reply, e', hr', hok, _⟩ => ?_) hrun
        rw [hr] at hr'
        cases hr'
        rw [hq] at hok
        cases hok
      | ok reply =>
        have hx₁ : w₁.views[v]? = some x := hviews ▸ hx
        have hemptied : Places v none w (w₁.setView v fun view =>
            { view with staging := none, window := { view.window with atEnd := false } }) :=
          hrun.trans_places (places_setView hx₁ (fun _ => rfl) (fun _ => rfl) fun _ => rfl)
        have hmore := hemptied.trans_hushed (hushed_fetchMore v _) (by simp)
        cases hq' : (w₁.setView v fun view =>
            { view with staging := none, window := { view.window with atEnd := false } }).fetchMore
              v with
        | mk fetched w₂ =>
          rw [hq'] at hmore
          cases fetched with
          | error e =>
            have heq : w.commitStaging v = (.error e, w₂) := by
              unfold commitStaging
              rw [show (w.views[v]?).bind (·.staging) = some r from hr]
              dsimp only
              rw [hq]
              dsimp only
              rw [hq']
            rw [heq]
            exact .lost ⟨r, reply, e, hr, by rw [hq], by rw [heq]⟩ hmore
          | ok =>
            have heq : w.commitStaging v =
                (.ok (some r), announceView v w₂ .stagingChanged) := by
              unfold commitStaging
              rw [show (w.views[v]?).bind (·.staging) = some r from hr]
              dsimp only
              rw [hq]
              dsimp only
              rw [hq']
            rw [heq]
            refine .done (fun ⟨_, _, _, _, _, herror⟩ => ?_) hr hmore
            rw [heq] at herror
            cases herror

theorem discardStaging_cases (v : ViewRef) (w : Workspace) :
    (w.stagedIn v = none ∧ w.discardStaging v = (none, w)) ∨
      ∃ r w', w.stagedIn v = some r ∧ Places v none w w' ∧
        w.discardStaging v = (some r, announceView v w' .stagingChanged) := by
  unfold discardStaging
  split
  · next h => exact .inl ⟨h, rfl⟩
  · next r h =>
    obtain ⟨x, hx, -⟩ := Option.bind_eq_some_iff.mp h
    exact .inr ⟨r, w.setView v fun view => { view with staging := none }, h,
      places_setView hx (fun _ => rfl) (fun _ => rfl) fun _ => rfl, rfl⟩

/-! ## What an action does -/

/-- The view whose staged record an action commits. -/
def Action.commits? (w : Workspace) : Action → Option ViewRef
  | .commitStaging view _ => w.viewNames.lookup view
  | _ => none

/-- A record that is to be staged gets a key that no record of its type has. -/
def Action.StagesNew (w : Workspace) : Action → Prop
  | .createStaging view key _ => ∀ v x, w.viewNames.lookup view = some v →
      w.views[v]? = some x → w.registered? x.map key = none
  | _ => True

/-- What becomes of what is staged by an action, and who hears of it. -/
structure StagesOpenly (w : Workspace) (a : Action) : Prop where
  /-- A commit that fails leaves the staged record in place. -/
  kept : ∀ {v e}, a.commits? w = some v → ¬w.LosesPage v → (w.perform a).1 = .error e →
    (w.perform a).2.stagedIn v = w.stagedIn v
  /-- Those who listen hear of every change, and of nothing else. -/
  heralds : (∀ v, a.commits? w = some v → ¬w.LosesPage v) →
    ∃ changed, Heralds changed w (w.perform a).2
  /-- Where the page is not read, the place is empty and nobody heard of it. -/
  lost : ∀ {v}, a.commits? w = some v → w.LosesPage v → Places v none w (w.perform a).2

theorem Overlooks.stagesOpenly {a : Action} (h : Overlooks w (w.perform a).2)
    (hc : a.commits? w = none) : StagesOpenly w a where
  kept {v e} hv := by rw [hc] at hv; cases hv
  heralds _ := ⟨[], heralds_nil h.stagings h.stagedIn⟩
  lost {v} hv := by rw [hc] at hv; cases hv

/-- Holding the answer under a name changes nothing of what is staged. -/
theorem Heralds.trans_hushed {changed : List ViewRef} (h : Heralds changed w w₁)
    (h' : Hushed w₁ w') : Heralds changed w w' where
  nodup := h.nodup
  changed_iff v := by rw [h'.stagedIn]; exact h.changed_iff v
  heard := h'.stagings.trans h.heard

/-- The three actions about a staging place, on a name that stands for a view. -/
theorem perform_createStaging {view : String} (hv : w.viewNames.lookup view = some v)
    (key : RecordId) (as : Option String) : w.perform (.createStaging view key as) =
      answerHeld as (.ok (some (w.createStaging v key).1), (w.createStaging v key).2) := by
  simp only [perform, withView, hv]

theorem perform_commitStaging {view : String} (hv : w.viewNames.lookup view = some v)
    (as : Option String) :
    w.perform (.commitStaging view as) = answerHeld as (w.commitStaging v) := by
  simp only [perform, withView, hv]

theorem perform_discardStaging {view : String} (hv : w.viewNames.lookup view = some v)
    (as : Option String) : w.perform (.discardStaging view as) =
      answerHeld as (.ok (w.discardStaging v).1, (w.discardStaging v).2) := by
  simp only [perform, withView, hv]

/-- Without a view there is nothing that an action on its staging place does. -/
theorem perform_of_no_view {view : String} (hv : w.viewNames.lookup view = none) {a : Action}
    (ha : (∃ key as, a = .createStaging view key as) ∨ (∃ as, a = .commitStaging view as) ∨
      ∃ as, a = .discardStaging view as) : (w.perform a).2 = w := by
  obtain ⟨key, as, rfl⟩ | ⟨as, rfl⟩ | ⟨as, rfl⟩ := ha <;>
    simp only [perform, withView, hv, unknown]

/-- A staging place is filled with something else than was there, since a new record
is none that was made before. -/
theorem createStaging_stagesOpenly (hw : w.Rooted) {view : String} {key : RecordId}
    {as : Option String} : (w.perform (.createStaging view key as)).2.Rooted ∧
      ((Action.createStaging view key as).StagesNew w →
        StagesOpenly w (.createStaging view key as)) := by
  have hopenly : (∃ changed, Heralds changed w (w.perform (.createStaging view key as)).2) →
      StagesOpenly w (.createStaging view key as) :=
    fun h => ⟨fun hv => (by cases hv), fun _ => h, fun hv => (by cases hv)⟩
  cases hv : w.viewNames.lookup view with
  | none =>
    have heq := perform_of_no_view hv (.inl ⟨key, as, rfl⟩)
    exact ⟨heq.symm ▸ hw, fun _ => hopenly ⟨[], heq.symm ▸ (Hushed.refl w).heralds⟩⟩
  | some v =>
    have hheld := hushed_answerHeld as
      (.ok (some (w.createStaging v key).1), (w.createStaging v key).2)
    rw [← perform_createStaging hv] at hheld
    cases hx : w.views[v]? with
    | none =>
      have heq : (w.createStaging v key).2 = w := by
        unfold createStaging
        rw [hx]
      rw [heq] at hheld
      exact ⟨hheld.rooted hw, fun _ => hopenly ⟨[], hheld.heralds⟩⟩
    | some x =>
      obtain ⟨w₁, r, heq, hplaces, hlt, hr⟩ := createStaging_places hw hx key
      rw [heq] at hheld
      have hrooted := hplaces.rooted hw fun r' hr' => Option.some.inj hr' ▸ hlt
      refine ⟨hheld.rooted (rooted_announceView hrooted v _), fun hnew => hopenly ⟨[v], ?_⟩⟩
      refine (hplaces.heralds fun hsame => ?_).trans_hushed hheld
      have hmade := hw.stagedIn_lt hsame.symm
      rw [hr (hnew v x hv hx)] at hmade
      exact Nat.lt_irrefl _ hmade

/-- A commit empties the place if it succeeds, and keeps it if the record cannot be
committed. -/
theorem commitStaging_stagesOpenly (hw : w.Rooted) {view : String} {as : Option String} :
    (w.perform (.commitStaging view as)).2.Rooted ∧ StagesOpenly w (.commitStaging view as) := by
  cases hv : w.viewNames.lookup view with
  | none =>
    have heq := perform_of_no_view hv (.inr (.inl ⟨as, rfl⟩))
    exact ⟨heq.symm ▸ hw, (heq.symm ▸ Overlooks.refl w : Overlooks _ _).stagesOpenly hv⟩
  | some v =>
    have hperform := perform_commitStaging hv as
    have hcommits : ∀ {u}, (Action.commitStaging view as).commits? w = some u → u = v :=
      fun hu => Option.some.inj (hu.symm.trans hv)
    have hcases := commitStaging_commits v w
    generalize w.commitStaging v = q at hperform hcases
    have hheld := hushed_answerHeld as q
    rw [← hperform] at hheld
    cases hcases with
    | idle hnone =>
      refine ⟨hheld.rooted hw, fun _ _ he => ?_, fun _ => ⟨[], hheld.heralds⟩, fun hu hlost => ?_⟩
      · rw [hperform] at he
        cases he
      · obtain ⟨r, _, _, hr, -⟩ := hcommits hu ▸ hlost
        rw [hnone] at hr
        cases hr
    | refused hkeeps hhushed =>
      have hall := hhushed.trans hheld
      exact ⟨hall.rooted hw, fun _ _ _ => hall.stagedIn _, fun _ => ⟨[], hall.heralds⟩,
        fun hu hlost => absurd (hcommits hu ▸ hlost) hkeeps⟩
    | lost hlost hplaces =>
      have hall := hplaces.trans_hushed hheld (by simp)
      exact ⟨hall.rooted hw (by simp), fun hu hkeeps => absurd hlost (hcommits hu ▸ hkeeps),
        fun hkeeps => absurd hlost (hkeeps v hv), fun hu _ => hcommits hu ▸ hall⟩
    | done hkeeps hr hplaces =>
      refine ⟨hheld.rooted (rooted_announceView (hplaces.rooted hw (by simp)) v _),
        fun _ _ he => ?_, fun _ => ⟨[v], ?_⟩, fun hu hlost => ?_⟩
      · rw [hperform] at he
        cases he
      · exact (hplaces.heralds (by rw [hr]; simp)).trans_hushed hheld
      · exact absurd (hcommits hu ▸ hlost) hkeeps

theorem discardStaging_stagesOpenly (hw : w.Rooted) {view : String} {as : Option String} :
    (w.perform (.discardStaging view as)).2.Rooted ∧
      StagesOpenly w (.discardStaging view as) := by
  have hopenly : (∃ changed, Heralds changed w (w.perform (.discardStaging view as)).2) →
      StagesOpenly w (.discardStaging view as) :=
    fun h => ⟨fun hv => (by cases hv), fun _ => h, fun hv => (by cases hv)⟩
  cases hv : w.viewNames.lookup view with
  | none =>
    have heq := perform_of_no_view hv (.inr (.inr ⟨as, rfl⟩))
    exact ⟨heq.symm ▸ hw, hopenly ⟨[], heq.symm ▸ (Hushed.refl w).heralds⟩⟩
  | some v =>
    have hheld := hushed_answerHeld as (.ok (w.discardStaging v).1, (w.discardStaging v).2)
    rw [← perform_discardStaging hv] at hheld
    obtain ⟨-, heq⟩ | ⟨r, w₁, hr, hplaces, heq⟩ := discardStaging_cases v w
    · rw [heq] at hheld
      exact ⟨hheld.rooted hw, hopenly ⟨[], hheld.heralds⟩⟩
    · rw [heq] at hheld
      exact ⟨hheld.rooted (rooted_announceView (hplaces.rooted hw (by simp)) v _),
        hopenly ⟨[v], (hplaces.heralds (by rw [hr]; simp)).trans_hushed hheld⟩⟩

/-- Wherever references lead to what was made, every action stages openly and keeps
it so. -/
theorem Rooted.stagesOpenly (hw : w.Rooted) (a : Action) :
    (w.perform a).2.Rooted ∧ (a.StagesNew w → StagesOpenly w a) := by
  cases hstages : a.stages with
  | false =>
    have hleft := perform_overlooks hstages w
    refine ⟨hleft.rooted hw, fun _ => hleft.stagesOpenly ?_⟩
    cases a with
    | commitStaging view as => cases hstages
    | _ => rfl
  | true =>
    cases a with
    | createStaging view key as => exact createStaging_stagesOpenly hw
    | commitStaging view as =>
      exact ⟨(commitStaging_stagesOpenly hw).1, fun _ => (commitStaging_stagesOpenly hw).2⟩
    | discardStaging view as =>
      exact ⟨(discardStaging_stagesOpenly hw).1, fun _ => (discardStaging_stagesOpenly hw).2⟩
    | _ => cases hstages

/-! ## Runs -/

theorem Boots.rooted (hb : Boots w) : w.Rooted where
  registered := by simp [hb.maps]
  staged := by simp [hb.views]
  views := by simp [hb.views]
  mapNames := by simp [hb.mapNames]
  stores := by simp [hb.stores]

/-- No action makes a reference to what was not made. -/
theorem Rooted.performAll (hw : w.Rooted) (actions : List Action) :
    (w.performAll actions).Rooted := by
  induction actions generalizing w with
  | nil => exact hw
  | cons a actions ih => exact ih (hw.stagesOpenly a).1

/-- In every state that a run leads to, a failed commit keeps what is staged and those
who listen hear of every change of it, but for a commit whose page is not read. -/
theorem stagesOpenly_of_run (hb : Boots w) (actions : List Action) {a : Action}
    (hnew : a.StagesNew (w.performAll actions)) : StagesOpenly (w.performAll actions) a :=
  ((hb.rooted.performAll actions).stagesOpenly a).2 hnew

/-- A view is listened to, and a record is staged in it. -/
def stagesOne : List Action :=
  [.openStore "store" .inMemory,
    .registerType "store" { table := "NOTES", fields := [⟨"TITLE", .text, true⟩] } "notes",
    .openView "list" "notes" "store" (.filter {}) (some 1),
    .subscribe (.view "list") { name := "ear" }, .createStaging "list" (.ofOrdinal 1) none]

/-- Another record is staged in its place, and the listener hears of it again. -/
theorem stagesOpenly_stagesOne : Boots {} ∧
    (Action.createStaging "list" (.ofOrdinal 2) none).StagesNew (performAll {} stagesOne) ∧
    (performAll {} stagesOne).stagings = ["ear"] ∧
    ((performAll {} stagesOne).perform (.createStaging "list" (.ofOrdinal 2) none)).2.stagings =
      ["ear", "ear"] ∧
    StagesOpenly (performAll {} stagesOne) (.createStaging "list" (.ofOrdinal 2) none) := by
  have hnew : (Action.createStaging "list" (.ofOrdinal 2) none).StagesNew
      (performAll {} stagesOne) := by
    intro v x hv hx
    cases hv
    cases hx
    rfl
  exact ⟨boots_empty, hnew, by rfl, by rfl, stagesOpenly_of_run boots_empty _ hnew⟩

/-- A workspace in which the fourth statement fails. -/
def fading : Workspace where
  outage := fun _ n => if n = 3 then some (.unavailable "disk I/O error") else none

/-- The page that follows the commit cannot be read. The commit fails, the staging place
is empty all the same, and the listener hears nothing. -/
theorem stagedRecordLost : Boots fading ∧
    (fading.performAll stagesOne).stagedIn 0 = some 0 ∧
    (fading.performAll stagesOne).listeningTo 0 = ["ear"] ∧
    ((fading.performAll stagesOne).perform (.commitStaging "list" none)).1 =
      .error (.store (.sql (.unavailable "disk I/O error"))) ∧
    ((fading.performAll stagesOne).perform (.commitStaging "list" none)).2.stagedIn 0 = none ∧
    ((fading.performAll stagesOne).perform (.commitStaging "list" none)).2.stagings =
      (fading.performAll stagesOne).stagings :=
  ⟨⟨rfl, rfl, rfl, rfl, rfl, rfl, rfl, rfl, rfl, by simp [fading]⟩, by rfl, by rfl, by rfl, by rfl,
    by rfl⟩

end LiveRecords.Workspace
