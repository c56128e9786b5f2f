import LiveRecords.Proofs.Strokes

/-!
# Operations on views, stroke by stroke

Each operation on views comes down to strokes, in every state and whatever statement
fails on the way. Only an action that resets a view lets it start again.
-/

namespace LiveRecords

theorem Core.Turns.bottom_le {k : Core} {m : MapRef} {x y : Window} (h : k.Turns m x y) :
    x.bottom ≤ y.bottom := by
  cases h with
  | stay => exact Nat.le_refl _
  | page => exact Nat.le_max_left _ _

namespace Workspace

variable {w w' : Workspace} {R : ViewRef → Prop} {v : ViewRef} {x : View} {m : MapRef}
  {r : RecordRef}

theorem Bypasses.strokes (h : Bypasses w w') : Strokes R w w' := .single (.aside h)

theorem setView_self {f : View → View} (hf : ∀ x, w.views[v]? = some x → f x = x) :
    w.setView v f = w := by
  have hviews : w.views.modify v f = w.views := by
    refine List.ext_getElem? fun j => ?_
    rw [List.getElem?_modify]
    cases hj : w.views[j]? with
    | none => rfl
    | some x =>
      by_cases hvj : v = j
      · subst hvj
        simp [hf x hj]
      · simp [hvj]
  rw [setView, hviews]

/-- A change of what rows, child views and listeners do not depend on. -/
theorem Alters.of_rows {y : View} (hmap : y.map = x.map) (hparent : y.parent = x.parent)
    (hlisteners : y.listeners = x.listeners) (hkeys : y.window.keys = x.window.keys)
    (hbottom : y.window.bottom = x.window.bottom) (hchildren : y.children = x.children)
    (hrows : y.rows = x.rows) : w.Alters v x y where
  map := hmap
  parent := hparent
  listeners := hlisteners
  filled hx := by rw [Window.Filled, hbottom, hkeys]; exact hx
  children e he := .inl (hchildren ▸ he)
  rows e he := .inl ⟨hrows ▸ he, hkeys ▸ List.prefix_refl _⟩
  bottom := hbottom
  kept hlook := hrows ▸ hlook

/-- A view is changed, if it is there. -/
theorem altered_strokes {f : View → View} (h : ∀ x, w.views[v]? = some x → w.Alters v x (f x)) :
    Strokes R w (w.setView v f) := by
  cases hx : w.views[v]? with
  | none =>
    rw [setView_self fun x hx' => by cases hx.symm.trans hx']
  | some x => exact .single (.altered hx (h x hx))

theorem told_strokes {e : ViewEvent} (he : e.isLocal = true) (v : ViewRef) (w : Workspace) :
    Strokes R w (announceView v w e) := by
  cases hx : w.views[v]? with
  | none => rw [announceView, hx]
  | some x => exact .single (.told hx he)

/-! ## Reading pages -/

/-- A page that cannot be read leaves the window; one that can is told of. -/
theorem prefetchWindow_told (m : MapRef) (count : Nat) (window : Window) (w : Workspace) :
    (∃ e, (w.prefetchWindow m count window).1 = (.error e, window)) ∨
      ∃ window', (w.prefetchWindow m count window).1 =
        (.ok (Window.growth window window'), window') := by
  have hsame : Window.growth window window = [] := by simp [Window.growth]
  unfold prefetchWindow
  split
  · exact .inr ⟨window, by rw [hsame]⟩
  · next map _ =>
    show (∃ e, (window.prefetch map.schema count (w.link map.connection)).1 = (.error e, window)) ∨
      ∃ window', (window.prefetch map.schema count (w.link map.connection)).1 =
        (.ok (Window.growth window window'), window')
    unfold Window.prefetch
    split
    · exact .inr ⟨window, by rw [hsame]⟩
    · split
      · next e _ _ => exact .inl ⟨e, rfl⟩
      · exact .inr ⟨_, rfl⟩

/-- Either a page comes in, or nothing that was read so far changes. -/
theorem prefetch_cases (hx : w.views[v]? = some x) (count : Nat) :
    ∃ w₁, Bypasses w w₁ ∧ ((∃ e, w.prefetch v count = (.error e, w₁)) ∨
      ∃ window, w.core.Turns x.map x.window window ∧ w.prefetch v count =
        (.ok (), (Window.growth x.window window).foldl (announceView v)
          (w₁.setView v fun x => { x with window }))) := by
  have hbypass := pervades_bypasses.prefetchWindow x.map count x.window w
  have hturns := prefetchWindow_turns x.map count x.window w
  have hresult := prefetchWindow_told x.map count x.window w
  refine ⟨_, hbypass, ?_⟩
  unfold prefetch
  rw [hx]
  dsimp only
  generalize w.prefetchWindow x.map count x.window = p at hbypass hturns hresult ⊢
  obtain ⟨⟨result, window⟩, w₁⟩ := p
  obtain ⟨e, hres⟩ | ⟨window', hres⟩ := hresult
  · cases hres
    refine .inl ⟨e, ?_⟩
    rw [setView_self]
    intro y hy
    cases (hbypass.views ▸ hy).symm.trans hx
    rfl
  · cases hres
    exact .inr ⟨window, hturns, rfl⟩

theorem prefetch_strokes (v : ViewRef) (count : Nat) (w : Workspace) :
    Strokes R w (w.prefetch v count).2 := by
  cases hx : w.views[v]? with
  | none =>
    rw [prefetch, hx]
  | some x =>
    obtain ⟨w₁, hbypass, ⟨e, heq⟩ | ⟨window, hturns, heq⟩⟩ := prefetch_cases hx count
    · rw [heq]
      exact hbypass.strokes
    · rw [heq]
      have hx₁ : w₁.views[v]? = some x := by rw [hbypass.views, hx]
      exact hbypass.strokes.tail (.paged hx₁ hturns.grows hturns.bottom_le hturns.filled)

/-- A page that cannot be read leaves all views as they are. -/
theorem views_of_prefetch_error {count : Nat} {e : StoreError}
    (h : w.prefetch v count = (.error e, w')) : w'.views = w.views := by
  cases hx : w.views[v]? with
  | none =>
    unfold prefetch at h
    rw [hx] at h
    cases h
  | some x =>
    obtain ⟨w₁, hbypass, ⟨_, heq⟩ | ⟨window, -, heq⟩⟩ := prefetch_cases hx count
    · rw [heq] at h
      cases h
      exact hbypass.views
    · rw [heq] at h
      cases h

theorem fetchMore_strokes (v : ViewRef) (w : Workspace) : Strokes R w (w.fetchMore v).2 := by
  unfold fetchMore
  split
  · exact .refl
  · exact prefetch_strokes v _ w

theorem reset_strokes (h : R v) (w : Workspace) : Strokes R w (w.reset v).2 := by
  unfold reset
  split
  · exact .refl
  · next x hx => exact .trans (.single (.reset hx h)) (prefetch_strokes v _ _)

/-! ## Opening views -/

/-- A view is opened, and is fresh, or nothing is. -/
inductive Opens (parent : Option RecordId) (w : Workspace) :
    Except StoreError ViewRef × Workspace → Prop
  | failed {w₁} (e : StoreError) (h : Bypasses w w₁) : Opens parent w (.error e, w₁)
  | opened {w₁ x} (h : Bypasses w w₁) (hx : x.Fresh) (hp : x.parent = parent) :
      Opens parent w (.ok w₁.views.length, { w₁ with views := w₁.views ++ [x] })

theorem Opens.strokes {parent : Option RecordId} {result : Except StoreError ViewRef}
    (h : Opens parent w (result, w')) : Strokes R w w' := by
  cases h with
  | failed e hbypass => exact hbypass.strokes
  | opened hbypass hfresh => exact hbypass.strokes.tail (.added hfresh)

theorem Opens.fresh {parent : Option RecordId} (h : Opens parent w (.ok v, w')) :
    w'.IsFresh v := by
  cases h with
  | @opened w₁ x hbypass hfresh => exact ⟨x, by simp, hfresh⟩

theorem addView_opens (m : MapRef) (f : Filter) (parent : Option RecordId) (fetchSize : Nat)
    (w : Workspace) : Opens parent w (w.addView m f parent fetchSize) := by
  unfold addView
  split
  · exact .failed _ (.refl w)
  have hbypass := pervades_bypasses.prefetchWindow m fetchSize { filter := f, fetchSize } w
  have hturns := prefetchWindow_turns m fetchSize { filter := f, fetchSize } w
  generalize w.prefetchWindow m fetchSize { filter := f, fetchSize } = p at hbypass hturns ⊢
  obtain ⟨⟨result, window⟩, w₁⟩ := p
  cases result with
  | error e => exact .failed e hbypass
  | ok es => exact .opened hbypass ⟨rfl, rfl, rfl, hturns.filled rfl⟩ rfl

theorem addChildView_opens (m : MapRef) (parent : RecordId) (fetchSize : Nat) (w : Workspace) :
    Opens (some parent) w (w.addChildView m parent fetchSize) := by
  unfold addChildView
  split
  · exact .failed _ (.refl w)
  · exact addView_opens m _ _ _ w

/-- A name is given to a view that is reached or fresh. -/
theorem holdView_strokes (as : Option String) (h : w.Reaches v ∨ w.IsFresh v) :
    Strokes R w (w.holdView as v) := by
  cases as with
  | none => exact .refl
  | some name =>
    refine .single (.named fun e he => ?_)
    obtain he | rfl := mem_bind he
    · exact .inl (.named he)
    · exact h

theorem openView_strokes (view : String) (m : MapRef) (s : Selection) (fetchSize : Nat)
    (w : Workspace) : Strokes R w (w.openView view m s fetchSize).2 := by
  unfold openView
  cases s with
  | filter f =>
    have hopens := addView_opens m f none fetchSize w
    dsimp only
    split
    · next hq => rw [hq] at hopens; exact hopens.strokes
    · next hq =>
      rw [hq] at hopens
      exact hopens.strokes.trans (holdView_strokes (some view) (.inr hopens.fresh))
  | below parent =>
    have hopens := addChildView_opens m parent fetchSize w
    dsimp only
    split
    · next hq => rw [hq] at hopens; exact hopens.strokes
    · next hq =>
      rw [hq] at hopens
      exact hopens.strokes.trans (holdView_strokes (some view) (.inr hopens.fresh))

/-- A child view is kept by the view that it is asked of. -/
theorem childView_strokes (v : ViewRef) (parent : RecordId) (w : Workspace) :
    Strokes R w (w.childView v parent).2 ∧
      ∀ c w', w.childView v parent = (.ok c, w') → w.Reaches v → w'.Reaches c ∨ w'.IsFresh c := by
  unfold childView
  split
  · refine ⟨.refl, fun c w' h hv => ?_⟩
    cases h
    exact .inl hv
  next x hx =>
  split
  · next c hlook =>
    refine ⟨.refl, fun c w' h hv => ?_⟩
    cases h
    exact .inl (.child hv hx (mem_of_lookup hlook))
  have hopens := addChildView_opens x.map parent x.window.fetchSize w
  generalize w.addChildView x.map parent x.window.fetchSize = p at hopens ⊢
  cases hopens with
  | failed e hbypass => exact ⟨hbypass.strokes, nofun⟩
  | @opened w₁ y hbypass hfresh hparent =>
    have hx₁ : w₁.views[v]? = some x := by rw [hbypass.views, hx]
    have hlt : v < w₁.views.length := (List.getElem?_eq_some_iff.mp hx₁).1
    have hadded := (hbypass.strokes (R := R)).tail (.added hfresh)
    refine ⟨hadded.tail (.altered (x := x) ?_ ⟨⟨rfl, rfl, id, fun e he => ?_,
      fun e he => .inl ⟨he, List.prefix_refl _⟩⟩, rfl, rfl, id⟩), fun c w' h _ => ?_⟩
    · rw [List.getElem?_append_left hlt]
      exact hx₁
    · obtain rfl | he := List.mem_cons.mp he
      · exact .inr ⟨hlt, y, by simp, hfresh, hparent⟩
      · exact .inl he
    · cases h
      refine .inr ⟨y, ?_, hfresh⟩
      simp [setView, Nat.ne_of_lt hlt]

/-! ## Rows in view -/

theorem register_registered {map : IdentityMap} (hm : w.maps[m]? = some map) (id : RecordId)
    (isNew : Bool) :
    (w.register m id isNew).2.registered? m id = some (w.register m id isNew).1 := by
  unfold register
  rw [hm]
  dsimp only
  split
  · next r hlook => exact Option.bind_eq_some_iff.mpr ⟨map, hm, hlook⟩
  · next hnone =>
    show Workspace.registered? (setMap _ m _) m id = _
    rw [registered?_setMap]
    simp [hm, List.lookup_append, hnone]

theorem resolve_registered {map : IdentityMap} (hm : w.maps[m]? = some map) (image : RowImage) :
    (w.resolve m image).2.registered? m image.id = some (w.resolve m image).1 := by
  have hreg := register_registered hm image.id false
  unfold resolve
  dsimp only
  split
  · exact hreg
  · next i hi =>
    exact (pervades_bypasses.passing.hydrate hi image).registered hreg

theorem load_registered {id : RecordId} (h : w.load m id = (.ok (some r), w')) :
    w'.registered? m id = some r := by
  unfold load at h
  split at h
  · cases h
  · cases h
  next image w₁ hq =>
  cases hm : w.maps[m]? with
  | none =>
    rw [onTable, hm] at hq
    cases hq
  | some map =>
    rw [onTable_of_some hm] at hq
    have hstill : Still w w₁ := by
      have hthrough : Still w (w.through map.connection fun l => l.selectOne map.schema id).2 :=
        still_through (Link.database_selectOne _ _ _)
      rwa [hq] at hthrough
    have hm₁ : w₁.maps[m]? = some map := by
      rw [show w₁.maps = w.maps from congrArg Core.maps hstill.1, hm]
    have hid : image.id = id := Link.selectOne_id (congrArg Prod.fst hq)
    cases h
    exact hid ▸ resolve_registered hm₁ image

/-- The record for a key is the one that is registered under it. -/
theorem recordFor_registered {id : RecordId} (h : w.recordFor m id = (.ok r, w')) :
    w'.registered? m id = some r := by
  unfold recordFor at h
  split at h
  · next hreg =>
    cases h
    exact hreg
  · split at h
    · cases h
    · next hq =>
      cases h
      exact load_registered hq
    · cases h

theorem recordAt_strokes (v : ViewRef) (row : Nat) (w : Workspace) :
    Strokes R w (w.recordAt v row).2 ∧ (w.recordAt v row).2.viewNames = w.viewNames := by
  unfold recordAt
  split
  · exact ⟨.refl, rfl⟩
  next x hx =>
  split
  · exact ⟨.refl, rfl⟩
  next key hkey =>
  split
  · exact ⟨.refl, rfl⟩
  next hnone =>
  have hbypass := pervades_bypasses.recordFor x.map key w
  split
  · next hq => rw [hq] at hbypass; exact ⟨hbypass.strokes, hbypass.viewNames⟩
  · next r w₁ hq =>
    rw [hq] at hbypass
    have hreg := recordFor_registered hq
    refine ⟨hbypass.strokes.tail (.altered (x := x) (hbypass.views ▸ hx) ⟨⟨rfl, rfl, id,
      fun e he => .inl he, fun e he => ?_⟩, rfl, rfl, fun {row' r'} hlook => ?_⟩),
      hbypass.viewNames⟩
    · obtain rfl | he := List.mem_cons.mp he
      · exact .inr ⟨key, key?_eq_some hkey, hreg⟩
      · exact .inl ⟨he, List.prefix_refl _⟩
    · have hne : row' ≠ row := fun heq => by
        rw [heq, hnone] at hlook
        cases hlook
      rw [List.lookup_cons, beq_false_of_ne hne]
      exact hlook

/-- A child view that is shown of a view with a name can be given one. -/
theorem data_strokes (v : ViewRef) (row : Nat) (role : Role) (w : Workspace) :
    Strokes R w (w.data v row role).2 ∧ ∀ {name c w'}, (name, v) ∈ w.viewNames →
      w.data v row role = (.ok (.children c), w') → w'.Reaches c ∨ w'.IsFresh c := by
  obtain ⟨hrow, hnames⟩ := recordAt_strokes (R := R) v row w
  unfold data
  generalize w.recordAt v row = p at hrow hnames ⊢
  obtain ⟨result, w₁⟩ := p
  cases result with
  | error e => exact ⟨hrow, nofun⟩
  | ok r =>
    cases role with
    | field field =>
      refine ⟨hrow, fun _ h => ?_⟩
      cases hvalue : w₁.valueOf r field <;> simp [hvalue] at h
    | record => exact ⟨hrow, nofun⟩
    | children =>
      dsimp only at hrow hnames ⊢
      cases w₁.keyOf r with
      | none => exact ⟨hrow, nofun⟩
      | some id =>
        obtain ⟨hchild, hkept⟩ := childView_strokes (R := R) v id w₁
        dsimp only
        generalize w₁.childView v id = p at hchild hkept ⊢
        obtain ⟨result, w₂⟩ := p
        refine ⟨hrow.trans hchild, fun {name c w'} hv h => ?_⟩
        cases result with
        | error e => cases h
        | ok c =>
          cases h
          exact hkept c w₂ rfl (.named (hnames ▸ hv))

theorem showData_strokes {name : String} (hv : (name, v) ∈ w.viewNames) (row : Nat) (role : Role)
    (as : Option String) : Strokes R w (w.showData v row role as).2 := by
  obtain ⟨hdata, hkept⟩ := data_strokes (R := R) v row role w
  unfold showData
  split
  · next hq => rw [hq] at hdata; exact hdata
  · next hq => rw [hq] at hdata; exact hdata
  · next hq => rw [hq] at hdata; exact hdata.trans (holdView_strokes as (hkept hv hq))
  · next r w₁ hq => rw [hq] at hdata; exact hdata.trans (pervades_bypasses.holdAs w₁ as r).strokes

theorem columnFrom_strokes (v : ViewRef) (field : String) (n row : Nat) (w : Workspace) :
    Strokes R w (columnFrom v field n row w).2 := by
  induction n generalizing row w with
  | zero => exact .refl
  | succ n ih => exact (data_strokes v row (.field field) w).1.trans (ih (row + 1) _)

/-! ## Edits -/

theorem setData_strokes (v : ViewRef) (row : Nat) (role : Role) (value : Value) (w : Workspace) :
    Strokes R w (w.setData v row role value).2 := by
  unfold setData
  cases role with
  | children => exact .refl
  | record => exact .refl
  | field field =>
    have hrow := (recordAt_strokes (R := R) v row w).1
    dsimp only
    split
    · next hq => rw [hq] at hrow; exact hrow
    · next r w₁ hq =>
      rw [hq] at hrow
      have hset := hrow.trans (pervades_bypasses.passing.run r (.set field value) w₁).strokes
      split
      · next hq' => rw [hq'] at hset; exact hset
      · next hq' => rw [hq'] at hset; exact hset.trans (told_strokes rfl v _)
      · next hq' => rw [hq'] at hset; exact hset

/-! ## Staging -/

theorem setStaging_strokes (v : ViewRef) (staging : Option RecordRef) (w : Workspace) :
    Strokes R w (announceView v (w.setView v fun x => { x with staging }) .stagingChanged) := by
  refine .trans (altered_strokes fun x _ => ?_) (told_strokes rfl v _)
  exact .of_rows rfl rfl rfl rfl rfl rfl rfl

theorem createStaging_strokes (v : ViewRef) (key : RecordId) (w : Workspace) :
    Strokes R w (w.createStaging v key).2 := by
  unfold createStaging
  split
  · exact .refl
  next x _ =>
  have hreg := (pervades_bypasses.register x.map key true w).strokes (R := R)
  generalize w.register x.map key true = p at hreg
  obtain ⟨r, w₁⟩ := p
  dsimp only at hreg ⊢
  split
  · next parent i _ hi =>
    have hplace := (pervades_bypasses.passing.place hi (some parent)).strokes (R := R)
    exact (hreg.trans hplace).trans (setStaging_strokes v (some r) _)
  · exact hreg.trans (setStaging_strokes v (some r) _)

theorem commitStaging_strokes (v : ViewRef) (w : Workspace) :
    Strokes R w (w.commitStaging v).2 := by
  unfold commitStaging
  split
  · exact .refl
  next r _ =>
  have hrun := (pervades_bypasses.passing.run r .commit w).strokes (R := R)
  split
  · next hq => rw [hq] at hrun; exact hrun
  · next w₁ hq =>
    rw [hq] at hrun
    have hresumed : Strokes R w₁ (w₁.setView v fun x =>
        { x with staging := none, window := { x.window with atEnd := false } }) :=
      altered_strokes fun x _ => .of_rows rfl rfl rfl rfl rfl rfl rfl
    have hmore := (hrun.trans hresumed).trans (fetchMore_strokes v _)
    dsimp only
    split
    · next hq' => rw [hq'] at hmore; exact hmore
    · next hq' => rw [hq'] at hmore; exact hmore.trans (told_strokes rfl v _)

theorem discardStaging_strokes (v : ViewRef) (w : Workspace) :
    Strokes R w (w.discardStaging v).2 := by
  unfold discardStaging
  split
  · exact .refl
  · exact setStaging_strokes v none w

/-! ## Letting go -/

theorem release_strokes (m : MapRef) (r : RecordRef) (w : Workspace) :
    Strokes R w (w.release m r).2 := by
  obtain hsame | ⟨hfree, hbypass⟩ := pervades_bypasses.release m r w
  · rw [hsame]
  · refine .trans (.single (.freed m fun r' hr' => ?_)) hbypass.strokes
    obtain rfl := List.mem_singleton.mp hr'
    unfold isFree at hfree
    split at hfree
    · cases hfree
    · simpa using (Bool.and_eq_true_iff.mp hfree).2

theorem sweep_strokes (m : MapRef) (w : Workspace) : Strokes R w (w.sweep m).2 := by
  refine .trans (.single (.freed m fun r hr => ?_)) (pervades_bypasses.sweep m w).strokes
  unfold unheld at hr
  cases hm : w.maps[m]? with
  | none => rw [hm] at hr; cases hr
  | some map =>
    rw [hm] at hr
    simpa using (List.mem_filter.mp hr).2

/-! ## Actions -/

/-- An action that resets a view where it is taken. -/
def Action.Resets (w : Workspace) (a : Action) (v : ViewRef) : Prop :=
  a.isReset = true ∧ a.pages? w = some v

/-- An action by which someone begins or stops to listen to a view. -/
def Action.tunes : Action → Bool
  | .subscribe (.view _) _ | .unsubscribe (.view _) _ => true
  | _ => false

theorem strokes_answerHeld {as : Option String}
    {p : Except StoreError (Option RecordRef) × Workspace} (h : Strokes R w p.2) :
    Strokes R w (answerHeld as p).2 :=
  h.trans (pervades_bypasses.answerHeld (.refl p.2)).strokes

/-- Every action comes down to strokes, unless someone begins or stops to listen to a
view, and resets no other view than the one that it is to reset. -/
theorem perform_strokes {a : Action} (h : a.tunes = false) (w : Workspace) :
    Strokes (a.Resets w) w (w.perform a).2 := by
  cases hwatch : a.watches with
  | false =>
    cases hr : a.releases with
    | false => exact (bypasses_perform hwatch hr w).strokes
    | true =>
      cases a with
      | dropView view =>
        exact .single (.named fun e he => .inl (.named (mem_unbind he)))
      | release map record =>
        refine withMap_preserves .refl fun m _ => withRecord_preserves .refl fun r _ => ?_
        rw [snd_answer]
        exact (pervades_bypasses.letGo w record).strokes.trans (release_strokes m r _)
      | sweep map =>
        refine withMap_preserves .refl fun m _ => ?_
        rw [snd_answer]
        exact sweep_strokes m w
      | _ => cases hr
  | true =>
    cases a with
    | subscribe s l =>
      cases s with
      | view name => cases h
      | _ => cases hwatch
    | unsubscribe s as =>
      cases s with
      | view name => cases h
      | _ => cases hwatch
    | openView view map store s fetchSize =>
      refine withMap_preserves .refl fun m _ => ?_
      cases fetchSize with
      | some n => exact openView_strokes view m s n w
      | none => exact withStore_preserves .refl fun st _ => openView_strokes view m s _ w
    | fetchMore view =>
      refine withView_preserves .refl fun v _ => ?_
      rw [snd_answer]
      exact fetchMore_strokes v w
    | prefetch view n =>
      refine withView_preserves .refl fun v _ => ?_
      rw [snd_answer]
      exact prefetch_strokes v n w
    | reset view =>
      refine withView_preserves .refl fun v hv => ?_
      rw [snd_answer]
      exact reset_strokes ⟨rfl, by rw [Action.pages?]; exact hv⟩ w
    | row view row as =>
      refine withView_preserves .refl fun v _ => ?_
      exact strokes_answerHeld (recordAt_strokes v row w).1
    | data view row role as =>
      exact withView_preserves .refl fun v hv => showData_strokes (mem_of_lookup hv) row role as
    | column view field =>
      exact withView_preserves .refl fun v _ => columnFrom_strokes v field _ 0 w
    | setData view row role value =>
      refine withView_preserves .refl fun v _ => ?_
      rw [snd_answer]
      exact setData_strokes v row role value w
    | childView view parent as =>
      refine withView_preserves .refl fun v hv => ?_
      obtain ⟨hchild, hkept⟩ := childView_strokes (R := Action.Resets w _) v parent w
      split
      · next hq => rw [hq] at hchild; exact hchild
      · next c w₁ hq =>
        rw [hq] at hchild
        exact hchild.trans (holdView_strokes as (hkept c w₁ hq (.of_lookup hv)))
    | createStaging view key as =>
      exact withView_preserves .refl fun v _ => strokes_answerHeld (createStaging_strokes v key w)
    | commitStaging view as =>
      exact withView_preserves .refl fun v _ => strokes_answerHeld (commitStaging_strokes v w)
    | discardStaging view as =>
      exact withView_preserves .refl fun v _ => strokes_answerHeld (discardStaging_strokes v w)
    | _ => cases hwatch

end Workspace

end LiveRecords
