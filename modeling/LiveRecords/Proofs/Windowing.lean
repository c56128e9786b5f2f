import LiveRecords.Proofs.Drawing

/-!
# Windows along a run

In every state that a program reaches, whatever else wrote to the tables and whatever
statement failed, a view shows exactly the keys that it has confirmed, and the rows it
has resolved stand for the records registered under their keys. What it tells those
who listen adds up to the rows in view.
-/

namespace LiveRecords

/-- A window that shows all its keys asks for as many as it lacks. -/
theorem Window.Filled.seek {x : Window} (h : x.Filled) {count : Nat} (hlt : x.bottom < count) :
    ∃ missing, 0 < missing ∧ x.keys.length + missing = count ∧ ∀ s l, x.seek s count l =
      match l.selectKeys s x.filter x.keys.length missing with
      | (.ok page, l) => (.ok (x.keys ++ page), l)
      | (.error e, l) => (.error e, l) := by
  unfold Window.Filled at h
  refine ⟨count - x.keys.length, by omega, by omega, fun s l => ?_⟩
  exact if_neg (by omega)

namespace Workspace

variable {w w' : Workspace} {v : ViewRef} {x : View} {row : Nat} {r : RecordRef}
  {a : Action} {actions : List Action}

/-! ## Actions -/

/-- A view does not depend on who listens to it. -/
theorem setListeners_unfolds {R : ViewRef → Prop} {j : ViewRef} (hx : w.views[j]? = some x)
    (listeners : Observers String) (hw : w.Consistent) (v : ViewRef) :
    (w.setView j fun x => { x with listeners }).Consistent ∧
      Unfolds R v [] w (w.setView j fun x => { x with listeners }) := by
  refine ⟨hw.setView hx ⟨rfl, rfl, id, fun _ he => .inl he,
    fun _ he => .inl ⟨he, List.prefix_refl _⟩⟩, fun {y} hy => ?_, fun _ => ?_, nofun⟩
  · by_cases hj : j = v
    · subst hj
      exact ⟨{ y with listeners }, by simp [setView, hy], .nil _, fun _ _ _ h => h⟩
    · exact ⟨y, by simp [setView, hj, hy], .refl y⟩
  · exact (List.append_nil _).symm

/-- Who begins or stops to listen to a view is told nothing by it. -/
theorem tuned_unfolds {R : ViewRef → Prop} (h : a.tunes = true) (hw : w.Consistent)
    (v : ViewRef) : (w.perform a).2.Consistent ∧ Unfolds R v [] w (w.perform a).2 := by
  have hsame : w.Consistent ∧ Unfolds R v [] w w := ⟨hw, .refl R v w⟩
  cases a with
  | subscribe s l =>
    cases s with
    | view name =>
      refine withView_preserves (P := fun w' => w'.Consistent ∧ Unfolds R v [] w w') hsame
        fun j _ => ?_
      split
      · exact hsame
      · next x hx =>
        obtain ⟨hset, hunfolds⟩ := setListeners_unfolds (R := R) hx
          (x.listeners.subscribe l.name).2 hw v
        exact ⟨hset.of_views rfl rfl id hset.labelled, hunfolds.views, hunfolds.news, nofun⟩
    | _ => cases h
  | unsubscribe s as =>
    cases s with
    | view name =>
      rw [perform]
      split
      · exact hsame
      · next id _ =>
        refine withView_preserves (P := fun w' => w'.Consistent ∧ Unfolds R v [] w w') hsame
          fun j _ => ?_
        split
        · exact hsame
        · next x hx => exact setListeners_unfolds hx (x.listeners.unsubscribe id).2 hw v
    | _ => cases h
  | _ => cases h

/-- What an action makes of a view, and what the view tells of it. -/
theorem perform_unfolds (a : Action) (hw : w.Consistent) (v : ViewRef) :
    (w.perform a).2.Consistent ∧ ∃ es, Unfolds (a.Resets w) v es w (w.perform a).2 := by
  cases h : a.tunes with
  | false =>
    have hstrokes := perform_strokes h w
    obtain ⟨es, hunfolds, -⟩ := unfolds_of_strokes hstrokes v
    exact ⟨hw.strokes hstrokes, es, hunfolds⟩
  | true =>
    obtain ⟨hw', hunfolds⟩ := tuned_unfolds h hw v
    exact ⟨hw', [], hunfolds⟩

/-! ## Runs -/

theorem Consistent.performAll (hw : w.Consistent) (actions : List Action) :
    (w.performAll actions).Consistent := by
  induction actions generalizing w with
  | nil => exact hw
  | cons a actions ih => exact ih (perform_unfolds a hw 0).1

theorem Boots.consistent (hb : Boots w) : w.Consistent where
  filled x hx := by
    rw [hb.views] at hx
    cases hx
  ordered {v x} hx := by
    rw [hb.views] at hx
    cases hx
  parents {v x} hx := by
    rw [hb.views] at hx
    cases hx
  rows {v x} _ hx := by
    rw [hb.views] at hx
    cases hx
  labelled map hmap := by
    rw [hb.maps] at hmap
    cases hmap

/-- What becomes of a view along a run, and what those hear who listen to it all along. -/
theorem performAll_unfolds (hw : w.Consistent) (actions : List Action) (v : ViewRef) :
    ∃ es, (∀ {x}, w.views[v]? = some x →
        ∃ y, (w.performAll actions).views[v]? = some y ∧ View.Leads es x y) ∧
      (∀ {name}, (∀ k ≤ actions.length, (w.performAll (actions.take k)).Listens name v) →
        (w.performAll actions).news name = w.news name ++ es) ∧
      (Follows (fun w a => ¬a.Resets w v) w actions → .reset ∉ es) := by
  induction actions generalizing w with
  | nil =>
    exact ⟨[], fun hx => ⟨_, hx, .refl _⟩, fun _ => (List.append_nil _).symm, fun _ => nofun⟩
  | cons a actions ih =>
    obtain ⟨hw₁, es, hunfolds⟩ := perform_unfolds a hw v
    obtain ⟨es', hviews, hnews, hresets⟩ := ih hw₁
    refine ⟨es ++ es', fun hx => ?_, fun hl => ?_, fun ha hin => ?_⟩
    · obtain ⟨y, hy, hleads⟩ := hunfolds.views hx
      obtain ⟨z, hz, hleads'⟩ := hviews hy
      exact ⟨z, hz, hleads.trans hleads'⟩
    · have hfirst := hunfolds.news (hl 0 (Nat.zero_le _))
      have hrest := hnews fun k hk => hl (k + 1) (Nat.succ_le_succ hk)
      exact hrest.trans (by rw [hfirst, List.append_assoc])
    · rcases List.mem_append.mp hin with hin | hin
      · exact ha.1 (hunfolds.resets hin)
      · exact hresets ha.2 hin

/-! ## Windows -/

/-- What holds of a view at any time. -/
structure Windowed (w : Workspace) (v : ViewRef) (x : View) : Prop where
  count : x.window.bottom = x.window.keys.length
  keys : ∀ row < x.window.bottom, ∃ id, x.window.keys[row]? = some id
  rows : ∀ e ∈ x.rows, e.1 < x.window.bottom ∧ ∃ id, x.window.keys[e.1]? = some id ∧
    w.keyOf e.2 = some id ∧ w.registered? x.map id = some e.2
  children : ∀ e ∈ x.children, ∃ y, w.views[e.2]? = some y ∧ y.parent = some e.1
  /-- What is asked of the table is what is missing, and something is. -/
  seeks : ∀ {count}, x.window.bottom < count →
    ∃ missing, 0 < missing ∧ x.window.keys.length + missing = count ∧
      ∀ s l, x.window.seek s count l =
        match l.selectKeys s x.window.filter x.window.keys.length missing with
        | (.ok page, l) => (.ok (x.window.keys ++ page), l)
        | (.error e, l) => (.error e, l)
  failed : ∀ {count e w'}, w.prefetch v count = (.error e, w') → w'.views = w.views

theorem Labelled.keyOf (h : w.Labelled) {m : MapRef} {id : RecordId}
    (hr : w.registered? m id = some r) : w.keyOf r = some id := by
  obtain ⟨map, hmap, hlook⟩ := Option.bind_eq_some_iff.mp hr
  exact h map (List.mem_of_getElem? hmap) _ (mem_of_lookup hlook)

theorem Consistent.windowed (hw : w.Consistent) (hx : w.views[v]? = some x) (hv : w.Reaches v) :
    w.Windowed v x := by
  have hfilled := hw.filled x (List.mem_of_getElem? hx)
  refine ⟨hfilled, fun row hrow => ?_, fun e he => ?_, hw.parents hx, hfilled.seek,
    views_of_prefetch_error⟩
  · rw [hfilled] at hrow
    exact ⟨_, List.getElem?_eq_getElem hrow⟩
  · obtain ⟨id, hid, hreg⟩ := hw.rows hv hx e he
    have hlt := (List.getElem?_eq_some_iff.mp hid).1
    exact ⟨hfilled ▸ hlt, id, hid, hw.labelled.keyOf hreg, hreg⟩

/-- A row that is resolved is in view, and has its record from then on. -/
theorem recordAt_cached (h : w.recordAt v row = (.ok r, w')) :
    ∃ x, w'.views[v]? = some x ∧ row < x.window.bottom ∧ x.rows.lookup row = some r := by
  cases hx : w.views[v]? with
  | none =>
    rw [recordAt, hx] at h
    cases h
  | some x =>
    obtain ⟨id, y, hkey, hy, -, hwindow, hlook⟩ := recordAt_kept hx h
    refine ⟨y, hy, ?_, hlook⟩
    rw [hwindow]
    unfold Window.key? at hkey
    split at hkey
    · next hlt => exact hlt
    · cases hkey

theorem Consistent.recordAt_eq (hw : w.Consistent) (hx : w.views[v]? = some x)
    (hrow : row < x.window.bottom) (hlook : x.rows.lookup row = some r) :
    w.recordAt v row = (.ok r, w) := by
  obtain ⟨id, hid⟩ : ∃ id, x.window.keys[row]? = some id :=
    ⟨_, List.getElem?_eq_getElem (hw.filled x (List.mem_of_getElem? hx) ▸ hrow)⟩
  unfold recordAt
  rw [hx]
  dsimp only
  rw [Window.key?, if_pos hrow, hid]
  dsimp only
  rw [hlook]

/-- A row keeps its record until the view is reset. -/
theorem recordAt_lasting (hw : w.Consistent) (h : w.recordAt v row = (.ok r, w'))
    (ha : Follows (fun w a => ¬a.Resets w v) w' actions) :
    (w'.performAll actions).recordAt v row = (.ok r, w'.performAll actions) := by
  have hw' : w'.Consistent := by
    have hstrokes := (recordAt_strokes (R := fun _ => False) v row w).1
    rw [h] at hstrokes
    exact hw.strokes hstrokes
  obtain ⟨x, hx, hrow, hlook⟩ := recordAt_cached h
  obtain ⟨es, hviews, -, hresets⟩ := performAll_unfolds hw' actions v
  obtain ⟨y, hy, hleads⟩ := hviews hx
  have hno := hresets ha
  exact (hw'.performAll actions).recordAt_eq hy
    (Nat.lt_of_lt_of_le hrow (hleads.lead.le hno)) (hleads.kept hno hlook)

/-- Along every run, whatever fails, a view shows the keys that it has confirmed, keeps
the registered record of each row that it has resolved, and asks for keys that it lacks;
a page that cannot be read leaves it as it was. A row gives the same record until the
view is reset. The ranges that those hear who listen all along cover the rows that came
into view since they began, or since the last reset, each once and in order. -/
theorem windowed_of_run (hb : Boots w) {before after : List Action}
    (hx : (w.performAll before).views[v]? = some x)
    (hv : (w.performAll (before ++ after)).Reaches v) :
    ∃ y es, (w.performAll (before ++ after)).views[v]? = some y ∧
      (w.performAll (before ++ after)).Windowed v y ∧
      (∀ {row r w'}, (w.performAll (before ++ after)).recordAt v row = (.ok r, w') →
        ∀ {later}, Follows (fun w a => ¬a.Resets w v) w' later →
          (w'.performAll later).recordAt v row = (.ok r, w'.performAll later)) ∧
      ViewEvent.Tiled x.window.bottom es y.window.bottom ∧
      ∀ {name}, (∀ k ≤ after.length, (w.performAll (before ++ after.take k)).Listens name v) →
        (w.performAll (before ++ after)).news name = (w.performAll before).news name ++ es := by
  have hw := hb.consistent.performAll before
  simp only [performAll_append] at hv ⊢
  obtain ⟨es, hviews, hnews, -⟩ := performAll_unfolds hw after v
  obtain ⟨y, hy, hleads⟩ := hviews hx
  have hw' := hw.performAll after
  exact ⟨y, es, hy, hw'.windowed hy hv, fun h _ ha => recordAt_lasting hw' h ha,
    hleads.lead.tiled, hnews⟩

/-- A program that saves two notes and shows the first one to someone who listens. -/
def listsToEar : List Action :=
  [.openStore "store" .inMemory,
    .registerType "store"
      { table := "NOTES", fields := [⟨"TITLE", .text, true⟩], parentColumn := some "PARENT" }
      "notes",
    .newRecord "notes" (.ofOrdinal 1) (some "first"), .command "first" .commit,
    .newRecord "notes" (.ofOrdinal 2) (some "second"), .command "second" .commit,
    .openView "list" "notes" "store" (.filter {}) (some 1),
    .subscribe (.view "list") { name := "ear" }]

/-- It goes on to the second note, looks below it, and starts again. -/
def startsAgain : List Action :=
  [.fetchMore "list", .data "list" 1 .children none, .reset "list", .row "list" 0 none,
    .fetchMore "list"]

theorem listens_of_views (hv : v < w.views.length) {name : String}
    (h : ∀ j < w.views.length, w.hearers name j = if j = v then 1 else 0) : w.Listens name v := by
  intro j
  by_cases hj : j < w.views.length
  · exact h j hj
  · have hne : j ≠ v := fun heq => hj (heq ▸ hv)
    rw [if_neg hne, hearers, List.getElem?_eq_none (Nat.le_of_not_lt hj)]
    rfl

theorem windowed_listsToEar :
    ∃ y, (performAll {} (listsToEar ++ startsAgain)).views[0]? = some y ∧
      Windowed (performAll {} (listsToEar ++ startsAgain)) 0 y ∧ y.window.bottom = 2 ∧
      ViewEvent.Tiled 1 [.rowsInserted 1 2, .reset, .rowsInserted 0 1, .rowsInserted 1 2] 2 ∧
      ∃ r w', (performAll {} (listsToEar ++ startsAgain)).recordAt 0 0 = (.ok r, w') ∧
        (w'.performAll [.fetchMore "list"]).recordAt 0 0 =
          (.ok r, w'.performAll [.fetchMore "list"]) := by
  have hx : (performAll {} listsToEar).views[0]? =
      some ((performAll {} listsToEar).views.get ⟨0, by decide +kernel⟩) :=
    List.getElem?_eq_getElem _
  have hname : (performAll {} (listsToEar ++ startsAgain)).viewNames.lookup "list" = some 0 := by
    decide +kernel
  have hl : ∀ k ≤ startsAgain.length,
      (performAll {} (listsToEar ++ startsAgain.take k)).Listens "ear" 0 := by
    have hall : ∀ k ≤ startsAgain.length,
        0 < (performAll {} (listsToEar ++ startsAgain.take k)).views.length ∧
        ∀ j < (performAll {} (listsToEar ++ startsAgain.take k)).views.length,
          (performAll {} (listsToEar ++ startsAgain.take k)).hearers "ear" j =
            if j = 0 then 1 else 0 := by decide +kernel
    exact fun k hk => listens_of_views (hall k hk).1 (hall k hk).2
  have hbottoms : ((performAll {} listsToEar).views[0]?).map (·.window.bottom) = some 1 ∧
      ((performAll {} (listsToEar ++ startsAgain)).views[0]?).map (·.window.bottom) = some 2 ∧
      (performAll {} listsToEar).news "ear" = [] ∧
      (performAll {} (listsToEar ++ startsAgain)).news "ear" =
        [.rowsInserted 1 2, .reset, .rowsInserted 0 1, .rowsInserted 1 2] := by
    decide +kernel
  obtain ⟨hfirst, hlast, hbefore, hafter⟩ := hbottoms
  obtain ⟨y, es, hy, hwindowed, hlasts, htiled, hnews⟩ :=
    windowed_of_run boots_empty hx (.of_lookup hname)
  rw [hnews hl, hbefore, List.nil_append] at hafter
  subst hafter
  rw [hx, Option.map_some, Option.some.injEq] at hfirst
  rw [hy, Option.map_some, Option.some.injEq] at hlast
  rw [hfirst, hlast] at htiled
  have hresolved : ((performAll {} (listsToEar ++ startsAgain)).recordAt 0 0).1.isOk = true := by
    decide +kernel
  cases hq : (performAll {} (listsToEar ++ startsAgain)).recordAt 0 0 with
  | mk res w' =>
    rw [hq] at hresolved
    cases res with
    | error e => cases hresolved
    | ok r =>
      have hgrows : ¬(Action.fetchMore "list").Resets w' 0 := fun h => nomatch h.1
      exact ⟨y, hy, hwindowed, hlast, htiled, r, w', rfl, hlasts hq ⟨hgrows, trivial⟩⟩

end Workspace

end LiveRecords
