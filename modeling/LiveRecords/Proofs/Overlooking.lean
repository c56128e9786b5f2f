import LiveRecords.Proofs.Hushing
import LiveRecords.Proofs.Runs

/-!
# Actions that are about no staging place

Of all that a program can do only three actions are about the staging place of a
view. Every other action leaves what is staged, and nobody hears that it changed.
-/

namespace LiveRecords.Workspace

variable {w w' : Workspace}

/-- What an action leaves that is about no staging place. -/
structure Overlooks (w w' : Workspace) : Prop where
  stagings : w'.stagings = w.stagings
  stagedIn : ∀ v, w'.stagedIn v = w.stagedIn v
  rooted : w.Rooted → w'.Rooted

theorem Hushed.overlooks (h : Hushed w w') : Overlooks w w' := ⟨h.stagings, h.stagedIn, h.rooted⟩

theorem Overlooks.refl (w : Workspace) : Overlooks w w := (Hushed.refl w).overlooks

theorem hushed_holdView (as : Option String) (v : ViewRef) (w : Workspace) :
    Hushed w (w.holdView as v) := by
  cases as <;> exact .of_parts rfl rfl rfl rfl rfl rfl

theorem hushed_answerHeld (as : Option String)
    (q : Except StoreError (Option RecordRef) × Workspace) : Hushed q.2 (answerHeld as q).2 :=
  pervades_hushed.answerHeld (.refl q.2)

/-- A name is given to an identity map that was made. -/
theorem Hushed.holdMap {m : MapRef} (h : Hushed w w') (hm : w.Rooted → m < w'.maps.length)
    (as : String) : Hushed w (w'.holdMap as m) where
  stagings := h.stagings
  stagedIn := h.stagedIn
  listeningTo := h.listeningTo
  records := h.records
  rooted hw := by
    obtain ⟨hregistered, hstaged, hviews, hmapNames, hstores⟩ := h.rooted hw
    refine ⟨hregistered, hstaged, hviews, fun e he => ?_, hstores⟩
    rcases List.mem_append.mp he with he | he
    · exact hmapNames e (List.mem_of_mem_filter he)
    · rw [List.mem_singleton.mp he]
      exact hm hw

/-- A store takes a name, or the place of the one that has it. -/
theorem Hushed.holdStore {s : Store} (h : Hushed w w')
    (hs : w.Rooted → ∀ e ∈ s.maps, e.2 < w'.maps.length) (as : String) :
    Hushed w (w'.holdStore as s) where
  stagings := h.stagings
  stagedIn := h.stagedIn
  listeningTo := h.listeningTo
  records := h.records
  rooted hw := by
    obtain ⟨hregistered, hstaged, hviews, hmapNames, hstores⟩ := h.rooted hw
    refine ⟨hregistered, hstaged, hviews, hmapNames, fun e he => ?_⟩
    rcases List.mem_append.mp he with he | he
    · exact hstores e (List.mem_of_mem_filter he)
    · rw [List.mem_singleton.mp he]
      exact hs hw

theorem hushed_registerUnder (store as : String) (d : Draft) {s : Store} (w : Workspace)
    (hs : w.Rooted → ∀ e ∈ s.maps, e.2 < w.maps.length) :
    Hushed w (registerUnder store as d s w).2 := by
  unfold registerUnder
  split
  · exact .refl w
  · next schema _ =>
    have hreg := pervades_hushed.registerType schema s w
    split
    · next hq => rw [hq] at hreg; exact hreg
    · next m store' w₁ hq =>
      rw [hq] at hreg
      exact (hreg.holdStore (fun hw => (registerType_lt (hs hw) hq).2) store).holdMap
        (fun hw => (registerType_lt (hs hw) hq).1) as

theorem hushed_openView (view : String) {m : MapRef} (hm : w.Rooted → m < w.maps.length)
    (s : Selection) (fetchSize : Nat) : Hushed w (openView view m s fetchSize w).2 := by
  unfold openView
  cases s with
  | filter f =>
    have hadd := hushed_addView hm f none fetchSize
    dsimp only
    split
    · next hq => rw [hq] at hadd; exact hadd
    · next hq => rw [hq] at hadd; exact hadd.trans (hushed_holdView (some view) _ _)
  | below parent =>
    have hadd := hushed_addChildView hm parent fetchSize
    dsimp only
    split
    · next hq => rw [hq] at hadd; exact hadd
    · next hq => rw [hq] at hadd; exact hadd.trans (hushed_holdView (some view) _ _)

theorem hushed_showData (v : ViewRef) (row : Nat) (role : Role) (as : Option String)
    (w : Workspace) : Hushed w (w.showData v row role as).2 := by
  have hdata := hushed_data v row role w
  unfold showData
  split
  · next hq => rw [hq] at hdata; exact hdata
  · next hq => rw [hq] at hdata; exact hdata
  · next hq => rw [hq] at hdata; exact hdata.trans (hushed_holdView as _ _)
  · next hq => rw [hq] at hdata; exact hdata.trans (pervades_hushed.holdAs _ as _)

/-- Only those who listen to a view are others than before. -/
theorem listenView_overlooks (v : ViewRef) (o : Observers String) (w : Workspace) :
    Overlooks w (w.setView v fun x => { x with listeners := o }) where
  stagings := rfl
  stagedIn := stagedIn_setView w v fun _ => rfl
  rooted hw := hw.setView (fun _ => rfl) fun x hx r hr => hw.staged x hx r hr

theorem subscribed_overlooks (name : String) (id : Nat) (h : Overlooks w w') :
    Overlooks w (subscribed name id w').2 where
  stagings := h.stagings
  stagedIn := h.stagedIn
  rooted hw :=
    have hw' := h.rooted hw
    ⟨hw'.registered, hw'.staged, hw'.views, hw'.mapNames, hw'.stores⟩

/-- Whether an action is about a staging place. -/
def Action.stages : Action → Bool
  | .createStaging .. | .commitStaging .. | .discardStaging .. => true
  | _ => false

theorem mapNames_lt {name : String} {m : MapRef} (h : w.mapNames.lookup name = some m)
    (hw : w.Rooted) : m < w.maps.length :=
  hw.mapNames _ (mem_of_lookup h)

/-- All other actions leave the staging places, and nobody hears of a change. -/
theorem perform_overlooks {a : Action} (ha : a.stages = false) (w : Workspace) :
    Overlooks w (w.perform a).2 := by
  cases hdeals : a.deals with
  | true => exact (pervades_hushed.perform hdeals w).overlooks
  | false =>
  cases a with
  | openStore name s =>
    obtain ⟨hopen, hmaps⟩ := pervades_hushed.openStore s w
    rw [perform]
    split
    · next hq => rw [hq] at hopen; exact hopen.overlooks
    · next store w₁ hq =>
      rw [hq] at hopen hmaps
      refine (hopen.holdStore (fun _ e he => ?_) name).overlooks
      rw [hmaps store rfl] at he
      cases he
  | closeStore name =>
    refine ⟨rfl, fun _ => rfl, fun hw => ⟨hw.registered, hw.staged, hw.views, hw.mapNames, ?_⟩⟩
    exact fun s hs => hw.stores s (List.mem_of_mem_filter hs)
  | registerType store d as =>
    exact withStore_preserves (.refl w) fun s hs => (hushed_registerUnder store as d w
      fun hw => hw.stores _ (mem_of_lookup hs)).overlooks
  | openMap d store as =>
    exact (pervades_hushed.openMap d store fun h hm => h.holdMap (fun _ => hm) as).overlooks
  | release map record =>
    refine withMap_preserves (.refl w) fun m _ => withRecord_preserves (.refl w) fun r _ => ?_
    rw [snd_answer]
    exact ((pervades_hushed.letGo w record).trans (hushed_release m r _)).overlooks
  | sweep map =>
    refine withMap_preserves (.refl w) fun m _ => ?_
    rw [snd_answer]
    exact (hushed_sweep m w).overlooks
  | subscribe s l =>
    cases s with
    | view name =>
      refine withView_preserves (.refl w) fun v _ => ?_
      split
      · exact .refl w
      · exact subscribed_overlooks _ _ (listenView_overlooks v _ w)
    | _ => cases hdeals
  | unsubscribe s as =>
    cases s with
    | view name =>
      rw [perform]
      split
      · exact .refl w
      · refine withView_preserves (.refl w) fun v _ => ?_
        split
        · exact .refl w
        · exact listenView_overlooks v _ w
    | _ => cases hdeals
  | openView view map store s fetchSize =>
    refine withMap_preserves (.refl w) fun m hm => ?_
    cases fetchSize with
    | some n => exact (hushed_openView view (mapNames_lt hm) s n).overlooks
    | none => exact withStore_preserves (.refl w) fun st _ =>
        (hushed_openView view (mapNames_lt hm) s _).overlooks
  | dropView view =>
    have hdrop : Hushed w { w with viewNames := unbind view w.viewNames } :=
      .of_parts rfl rfl rfl rfl rfl rfl
    exact hdrop.overlooks
  | fetchMore view =>
    refine withView_preserves (.refl w) fun v _ => ?_
    rw [snd_answer]
    exact (hushed_fetchMore v w).overlooks
  | prefetch view n =>
    refine withView_preserves (.refl w) fun v _ => ?_
    rw [snd_answer]
    exact (hushed_prefetch v n w).overlooks
  | reset view =>
    refine withView_preserves (.refl w) fun v _ => ?_
    rw [snd_answer]
    exact (hushed_reset v w).overlooks
  | row view row as =>
    exact withView_preserves (.refl w) fun v _ =>
      (pervades_hushed.answerHeld (hushed_recordAt v row w)).overlooks
  | data view row role as =>
    exact withView_preserves (.refl w) fun v _ => (hushed_showData v row role as w).overlooks
  | column view field =>
    exact withView_preserves (.refl w) fun v _ => (hushed_columnFrom v field _ 0 w).overlooks
  | setData view row role value =>
    refine withView_preserves (.refl w) fun v _ => ?_
    rw [snd_answer]
    exact (hushed_setData v row role value w).overlooks
  | childView view parent as =>
    refine withView_preserves (.refl w) fun v _ => ?_
    have hchild := hushed_childView v parent w
    split
    · next hq => rw [hq] at hchild; exact hchild.overlooks
    · next hq => rw [hq] at hchild; exact (hchild.trans (hushed_holdView as _ _)).overlooks
  | createStaging view key as => cases ha
  | commitStaging view as => cases ha
  | discardStaging view as => cases ha
  | _ => cases hdeals

end LiveRecords.Workspace
