import LiveRecords.Proofs.Actions
import LiveRecords.Proofs.Passing

/-!
# What pervades records and stores

Whatever a program does with records, identity maps and stores is made of few steps:
listeners write down what they hear, a record changes and keeps its key, a new one is
registered, and something changes that is beside all of these. A relation between
workspaces that composes and holds for each of these steps holds for all that is made
of them, in every state and whatever statement fails.
-/

namespace LiveRecords.Workspace

/-- A relation that composes and holds for each step that is about no view. -/
structure Pervades (R : Workspace → Workspace → Prop) : Prop where
  refl : ∀ w, R w w
  trans : ∀ {w₁ w₂ w₃}, R w₁ w₂ → R w₂ w₃ → R w₁ w₃
  write : ∀ (w : Workspace) {h : Heard}, (∀ l e, h ≠ .view l e) → R w (w.write h)
  setRecord : ∀ (w : Workspace) (r : RecordRef) (f : Instance → Instance),
    (∀ i, w.records[r]? = some i → (f i).record.id = i.record.id) → R w (w.setRecord r f)
  /-- A new record is registered under its key, behind all others. -/
  enrol : ∀ (w : Workspace) (m : MapRef) (i : Instance),
    R w ({ w with records := w.records ++ [i] }.setMap m fun map =>
      { map with registered := map.registered ++ [(i.record.id, w.records.length)] })
  /-- A new identity map comes in, in which nothing is registered. -/
  addMap : ∀ (w : Workspace) (map : IdentityMap), map.registered = [] →
    R w { w with maps := w.maps ++ [map] }
  /-- What changes is neither heard nor seen by views, records and identity maps. -/
  beside : ∀ {w w'}, w'.heard = w.heard → w'.views = w.views → w'.viewNames = w.viewNames →
    w'.maps = w.maps → w'.mapNames = w.mapNames → w'.stores = w.stores →
    w'.records = w.records → R w w'

/-! ## Identity maps that were made -/

section

variable {w w' : Workspace} {m : MapRef}

theorem maps_setMap {m j : MapRef} {f : IdentityMap → IdentityMap} {map : IdentityMap}
    (h : (w.setMap m f).maps[j]? = some map) :
    ∃ old, w.maps[j]? = some old ∧ map = if j = m then f old else old := by
  simp only [setMap, List.getElem?_modify] at h
  obtain ⟨old, hold, rfl⟩ := Option.map_eq_some_iff.mp h
  exact ⟨old, hold, by by_cases hj : m = j <;> simp [hj, eq_comm]⟩

theorem onTable_records {α : Type} (w : Workspace) (m : MapRef)
    (f : Schema → Link → Except StoreError α × Link) (missing : α) :
    (w.onTable m f missing).2.records = w.records := by
  unfold onTable
  split
  · rfl
  · exact records_through w _ _

/-- A new identity map is the last of all. -/
theorem addMap_lt (s : Schema) (c : ConnectionRef) (h : HubRef) (w : Workspace) :
    w.maps.length ≤ (w.addMap s c h).2.maps.length ∧
      ∀ m, (w.addMap s c h).1 = .ok m → m < (w.addMap s c h).2.maps.length := by
  have hmaps : (w.through c fun l => l.ensureTable s).2.maps = w.maps := maps_through w c _
  unfold addMap
  split
  · next hq => rw [hq] at hmaps; exact ⟨Nat.le_of_eq (by rw [hmaps]), nofun⟩
  · next w₁ hq =>
    rw [hq] at hmaps
    have hmaps₁ : w₁.maps = w.maps := hmaps
    exact ⟨by simp [hmaps₁], by simp⟩

/-- A store knows only identity maps that were made. -/
theorem registerType_lt {s : Schema} {store store' : Store}
    (hs : ∀ e ∈ store.maps, e.2 < w.maps.length)
    (h : w.registerType s store = (.ok (m, store'), w')) :
    m < w'.maps.length ∧ ∀ e ∈ store'.maps, e.2 < w'.maps.length := by
  unfold registerType at h
  split at h
  · next m' hm =>
    split at h
    · cases h
      exact ⟨hs _ (mem_of_lookup hm), hs⟩
    · cases h
  · obtain ⟨hle, hlt⟩ := addMap_lt s store.connection store.hub w
    split at h
    · cases h
    · next m' w₁ hq =>
      rw [hq] at hle hlt
      cases h
      refine ⟨hlt m rfl, fun e he => ?_⟩
      rcases List.mem_append.mp he with he | he
      · exact Nat.lt_of_lt_of_le (hs e he) hle
      · rw [List.mem_singleton.mp he]
        exact hlt m rfl

end

namespace Pervades

variable {R : Workspace → Workspace → Prop} {w w' : Workspace} (hR : Pervades R)

include hR

theorem through {α : Type} (w : Workspace) (c : ConnectionRef) (f : Link → α × Link) :
    R w (w.through c f).2 := by
  unfold Workspace.through setLink
  dsimp only
  split
  · exact hR.refl w
  · exact hR.beside rfl rfl rfl rfl rfl rfl rfl

theorem report (w : Workspace) (d : Diagnostic) : R w (w.report d) :=
  hR.beside rfl rfl rfl rfl rfl rfl rfl

theorem setHub (w : Workspace) (h : HubRef) (f : Hub → Hub) : R w (w.setHub h f) :=
  hR.beside rfl rfl rfl rfl rfl rfl rfl

theorem passing : Passing R where
  refl := hR.refl
  trans := hR.trans
  write := hR.write
  setRecord := hR.setRecord
  setHub := hR.setHub
  statements w c x command := hR.through w c fun l => x.run l command

/-! ## Identity maps -/

theorem register (m : MapRef) (id : RecordId) (isNew : Bool) (w : Workspace) :
    R w (w.register m id isNew).2 := by
  unfold Workspace.register
  split
  · exact hR.refl w
  · next map _ =>
    split
    · exact hR.refl w
    · exact hR.trans (hR.enrol w m ⟨.initial id map.schema isNew, map.connection, map.hub, {}⟩)
        (hR.report _ _)

theorem resolve (m : MapRef) (image : RowImage) (w : Workspace) :
    R w (w.resolve m image).2 := by
  have hregister := hR.register m image.id false w
  unfold Workspace.resolve
  dsimp only
  split
  · exact hregister
  · next i hi => exact hR.trans hregister (hR.passing.hydrate hi image)

theorem resolveAll (m : MapRef) (images : List RowImage) (w : Workspace) :
    R w (w.resolveAll m images).2 := by
  induction images generalizing w with
  | nil => exact hR.refl w
  | cons image images ih => exact hR.trans (hR.resolve m image w) (ih _)

theorem onTable {α : Type} (w : Workspace) (m : MapRef)
    (f : Schema → Link → Except StoreError α × Link) (missing : α) :
    R w (w.onTable m f missing).2 := by
  unfold Workspace.onTable
  split
  · exact hR.refl w
  · exact hR.through w _ _

theorem load (m : MapRef) (id : RecordId) (w : Workspace) : R w (w.load m id).2 := by
  have hread := hR.onTable w m (fun s l => l.selectOne s id) none
  unfold Workspace.load
  split
  · next hq => rw [hq] at hread; exact hread
  · next hq => rw [hq] at hread; exact hread
  · next image w₁ hq => rw [hq] at hread; exact hR.trans hread (hR.resolve m image w₁)

theorem find (m : MapRef) (f : Filter) (w : Workspace) : R w (w.find m f).2 := by
  have hread := hR.onTable w m (fun s l => l.selectWhere s f) []
  unfold Workspace.find
  split
  · next hq => rw [hq] at hread; exact hread
  · next images w₁ hq => rw [hq] at hread; exact hR.trans hread (hR.resolveAll m images w₁)

theorem children (m : MapRef) (parent : RecordId) (w : Workspace) :
    R w (Workspace.children m parent w).2 := by
  unfold Workspace.children
  split
  · exact hR.refl w
  · exact hR.find m _ w

theorem prefetchWindow (m : MapRef) (count : Nat) (window : Window) (w : Workspace) :
    R w (w.prefetchWindow m count window).2 := by
  unfold Workspace.prefetchWindow
  split
  · exact hR.refl w
  · exact hR.through w _ _

theorem recordFor (m : MapRef) (id : RecordId) (w : Workspace) : R w (w.recordFor m id).2 := by
  have hload := hR.load m id w
  unfold Workspace.recordFor
  split
  · exact hR.refl w
  · split
    · next hq => rw [hq] at hload; exact hload
    · next hq => rw [hq] at hload; exact hload
    · next hq => rw [hq] at hload; exact hload

theorem setParent (m : MapRef) (child : RecordRef) (parent : Option RecordId) (w : Workspace) :
    R w (w.setParent m child parent).2 := by
  unfold Workspace.setParent
  split
  · exact hR.refl w
  next i hi =>
  have hwrite := hR.onTable w m (fun s l => l.updateParent s i.record.id parent) ()
  have hrecords := onTable_records w m (fun s l => l.updateParent s i.record.id parent) ()
  split
  · next hq => rw [hq] at hwrite; exact hwrite
  · next w₁ hq =>
    rw [hq] at hwrite hrecords
    have hi₁ : w₁.records[child]? = some i := by rw [hrecords, hi]
    exact hR.trans hwrite (hR.passing.place hi₁ parent)

theorem finish (m : MapRef) (r : RecordRef) (w : Workspace) : R w (w.finish m r).2 := by
  unfold Workspace.finish
  split
  · exact hR.refl w
  next i _ =>
  have htold := hR.trans (hR.passing.tell w i.hub fun c => c.forget r)
    (hR.report _ (.recordReleased i.record.table i.record.id))
  dsimp only
  split
  · have hdelete := hR.trans htold (hR.onTable _ m (fun s l => l.deleteRow s i.record.id) 0)
    split
    · next hq => rw [hq] at hdelete; exact hdelete
    · next hq => rw [hq] at hdelete; exact hR.trans hdelete (hR.report _ _)
  · exact htold

theorem finishAll (m : MapRef) (rs : List RecordRef) (w : Workspace) :
    R w (w.finishAll m rs).2 := by
  induction rs generalizing w with
  | nil => exact hR.refl w
  | cons r rs ih =>
    have hfirst := hR.finish m r w
    unfold Workspace.finishAll
    split
    · next hq => rw [hq] at hfirst; exact hR.trans hfirst (ih _)
    · next hq => rw [hq] at hfirst; exact hR.trans hfirst (ih _)

/-- A record that nobody holds leaves its identity map before the rest is done. -/
theorem release (m : MapRef) (r : RecordRef) (w : Workspace) :
    (w.release m r).2 = w ∨
      w.isFree m r = true ∧ R (w.unregister m [r]) (w.release m r).2 := by
  unfold Workspace.release
  split
  · next hfree =>
    have hfinish := hR.finish m r (w.unregister m [r])
    split
    · next hq => rw [hq] at hfinish; exact .inr ⟨hfree, hfinish⟩
    · next hq => rw [hq] at hfinish; exact .inr ⟨hfree, hfinish⟩
  · exact .inl rfl

theorem sweep (m : MapRef) (w : Workspace) :
    R (w.unregister m (w.unheld m)) (w.sweep m).2 := by
  have hfinish := hR.finishAll m (w.unheld m) (w.unregister m (w.unheld m))
  unfold Workspace.sweep
  dsimp only
  split
  · next hq => rw [hq] at hfinish; exact hfinish
  · next hq => rw [hq] at hfinish; exact hfinish

/-! ## Steps of a coordinator -/

/-- An item is asked to replay a change set, whatever it answers. -/
theorem attempt (w : Workspace) (h : HubRef) (t : Track) (r : RecordRef) (c : Coordinator)
    (u : Workspace) :
    match (w.host h t).attempt r c u with
    | .nothing u' | .applied _ u' | .failed _ _ u' => R u u' := by
  have htry := hR.trans (hR.setHub u h fun hub => { hub with coordinator := c })
    (hR.passing.run r (.replay t) (u.setCoordinator h c))
  simp only [host]
  generalize (u.setCoordinator h c).run r (.replay t) = p at htry
  obtain ⟨result, u'⟩ := p
  cases result with
  | error e => exact htry
  | ok reply =>
    cases reply with
    | flag b => cases b <;> exact htry
    | done => exact htry
    | committed o => exact htry

/-- Stepping back or forth, however many entries are passed over. -/
theorem stepEntries (w : Workspace) (h : HubRef) (t : Track) (es : List RecordRef)
    (c : Coordinator) (u : Workspace) :
    R u (Coordinator.stepEntries (w.host h t) t es c u).2.2 := by
  induction es generalizing c u with
  | nil => exact hR.refl u
  | cons r rest ih =>
    have hdropped : ∀ u, R u
        ((Coordinator.edge t (r :: rest) rest).foldl (fun s e => (w.host h t).announce e s) u) :=
      hR.passing.foldl (fun u e => hR.passing.announce h e u) _
    have htry := hR.attempt w h t r (c.setEntries t (r :: rest)) u
    rw [Coordinator.stepEntries]
    split
    · split
      · next hq => rw [hq] at htry; exact htry
      · next hq => rw [hq] at htry; exact htry
      · next hq =>
        rw [hq] at htry
        exact hR.trans htry (hR.trans (hdropped _) (ih c _))
    · exact hR.trans (hdropped u) (ih c _)

theorem step (h : HubRef) (t : Track) (w : Workspace) : R w (w.step h t).2 :=
  hR.trans (hR.stepEntries w h t _ _ w) (hR.setHub _ h _)

/-! ## Stores -/

theorem makeDirectory (path : String) (w : Workspace) : R w (w.makeDirectory path).2 := by
  unfold Workspace.makeDirectory
  split
  · exact hR.refl w
  · exact hR.beside rfl rfl rfl rfl rfl rfl rfl

theorem databaseAt (path : String) (w : Workspace) : R w (w.databaseAt path).2 := by
  have hadd : R w w.addDatabase.2 := hR.beside rfl rfl rfl rfl rfl rfl rfl
  unfold Workspace.databaseAt
  dsimp only
  split
  · exact hR.refl w
  · exact hR.refl w
  · split
    · exact hadd
    · split
      · exact hR.refl w
      · split
        · exact hR.refl w
        · exact hR.beside rfl rfl rfl rfl rfl rfl rfl

theorem openDatabase (s : Settings) (w : Workspace) : R w (w.openDatabase s).2 := by
  unfold Workspace.openDatabase
  split
  · next directory path _ _ =>
    have hmake := hR.makeDirectory directory w
    split
    · next hq => rw [hq] at hmake; exact hmake
    · next w₁ hq =>
      rw [hq] at hmake
      have hat := hR.trans hmake (hR.databaseAt path w₁)
      split
      · next hq' => rw [hq'] at hat; exact hat
      · next hq' => rw [hq'] at hat; exact hR.trans hat (hR.report _ _)
  · exact hR.beside rfl rfl rfl rfl rfl rfl rfl

/-- A store that was opened knows no identity map yet. -/
theorem openStore (s : Settings) (w : Workspace) :
    R w (w.openStore s).2 ∧ ∀ store, (w.openStore s).1 = .ok store → store.maps = [] := by
  have hopen := hR.openDatabase s w
  unfold Workspace.openStore
  split
  · next hq => rw [hq] at hopen; exact ⟨hopen, nofun⟩
  · next hq =>
    rw [hq] at hopen
    split
    · exact ⟨hopen, nofun⟩
    · refine ⟨hR.trans hopen (hR.beside rfl rfl rfl rfl rfl rfl rfl), fun store h => ?_⟩
      cases h
      rfl

theorem makeMap (s : Schema) (c : ConnectionRef) (h : HubRef) (w : Workspace) :
    R w (w.addMap s c h).2 := by
  have hmake := hR.through w c fun l => l.ensureTable s
  unfold Workspace.addMap
  split
  · next hq => rw [hq] at hmake; exact hmake
  · next w₁ hq => rw [hq] at hmake; exact hR.trans hmake (hR.addMap w₁ _ rfl)

theorem registerType (s : Schema) (store : Store) (w : Workspace) :
    R w (w.registerType s store).2 := by
  have hmake := hR.makeMap s store.connection store.hub w
  unfold Workspace.registerType
  split
  · split <;> exact hR.refl w
  · split
    · next hq => rw [hq] at hmake; exact hmake
    · next hq => rw [hq] at hmake; exact hR.trans hmake (hR.report _ _)

theorem hubFor (store : Option String) (w : Workspace) : R w (w.hubFor store).2 := by
  unfold Workspace.hubFor
  split
  · exact hR.refl w
  · exact hR.beside rfl rfl rfl rfl rfl rfl rfl

/-- An identity map on no disk, which takes a name once it was made. -/
theorem openMap (d : Draft) (store : Option String) {as : String}
    (hname : ∀ {m w'}, R w w' → m < w'.maps.length → R w (w'.holdMap as m)) :
    R w (w.openMap d store as).2 := by
  unfold Workspace.openMap
  split
  · exact hR.refl w
  next schema _ =>
  have hconnect : R w (Workspace.connect w.databases.length
      { w with databases := w.databases ++ [({} : Database)] }).2 :=
    hR.beside rfl rfl rfl rfl rfl rfl rfl
  dsimp only
  generalize Workspace.connect _ _ = p at hconnect ⊢
  obtain ⟨c, w₁⟩ := p
  have hhub := hR.trans hconnect (hR.hubFor store w₁)
  dsimp only
  generalize w₁.hubFor store = p at hhub ⊢
  obtain ⟨h, w₂⟩ := p
  have hmake := hR.trans hhub (hR.makeMap schema c h w₂)
  obtain ⟨-, hlt⟩ := addMap_lt schema c h w₂
  dsimp only
  split
  · next hq => rw [hq] at hmake; exact hmake
  · next m w₃ hq =>
    rw [hq] at hmake hlt
    exact hname hmake (hlt m rfl)

theorem elsewhere (directory file : String) (c : Database.Change) (w : Workspace) :
    R w (w.elsewhere directory file c).2 := by
  have hmake := hR.makeDirectory directory w
  unfold Workspace.elsewhere
  split
  · next hq => rw [hq] at hmake; exact hmake
  · next w₁ hq =>
    rw [hq] at hmake
    have hat := hR.trans hmake (hR.databaseAt (Path.join directory file) w₁)
    split
    · next hq' => rw [hq'] at hat; exact hat
    · next hq' =>
      rw [hq'] at hat
      exact hR.trans hat (hR.beside rfl rfl rfl rfl rfl rfl rfl)

/-! ## Answers -/

theorem holdAs (w : Workspace) (as : Option String) (r : RecordRef) : R w (w.holdAs as r) := by
  cases as with
  | none => exact hR.refl w
  | some name => exact hR.beside rfl rfl rfl rfl rfl rfl rfl

theorem holdAll (name : String) (n : Nat) (rs : List RecordRef) (w : Workspace) :
    R w (holdAll name n rs w) := by
  induction rs generalizing n w with
  | nil => exact hR.refl w
  | cons r rs ih => exact hR.trans (hR.holdAs w (some _) r) (ih (n + 1) _)

theorem answerHeld {as : Option String} {q : Except StoreError (Option RecordRef) × Workspace}
    (h : R w q.2) : R w (answerHeld as q).2 := by
  unfold Workspace.answerHeld
  split
  · exact hR.trans h (hR.holdAs _ as _)
  · exact h
  · exact h

theorem answerAll {as : Option String} {q : Except StoreError (List RecordRef) × Workspace}
    (h : R w q.2) : R w (answerAll as q).2 := by
  unfold Workspace.answerAll
  split
  · cases as with
    | none => exact h
    | some name => exact hR.trans h (hR.holdAll name 0 _ _)
  · exact h

theorem query (m : MapRef) (q : Query) (w : Workspace) : R w (query m w q).2 := by
  cases q <;> rw [Workspace.query, snd_answer] <;> exact hR.onTable w m _ _

theorem letGo (w : Workspace) (name : String) : R w (w.letGo name) :=
  hR.beside rfl rfl rfl rfl rfl rfl rfl

/-! ## Listeners -/

theorem subscribed (name : String) (id : Nat) (h : R w w') : R w (subscribed name id w').2 :=
  hR.trans h (hR.beside rfl rfl rfl rfl rfl rfl rfl)

theorem subscribe (l : RecordListener) (w : Workspace) {s : Source} (hs : ∀ name, s ≠ .view name) :
    R w (subscribe l w s).2 := by
  cases s with
  | view name => exact absurd rfl (hs name)
  | record name =>
    refine withRecord_preserves (hR.refl w) fun r _ => ?_
    split
    · exact hR.refl w
    · exact hR.subscribed _ _ (hR.setRecord w r _ fun _ _ => rfl)
  | store name =>
    refine withStore_preserves (hR.refl w) fun s _ => ?_
    split
    · exact hR.refl w
    · exact hR.subscribed _ _ (hR.setHub w s.hub _)

theorem unsubscribe (id : Nat) (w : Workspace) {s : Source} (hs : ∀ name, s ≠ .view name) :
    R w (unsubscribe id w s).2 := by
  cases s with
  | view name => exact absurd rfl (hs name)
  | record name =>
    refine withRecord_preserves (hR.refl w) fun r _ => ?_
    split
    · exact hR.refl w
    · exact hR.setRecord w r _ fun _ _ => rfl
  | store name =>
    refine withStore_preserves (hR.refl w) fun s _ => ?_
    split
    · exact hR.refl w
    · exact hR.setHub w s.hub _

end Pervades

/-! ## Actions -/

/-- An action on records by which no view, identity map or store comes or goes, and no
record leaves its identity map. -/
def Action.deals : Action → Bool
  | .stepAll .. | .withId .. | .newRecord .. | .load .. | .find .. | .children .. | .childrenOf ..
  | .addChild .. | .removeChild .. | .query .. | .command .. | .clone .. | .drop _
  | .elsewhere .. => true
  | .subscribe (.view _) _ | .unsubscribe (.view _) _ => false
  | .subscribe .. | .unsubscribe .. => true
  | _ => false

/-- What pervades records holds for every action that deals with them. -/
theorem Pervades.perform {R : Workspace → Workspace → Prop} (hR : Pervades R) {a : Action}
    (h : a.deals = true) (w : Workspace) : R w (w.perform a).2 := by
  cases a with
  | stepAll store t =>
    refine withStore_preserves (hR.refl w) fun s _ => ?_
    rw [snd_answer]
    exact hR.step s.hub t w
  | withId map id as =>
    exact withMap_preserves (hR.refl w) fun m _ => hR.answerHeld (hR.register m id false w)
  | newRecord map key as =>
    exact withMap_preserves (hR.refl w) fun m _ => hR.answerHeld (hR.register m key true w)
  | load map id as =>
    exact withMap_preserves (hR.refl w) fun m _ => hR.answerHeld (hR.load m id w)
  | find map f as =>
    exact withMap_preserves (hR.refl w) fun m _ => hR.answerAll (hR.find m f w)
  | children map parent as =>
    exact withMap_preserves (hR.refl w) fun m _ => hR.answerAll (hR.children m parent w)
  | childrenOf map parent as =>
    refine withMap_preserves (hR.refl w) fun m _ => withRecord_preserves (hR.refl w) fun r _ => ?_
    split
    · exact hR.refl w
    · next id _ => exact hR.answerAll (hR.children m id w)
  | addChild map parent child =>
    refine withMap_preserves (hR.refl w) fun m _ => withRecord_preserves (hR.refl w) fun p _ =>
      withRecord_preserves (hR.refl w) fun c _ => ?_
    split
    · exact hR.refl w
    · rw [snd_answer]
      exact hR.setParent m c _ w
  | removeChild map child =>
    refine withMap_preserves (hR.refl w) fun m _ => withRecord_preserves (hR.refl w) fun c _ => ?_
    split
    · exact hR.refl w
    · rw [snd_answer]
      exact hR.setParent m c none w
  | query map q => exact withMap_preserves (hR.refl w) fun m _ => hR.query m q w
  | command record c =>
    refine withRecord_preserves (hR.refl w) fun r _ => ?_
    rw [snd_answer]
    exact hR.passing.run r c w
  | clone record as =>
    exact withRecord_preserves (hR.refl w) fun r _ => hR.answerHeld (hR.refl w)
  | drop record => exact hR.letGo w record
  | subscribe s l => exact hR.subscribe l w fun name hs => by subst hs; cases h
  | unsubscribe s as =>
    rw [Workspace.perform]
    split
    · exact hR.refl w
    · exact hR.unsubscribe _ w fun name hs => by subst hs; cases h
  | elsewhere directory file c => exact hR.elsewhere directory file c w
  | _ => cases h

end LiveRecords.Workspace
