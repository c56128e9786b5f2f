import LiveRecords.Proofs.Opening
import LiveRecords.Proofs.Stepping

/-!
# Actions as deeds

Whatever a program does is a course of deeds, and which deeds an action may do
is told by the action and the workspace it is performed in. Commands are only
ever carried out on the record that the action is about, and databases change
past the records only where the program asks for it.
-/

namespace LiveRecords.Workspace

/-- An identity map shares the coordinator of a store only if it is made so. -/
def Action.sharesHub : Action → Bool
  | .openMap _ (some _) _ => true
  | _ => false

/-- A step through the tracks of a store. -/
def Action.steps : Action → Bool
  | .stepAll .. => true
  | _ => false

/-- Where coordinators of stores are their own, no identity map is to share one,
and only there stores may step through their tracks. -/
structure Action.Suits (own : Prop) (a : Action) : Prop where
  sharesHub : own → a.sharesHub = false
  steps : a.steps = true → own

theorem Action.Suits.of_sharesHub {a : Action} (h : a.sharesHub = false) : a.Suits True :=
  ⟨fun _ => h, fun _ => trivial⟩

def Query.writes : Query → Bool
  | .selectWhere _ | .selectOne _ | .selectKeys .. => false
  | _ => true

/-- The record on which an action may carry out commands. Where the action asks
for none, there is one that answers. -/
def Action.Addresses (w : Workspace) (r : RecordRef) : Action → Prop
  | .stepAll store t => ∃ s rest, w.stores.lookup store = some s ∧
      (w.coordinatorOf s.hub).entries t = r :: rest
  | .command record _ => w.handle? record = some r
  | .addChild _ _ child | .removeChild _ child => w.handle? child = some r ∧ 0 < w.armed r
  | .setData view n _ _ => ∃ v, w.viewNames.lookup view = some v ∧
      (w.recordAt v n).1 = .ok r
  | .createStaging view key _ => ∃ v x, w.viewNames.lookup view = some v ∧
      w.views[v]? = some x ∧ (w.register x.map key true).1 = r ∧ 0 < w.armed r
  | .commitStaging view _ => ∃ v, w.viewNames.lookup view = some v ∧
      (w.views[v]?).bind (·.staging) = some r
  | _ => False

/-- The database that an action changes past the records. -/
def Action.Overwrites (w : Workspace) (d : DatabaseRef) : Action → Prop
  | .query map q => q.writes = true ∧ ∃ m x k, w.mapNames.lookup map = some m ∧
      w.maps[m]? = some x ∧ w.connections[x.connection]? = some k ∧ k.database = d
  | .elsewhere directory file _ => ∃ w', w.makeDirectory directory = (.ok (), w') ∧
      (w'.databaseAt (Path.join directory file)).1 = .ok d
  | _ => False

/-- A record may leave its identity map, since nobody holds it but who gives it up. -/
def Action.LetsGo (w : Workspace) (m : MapRef) (r : RecordRef) : Action → Prop
  | .release map record => w.mapNames.lookup map = some m ∧ w.handle? record = some r ∧
      (w.letGo record).isHeld r = false
  | .sweep map => w.mapNames.lookup map = some m ∧ w.isHeld r = false
  | _ => False

/-- What an action may do, and to which core where that matters. -/
inductive Action.May (w : Workspace) : Action → Deed → Core → Prop
  | read {a : Action} {m : MapRef} {images : List RowImage} {answered : RecordRef → Prop}
      {k : Core} : (∀ r, answered r → 0 < w.armed r) → May w a (.read m images answered) k
  | ground {a : Action} {k : Core} : May w a .ground k
  | addMap {a : Action} {s : Schema} {c : ConnectionRef} {h : HubRef} {k : Core} :
      May w a (.addMap s c h) k
  | free {a : Action} {m : MapRef} {r : RecordRef} {k : Core} :
      a.LetsGo w m r → May w a (.free m r) k
  | command {a : Action} {r : RecordRef} {c : Record.Command}
      {reply : Except StoreError Record.Reply} {k : Core} :
      a.Addresses w r → May w a (.command r c reply) k
  | foreign {a : Action} {d : DatabaseRef} {k : Core} :
      a.Overwrites w d → May w a (.foreign d) k
  | withId {map : String} {m : MapRef} {id : RecordId} {as : Option String} :
      w.mapNames.lookup map = some m → May w (.withId map id as) (.enrol m id false) w.core
  | newRecord {map : String} {m : MapRef} {id : RecordId} {as : Option String} :
      w.mapNames.lookup map = some m → May w (.newRecord map id as) (.enrol m id true) w.core
  | stage {view : String} {v : ViewRef} {x : View} {id : RecordId} {as : Option String} :
      w.viewNames.lookup view = some v → w.views[v]? = some x →
      May w (.createStaging view id as) (.enrol x.map id true) w.core
  | place {view : String} {v : ViewRef} {x : View} {id : RecordId} {as : Option String}
      {r : RecordRef} {parent : Option RecordId} {k : Core} :
      w.viewNames.lookup view = some v → w.views[v]? = some x →
      Core.Meets x.map id true r w.core k → May w (.createStaging view id as) (.place r parent) k
  | addChild {map parent child : String} {m : MapRef} {r : RecordRef} {p : Option RecordId} :
      w.mapNames.lookup map = some m → w.handle? child = some r →
      May w (.addChild map parent child) (.adopt m r p) w.core
  | removeChild {map child : String} {m : MapRef} {r : RecordRef} {p : Option RecordId} :
      w.mapNames.lookup map = some m → w.handle? child = some r →
      May w (.removeChild map child) (.adopt m r p) w.core

variable {w w' : Workspace} {P : Deed → Core → Prop} {own : Prop}

theorem letsRead_may (w : Workspace) (a : Action) : LetsRead (Action.May w a) w :=
  fun _ _ _ _ => .read

/-! ## Names and answers -/

theorem Acts.refl (hw : Holding own w) : Acts own P w w := ⟨⟨[], .nil _⟩, hw⟩

theorem withMap_acts (hw : Holding own w) {name : String} {f : MapRef → Workspace → Outcome}
    (h : ∀ m, w.mapNames.lookup name = some m → m < w.maps.length → Acts own P w (f m w).2) :
    Acts own P w (withMap name w f).2 :=
  withMap_preserves (.refl hw) fun m hm => h m hm (hw.mapNames _ (mem_of_lookup hm))

theorem withRecord_acts (hw : Holding own w) {name : String} {f : RecordRef → Workspace → Outcome}
    (h : ∀ r, w.handle? name = some r → w.core.Listed r → Acts own P w (f r w).2) :
    Acts own P w (withRecord name w f).2 :=
  withRecord_preserves (.refl hw) fun r hr => h r hr (hw.handles _ (mem_of_lookup hr))

@[simp] theorem snd_answer {α : Type} (reply : α → Reply) (x : Except StoreError α × Workspace) :
    (answer reply x).2 = x.2 := by
  unfold answer
  split <;> rfl

@[simp] theorem core_holdAs (w : Workspace) (as : Option String) (r : RecordRef) :
    (w.holdAs as r).core = w.core := by
  cases as <;> rfl

@[simp] theorem core_answerHeld (as : Option String)
    (x : Except StoreError (Option RecordRef) × Workspace) :
    (answerHeld as x).2.core = x.2.core := by
  unfold answerHeld
  split
  · exact core_holdAs _ as _
  · rfl
  · rfl

theorem core_holdAll (name : String) (n : Nat) (rs : List RecordRef) (w : Workspace) :
    (Workspace.holdAll name n rs w).core = w.core := by
  induction rs generalizing n w with
  | nil => rfl
  | cons r rs ih => exact ih (n + 1) _

@[simp] theorem core_answerAll (as : Option String)
    (x : Except StoreError (List RecordRef) × Workspace) :
    (answerAll as x).2.core = x.2.core := by
  unfold answerAll
  split
  · cases as with
    | none => rfl
    | some name => exact core_holdAll name 0 _ _
  · rfl

/-- An answer is held under a name, if it is a registered record. -/
theorem answerHeld_acts {as : Option String} {x : Except StoreError (Option RecordRef) × Workspace}
    (h : Acts own P w x.2) (hl : ∀ r, x.1 = .ok (some r) → x.2.core.Listed r) :
    Acts own P w (answerHeld as x).2 := by
  unfold answerHeld
  split
  · next r w₁ =>
    refine ⟨?_, h.2.holdAs as (hl r rfl)⟩
    obtain ⟨ds, hc⟩ := h.1
    exact ⟨ds, by cases as <;> exact hc⟩
  · exact h
  · exact h

theorem answerAll_acts {as : Option String} {x : Except StoreError (List RecordRef) × Workspace}
    (h : Acts own P w x.2) (hl : ∀ rs, x.1 = .ok rs → ∀ r ∈ rs, x.2.core.Listed r) :
    Acts own P w (answerAll as x).2 := by
  unfold answerAll
  split
  · next rs w₁ =>
    cases as with
    | none => exact h
    | some name =>
      refine ⟨?_, h.2.holdAll name 0 (hl rs rfl)⟩
      have hcore : ∀ n (rs : List RecordRef) (u : Workspace),
          (holdAll name n rs u).core = u.core := by
        intro n rs
        induction rs generalizing n with
        | nil => exact fun u => rfl
        | cons r rs ih => exact fun u => ih (n + 1) _
      obtain ⟨ds, hc⟩ := h.1
      exact ⟨ds, by rw [hcore]; exact hc⟩
  · exact h

theorem holdView_core (w : Workspace) (as : Option String) (v : ViewRef) :
    (w.holdView as v).core = w.core := by
  cases as <;> rfl

theorem showData_acts (hs : w.core.Sound) (hw : Holding own w) {name : String} {v : ViewRef}
    (hv : w.viewNames.lookup name = some v) (row : Nat) (role : Role) (as : Option String)
    (ha : LetsRead P w) :
    Acts own P w (w.showData v row role as).2 := by
  obtain ⟨hacts, hl, hreach⟩ := data_acts hs hw hv row role ha
  unfold showData
  split
  · next hq => rw [hq] at hacts; exact hacts
  · next hq => rw [hq] at hacts; exact hacts
  · next c w₁ hq =>
    rw [hq] at hacts hreach
    have hc := hreach c rfl
    refine ⟨?_, hacts.2.holdView as (.inl hc) (hc.lt hacts.2)⟩
    rw [holdView_core]
    exact hacts.1
  · next r w₁ hq =>
    rw [hq] at hacts hl
    refine ⟨?_, hacts.2.holdAs as (hl r rfl)⟩
    obtain ⟨ds, hc⟩ := hacts.1
    exact ⟨ds, by cases as <;> exact hc⟩

theorem openView_acts (hw : Holding own w) {view : String} {m : MapRef} (hm : m < w.maps.length)
    (s : Selection) (fetchSize : Nat) : Acts own P w (w.openView view m s fetchSize).2 := by
  have hhold : ∀ {v : ViewRef} {w₁ : Workspace}, Idle w w₁ → w₁.IsBlank v →
      Acts own P w (w₁.holdView (some view) v) := by
    intro v w₁ hidle hb
    obtain ⟨x, hx, -⟩ := id hb
    refine ⟨?_, (hidle.2 hw).holdView (some view) (.inr hb) (List.getElem?_eq_some_iff.mp hx).1⟩
    rw [holdView_core]
    exact (hidle.acts (P := P) hw).1
  unfold openView
  cases s with
  | filter f =>
    obtain ⟨hidle, hnew⟩ := addView_idle hm f none fetchSize
    dsimp only
    split
    · next hq => rw [hq] at hidle; exact hidle.acts hw
    · next v w₁ hq => rw [hq] at hidle hnew; exact hhold hidle (hnew v rfl).2.1
  | below parent =>
    obtain ⟨hidle, hnew⟩ := addChildView_idle hm parent fetchSize
    dsimp only
    split
    · next hq => rw [hq] at hidle; exact hidle.acts hw
    · next v w₁ hq => rw [hq] at hidle hnew; exact hhold hidle (hnew v rfl).2.1

/-! ## Reading -/

section Reading

variable {m : MapRef}

theorem load_acts (hs : w.core.Sound) (hw : Holding own w) (hm : m < w.maps.length) (id : RecordId)
    (ha : LetsRead P w) :
    Acts own P w (w.load m id).2 ∧
      ∀ r, (w.load m id).1 = .ok (some r) → (w.load m id).2.core.Listed r := by
  obtain ⟨hgoes, hl⟩ := load_goes hs hm id ha.gently
  exact ⟨hgoes.acts hw, hl⟩

theorem find_acts (hs : w.core.Sound) (hw : Holding own w) (hm : m < w.maps.length) (f : Filter)
    (ha : LetsRead P w) :
    Acts own P w (w.find m f).2 ∧
      ∀ rs, (w.find m f).1 = .ok rs → ∀ r ∈ rs, (w.find m f).2.core.Listed r := by
  obtain ⟨hgoes, hl⟩ := find_goes hs hm f ha.gently
  exact ⟨hgoes.acts hw, hl⟩

theorem children_acts (hs : w.core.Sound) (hw : Holding own w) (hm : m < w.maps.length)
    (parent : RecordId) (ha : LetsRead P w) :
    Acts own P w (Workspace.children m parent w).2 ∧
      ∀ rs, (w.children m parent).1 = .ok rs → ∀ r ∈ rs, (w.children m parent).2.core.Listed r := by
  unfold children
  split
  · exact ⟨.refl hw, by intro rs h; cases h⟩
  · exact find_acts hs hw hm _ ha

end Reading

/-! ## Bypassing the records -/

theorem query_idle {m : MapRef} {q : Query} (hq : q.writes = false) :
    Still w (query m w q).2 := by
  have hread : ∀ {α : Type} {f : Schema → Link → Except StoreError α × Link} {missing : α},
      (∀ s l, (f s l).2.database = l.database) → Still w (w.onTable m f missing).2 := by
    intro α f missing hf
    unfold onTable
    split
    · exact .refl w
    · exact still_through (hf _ _)
  cases q with
  | selectWhere f =>
    rw [query, snd_answer]
    exact hread fun s l => l.database_selectWhere s f
  | selectOne id =>
    rw [query, snd_answer]
    exact hread fun s l => l.database_selectOne s id
  | selectKeys f offset limit =>
    rw [query, snd_answer]
    exact hread fun s l => l.database_selectKeys s f offset limit
  | ensureTable => cases hq
  | insertRow id values parent => cases hq
  | updateField id field v => cases hq
  | updateParent id parent => cases hq
  | deleteRow id => cases hq

/-- A statement past the records changes one database and nothing else. -/
theorem query_goes (hs : w.core.Sound) {m : MapRef} (hm : m < w.maps.length) (q : Query)
    (ha : q.writes = true → ∀ x k, w.maps[m]? = some x → w.connections[x.connection]? = some k →
      ∀ k', P (.foreign k.database) k') : Goes P w (query m w q).2 := by
  by_cases hq : q.writes = true
  · obtain ⟨x, hx⟩ := map_of_lt hm
    have hwrite : ∀ {α : Type} (f : Schema → Link → Except StoreError α × Link) (missing : α),
        Goes P w (w.onTable m f missing).2 := by
      intro α f missing
      rw [onTable_of_some hx]
      have hlt := (hs.placed (m := m) hx).connection
      obtain ⟨k, hk⟩ : ∃ k, w.connections[x.connection]? = some k :=
        ⟨_, List.getElem?_eq_getElem (by simpa [core] using hlt)⟩
      refine .of_deed (ha hq x k hx hk _) ⟨(f x.schema (w.link x.connection)).2.database, ?_⟩
        (keeps_through w x.connection (f x.schema))
      refine (core_through w x.connection (f x.schema)).trans ?_
      simp [Core.setDatabase, core, hk]
    cases q <;> rw [query, snd_answer] <;> exact hwrite _ _
  · exact (query_idle (by simpa using hq)).goes

/-! ## All actions -/

theorem still_subscriptions (w : Workspace) (l : List (String × Nat)) :
    Still w { w with subscriptions := l } :=
  ⟨rfl, rfl, rfl, rfl, rfl, rfl, rfl, rfl, fun _ => Nat.le_refl _⟩

/-- Listening to a record changes nothing else. -/
theorem listen_idle (w : Workspace) (r : RecordRef) (o : Observers RecordListener) :
    Idle w (w.setRecord r fun i => { i with listeners := o }) := by
  have hcore := core_setRecord_listeners w r (f := fun i => { i with listeners := o })
    fun _ => rfl
  exact ⟨hcore, fun hw => hw.of_stays (hcore ▸ .refl _) rfl rfl rfl rfl rfl rfl⟩

theorem listenView_idle (w : Workspace) (v : ViewRef) (o : Observers String) :
    Idle w (w.setView v fun view => { view with listeners := o }) :=
  setView_idle fun _ => tends_of_eq rfl (fun _ h => h) (fun _ h => h)

theorem listenHub_idle (w : Workspace) (h : HubRef) (o : Observers String) :
    Idle w (w.setHub h fun hub => { hub with listeners := o }) :=
  (still_setHub w h (f := fun hub => { hub with listeners := o }) fun _ => rfl).idle

theorem subscribe_acts (hw : Holding own w) (l : RecordListener) (s : Source) :
    Acts own P w (subscribe l w s).2 := by
  cases s with
  | record name =>
    refine withRecord_acts hw fun r _ _ => ?_
    split
    · exact .refl hw
    · exact ((listen_idle w r _).trans (still_subscriptions _ _).idle).acts hw
  | view name =>
    refine withView_preserves (.refl hw) fun v _ => ?_
    split
    · exact .refl hw
    · exact ((listenView_idle w v _).trans (still_subscriptions _ _).idle).acts hw
  | store name =>
    refine withStore_preserves (.refl hw) fun s _ => ?_
    split
    · exact .refl hw
    · exact ((listenHub_idle w s.hub _).trans (still_subscriptions _ _).idle).acts hw

theorem unsubscribe_acts (hw : Holding own w) (id : Nat) (s : Source) :
    Acts own P w (unsubscribe id w s).2 := by
  cases s with
  | record name =>
    refine withRecord_acts hw fun r _ _ => ?_
    split
    · exact .refl hw
    · exact (listen_idle w r _).acts hw
  | view name =>
    refine withView_preserves (.refl hw) fun v _ => ?_
    split
    · exact .refl hw
    · exact (listenView_idle w v _).acts hw
  | store name =>
    refine withStore_preserves (.refl hw) fun s _ => ?_
    split
    · exact .refl hw
    · exact (listenHub_idle w s.hub _).acts hw

theorem addChild_acts (hs : w.core.Sound) (hw : Holding own w) {m : MapRef} (hm : m < w.maps.length)
    {child : RecordRef} (hl : w.core.Listed child) (parent : Option RecordId)
    (ha : P (.adopt m child parent) w.core)
    (hc : 0 < w.armed child → ∀ c reply k, P (.command child c reply) k) :
    Acts own P w (match w.parentColumn m with
      | .error e => ((.error (.store e), w) : Outcome)
      | .ok _ => answer (fun _ => .done) (w.setParent m child parent)).2 := by
  split
  · exact .refl hw
  · rw [snd_answer]
    exact (setParent_goes hs hm hl parent ⟨ha, rfl⟩ fun hpos c reply k =>
      ⟨hc hpos c reply k, rfl⟩).acts hw

/-- A register under a name in the program is the meeting of a key with its record. -/
theorem answerHeld_register_acts (hs : w.core.Sound) (hw : Holding own w) {m : MapRef}
    (hm : m < w.maps.length) (id : RecordId) (isNew : Bool) (as : Option String)
    (ha : P (.enrol m id isNew) w.core) :
    Acts own P w (answerHeld as
      (.ok (some (w.register m id isNew).1), (w.register m id isNew).2)).2 := by
  refine answerHeld_acts ((register_goes hm id isNew ⟨ha, rfl⟩).acts hw) fun r h => ?_
  cases h
  exact ⟨m, id, register_listed hs hm id isNew⟩

theorem frees_acts (hw : Holding own w) {m : MapRef} {gone : RecordRef → Prop}
    (hg : Goes (fun d _ => ∃ r, gone r ∧ d = .free m r) w w')
    (hh : ∀ r, gone r → w.isHeld r = false) (ha : ∀ r k, gone r → P (.free m r) k) :
    Acts own P w w' := by
  refine ⟨?_, hw.frees hg hh⟩
  obtain ⟨ds, hc, -⟩ := hg
  have hmap : Core.Course P (ds.map id) w.core w'.core :=
    Chain.map (fun ⟨⟨r, hr, hd⟩, hdoes⟩ => ⟨hd ▸ ha r _ hr, hdoes⟩) hc
  exact ⟨_, hmap⟩

/-- An action is a course of deeds that it may do. -/
theorem perform_acts (hs : w.core.Sound) (hw : Holding own w) {a : Action}
    (ha : a.Suits own) : Acts own (Action.May w a) w (w.perform a).2 := by
  cases a with
  | openStore name s =>
    obtain ⟨hacts, hserves⟩ := openStore_acts (P := Action.May w (.openStore name s)) hs hw s
      fun _ => .ground
    rw [perform]
    split
    · next hq => rw [hq] at hacts; exact hacts
    · next store w₁ hq =>
      rw [hq] at hacts hserves
      obtain ⟨hserve, hne⟩ := hserves store rfl
      exact ⟨hacts.1, hacts.2.holdStore hserve fun e he _ => hne e he⟩
  | closeStore name => exact ⟨⟨[], .nil _⟩, hw.closeStore name⟩
  | registerType store d as =>
    exact withStore_preserves (.refl hw) fun s hst =>
      registerUnder_acts hw hst fun _ _ _ _ => .addMap
  | openMap d store as =>
    refine openMap_acts hw d as (fun ho => ?_) (fun _ => .ground) fun _ _ _ _ => .addMap
    cases store with
    | some store => cases ha.sharesHub ho
    | none => rfl
  | stepAll store t =>
    refine withStore_preserves (.refl hw) fun s hs' => ?_
    rw [snd_answer]
    refine (step_goes hs (hw.of_own (ha.steps rfl)) (mem_of_lookup hs') t
      fun r rest he c reply k => ?_).acts hw
    exact ⟨.command ⟨s, rest, hs', he⟩, rfl⟩
  | withId map id as =>
    refine withMap_acts hw fun m hm hlt => ?_
    exact answerHeld_register_acts hs hw hlt id false as (.withId hm)
  | newRecord map key as =>
    refine withMap_acts hw fun m hm hlt => ?_
    exact answerHeld_register_acts hs hw hlt key true as (.newRecord hm)
  | load map id as =>
    refine withMap_acts hw fun m _ hlt => ?_
    obtain ⟨hacts, hl⟩ := load_acts hs hw hlt id (letsRead_may w (.load map id as))
    exact answerHeld_acts hacts hl
  | find map f as =>
    refine withMap_acts hw fun m _ hlt => ?_
    obtain ⟨hacts, hl⟩ := find_acts hs hw hlt f (letsRead_may w (.find map f as))
    exact answerAll_acts hacts hl
  | children map parent as =>
    refine withMap_acts hw fun m _ hlt => ?_
    obtain ⟨hacts, hl⟩ := children_acts hs hw hlt parent
      (letsRead_may w (.children map parent as))
    exact answerAll_acts hacts hl
  | childrenOf map parent as =>
    refine withMap_acts hw fun m hm hlt => withRecord_acts hw fun r hr _ => ?_
    split
    · exact .refl hw
    · next id _ =>
      obtain ⟨hacts, hl⟩ := children_acts hs hw hlt id
        (letsRead_may w (.childrenOf map parent as))
      exact answerAll_acts hacts hl
  | addChild map parent child =>
    refine withMap_acts hw fun m hm hlt => withRecord_acts hw fun p _ _ =>
      withRecord_acts hw fun r hr hl => ?_
    exact addChild_acts hs hw hlt hl _ (.addChild hm hr) fun hpos _ _ _ =>
      .command ⟨hr, hpos⟩
  | removeChild map child =>
    refine withMap_acts hw fun m hm hlt => withRecord_acts hw fun r hr hl => ?_
    exact addChild_acts hs hw hlt hl _ (.removeChild hm hr) fun hpos _ _ _ =>
      .command ⟨hr, hpos⟩
  | release map record =>
    refine withMap_acts hw fun m hm hlt => withRecord_acts hw fun r hr hl => ?_
    rw [snd_answer]
    have hgoes := release_goes (w := w.letGo record) (m := m) (r := r)
      (P := fun d _ => ∃ j, (j = r ∧ (w.letGo record).isHeld r = false) ∧ d = .free m j) hs
      fun hheld k => ⟨r, ⟨rfl, hheld⟩, rfl⟩
    have hfrees : Acts own (Action.May w (.release map record)) (w.letGo record)
        ((w.letGo record).release m r).2 := by
      refine frees_acts (hw.letGo record) hgoes ?_ ?_
      · rintro _ ⟨rfl, hheld⟩
        exact hheld
      · rintro _ k ⟨rfl, hheld⟩
        exact .free ⟨hm, hr, hheld⟩
    exact hfrees
  | sweep map =>
    refine withMap_acts hw fun m hm hlt => ?_
    rw [snd_answer]
    exact frees_acts hw (sweep_goes hs fun r hheld k => ⟨r, hheld, rfl⟩) (fun _ h => h)
      fun r k hheld => .free ⟨hm, hheld⟩
  | query map q =>
    refine withMap_acts hw fun m hm hlt => ?_
    refine Goes.acts hw (query_goes hs hlt q fun hq x k hx hk k' => ⟨?_, rfl⟩)
    exact .foreign ⟨hq, m, x, k, hm, hx, hk, rfl⟩
  | command record c =>
    refine withRecord_acts hw fun r hr hl => ?_
    rw [snd_answer]
    exact (run_goes hs hl c fun _ _ _ => ⟨.command hr, rfl⟩).acts hw
  | clone record as =>
    refine withRecord_acts hw fun r hr hl => answerHeld_acts (.refl hw) fun r' h => ?_
    cases h
    exact hl
  | drop record => exact ⟨⟨[], .nil _⟩, hw.letGo record⟩
  | subscribe s l => exact subscribe_acts hw l s
  | unsubscribe s as =>
    rw [perform]
    split
    · exact .refl hw
    · exact unsubscribe_acts hw _ s
  | openView view map store s fetchSize =>
    refine withMap_acts hw fun m hm hlt => ?_
    cases fetchSize with
    | some n => exact openView_acts hw hlt s n
    | none => exact withStore_preserves (.refl hw) fun st _ => openView_acts hw hlt s _
  | dropView view =>
    refine ⟨⟨[], .nil _⟩, hw.nameViews (fun e he => .inl (.named (mem_unbind he)))
      fun e he => hw.viewNames e (mem_unbind he)⟩
  | fetchMore view =>
    refine withView_preserves (.refl hw) fun v hv => ?_
    rw [snd_answer]
    exact (fetchMore_idle v w).acts hw
  | prefetch view n =>
    refine withView_preserves (.refl hw) fun v hv => ?_
    rw [snd_answer]
    exact (prefetch_idle v n w).acts hw
  | reset view =>
    refine withView_preserves (.refl hw) fun v hv => ?_
    rw [snd_answer]
    exact (reset_idle v w).acts hw
  | row view row as =>
    refine withView_preserves (.refl hw) fun v hv => ?_
    obtain ⟨hacts, -, hl⟩ := recordAt_acts hs hw (.of_lookup hv) row
      (letsRead_may w (.row view row as))
    refine answerHeld_acts hacts fun r h => hl r ?_
    obtain ⟨r', hr', he⟩ := map_eq_ok.mp h
    cases he
    exact hr'
  | data view row role as =>
    exact withView_preserves (.refl hw) fun v hv =>
      showData_acts hs hw hv row role as (letsRead_may w _)
  | column view field =>
    exact withView_preserves (.refl hw) fun v hv =>
      columnFrom_acts hs hw hv field _ 0 (letsRead_may w _)
  | setData view row role v =>
    refine withView_preserves (.refl hw) fun u hu => ?_
    rw [snd_answer]
    exact setData_acts hs hw hu row role v (letsRead_may w _) fun r hr _ _ _ =>
      .command ⟨u, hu, hr⟩
  | childView view parent as =>
    refine withView_preserves (.refl hw) fun v hv => ?_
    obtain ⟨hidle, hreach⟩ := childView_idle hw (.of_lookup hv) parent
    split
    · next hq => rw [hq] at hidle; exact hidle.acts hw
    · next c w₁ hq =>
      rw [hq] at hidle hreach
      have hw₁ := hidle.2 hw
      have hc := hreach c rfl
      refine ⟨?_, hw₁.holdView as (.inl hc) (hc.lt hw₁)⟩
      rw [holdView_core]
      exact (hidle.acts hw).1
  | createStaging view key as =>
    refine withView_preserves (.refl hw) fun v hv => ?_
    obtain ⟨x, hx⟩ : ∃ x, w.views[v]? = some x :=
      ⟨_, List.getElem?_eq_getElem (hw.viewNames _ (mem_of_lookup hv))⟩
    obtain ⟨hacts, hl⟩ := createStaging_acts (P := Action.May w (.createStaging view key as))
      hs hw hx key (.stage hv hx) (fun _ _ _ h => .place hv hx h)
      fun hpos _ _ _ => .command ⟨v, x, hv, hx, rfl, hpos⟩
    refine answerHeld_acts hacts fun r h => ?_
    cases h
    exact hl
  | commitStaging view as =>
    refine withView_preserves (.refl hw) fun v hv => ?_
    obtain ⟨hacts, hl⟩ := commitStaging_acts (P := Action.May w (.commitStaging view as))
      hs hw (.of_lookup hv) fun r hr _ _ _ => .command ⟨v, hv, hr⟩
    exact answerHeld_acts hacts hl
  | discardStaging view as =>
    refine withView_preserves (.refl hw) fun v hv => ?_
    obtain ⟨hacts, hl⟩ := discardStaging_acts (P := Action.May w (.discardStaging view as))
      hw (.of_lookup hv)
    refine answerHeld_acts hacts fun r h => hl r ?_
    exact Except.ok.inj h
  | elsewhere directory file c =>
    exact elsewhere_acts hw directory file c (fun _ => .ground) fun w' d hw' hd k =>
      .foreign ⟨w', hw', hd⟩

end LiveRecords.Workspace
