import LiveRecords.Proofs.Results
import LiveRecords.Proofs.Viewing

/-!
# Opening stores and identity maps

Stores and identity maps come into being on top of databases, connections and
coordinators that do. Nothing that was there changes, so all that is asked of
the new ones is that they work together with no others.
-/

namespace LiveRecords

/-- The store that a new identity map was added to. -/
def Store.withMap (s : Store) (table : String) (m : MapRef) : Store :=
  { s with maps := s.maps ++ [(table, m)] }

namespace Core

variable {k k' : Core} {own : Prop}

/-- All that was there is still there. -/
structure Grows (k k' : Core) : Prop where
  shape : ∀ {m : MapRef} {b}, k.shape[m]? = some b → k'.shape[m]? = some b
  databases : k.databases.length ≤ k'.databases.length
  connections : k.connections.length ≤ k'.connections.length
  hubs : k.coordinators.length ≤ k'.coordinators.length
  lists : ∀ {m id r}, k.Lists m id r → k'.Lists m id r

theorem Grounds.grows (h : k.Grounds k') : Grows k k' := by
  obtain ⟨n, cs, j, -, rfl⟩ := h
  exact ⟨fun h => h, by simp, by simp, by simp, fun h => h⟩

theorem Stays.grows (h : Stays k k') : Grows k k' :=
  ⟨fun hb => h.frame.shape ▸ hb, Nat.le_of_eq h.frame.databases.symm,
    Nat.le_of_eq (congrArg List.length h.frame.connections).symm,
    Nat.le_of_eq h.frame.hubs.symm, h.lists⟩

theorem Grows.trans {k₁ k₂ k₃ : Core} (h₁ : Grows k₁ k₂) (h₂ : Grows k₂ k₃) : Grows k₁ k₃ :=
  ⟨fun hb => h₂.shape (h₁.shape hb), Nat.le_trans h₁.databases h₂.databases,
    Nat.le_trans h₁.connections h₂.connections, Nat.le_trans h₁.hubs h₂.hubs,
    fun hl => h₂.lists (h₁.lists hl)⟩

theorem grows_addMap (k : Core) (s : Schema) (c : ConnectionRef) (h : HubRef) :
    Grows k (k.addMap { schema := s, connection := c, hub := h }) := by
  refine ⟨?_, Nat.le_refl _, Nat.le_refl _, Nat.le_refl _, fun hl => lists_addMap.mpr hl⟩
  intro m b hb
  have hlt := (List.getElem?_eq_some_iff.mp hb).1
  rw [shape, Core.addMap, List.map_append]
  exact (List.getElem?_append_left hlt).trans hb

theorem shape_addMap {s : Schema} {c : ConnectionRef} {h : HubRef} {m : MapRef} {b : IdentityMap}
    (hb : (k.addMap { schema := s, connection := c, hub := h }).shape[m]? = some b) :
    k.shape[m]? = some b ∨
      m = k.maps.length ∧ b = { schema := s, connection := c, hub := h } := by
  rw [shape, Core.addMap, List.map_append, List.getElem?_append, List.length_map] at hb
  split at hb
  · exact .inl hb
  · next hm =>
    have hlt := (List.getElem?_eq_some_iff.mp hb).1
    refine .inr ⟨?_, List.mem_singleton.mp (List.mem_of_getElem? hb)⟩
    simp only [List.map_cons, List.map_nil, List.length_singleton] at hlt
    exact Nat.le_antisymm (by omega) (Nat.le_of_not_lt hm)

theorem Serves.grows {s : Store} (h : k.Serves own s) (hg : Grows k k')
    (hnew : own → ∀ {m : MapRef} {b}, k'.shape[m]? = some b → b.hub = s.hub →
      k.shape[m]? = some b) : k'.Serves own s where
  connection := Nat.lt_of_lt_of_le h.connection hg.connections
  hub := Nat.lt_of_lt_of_le h.hub hg.hubs
  maps e he := by
    obtain ⟨map, hm, hrest⟩ := h.maps e he
    exact ⟨map, hg.shape hm, hrest⟩
  all ho _ _ hb hh := h.all ho (hnew ho hb hh) hh

end Core

namespace Workspace

variable {w w' : Workspace} {P : Deed → Core → Prop} {own : Prop}

/-- Where all that was there is still there, only new stores and files are to be
looked at. -/
theorem Holding.grows (h : Holding own w) (hg : w.core.Grows w'.core) (hv : w'.views = w.views)
    (hh : w'.handles = w.handles) (hm : w'.mapNames = w.mapNames)
    (hn : w'.viewNames = w.viewNames) (hst : ∀ e ∈ w'.stores, w'.core.Serves own e.2)
    (hap : ∀ e ∈ w'.stores, ∀ e' ∈ w'.stores, e.2.hub = e'.2.hub → e = e')
    (hf : ∀ e ∈ w'.volumes.files, e.2 < w'.databases.length) : Holding own w' := by
  have hl : ∀ {r}, w.core.Listed r → w'.core.Listed r := by
    rintro r ⟨m, id, hl⟩
    exact ⟨m, id, hg.lists hl⟩
  have hmaps : ∀ {m : MapRef}, m < w.maps.length → m < w'.maps.length := by
    intro m hlt
    have hb : w.core.shape[m]? = some w.maps[m].bare :=
      Core.shape_of_map (List.getElem?_eq_getElem hlt)
    have hlt' := (List.getElem?_eq_some_iff.mp (hg.shape hb)).1
    simpa [Core.shape, core] using hlt'
  refine ⟨?_, ?_, ?_, ?_, ?_, ?_, hst, hap, hf⟩
  · rw [hh]
    exact fun e he => hl (h.handles e he)
  · intro v view hr hview r hmem
    rw [hv] at hview
    exact hl (h.rows (hr.of_views hv hn) hview r hmem)
  · rw [hn, hv]
    exact h.viewNames
  · intro v view hview e he
    rw [hv] at hview ⊢
    exact h.ordered hview e he
  · rw [hv]
    exact fun view hview => hmaps (h.viewMaps view hview)
  · rw [hm]
    exact fun e he => hmaps (h.mapNames e he)

/-! ## Databases, connections and coordinators -/

/-- New databases, connections or coordinators, with names and stores as they
were. -/
theorem Holding.grounds (h : Holding own w) (hg : w.core.Grounds w'.core) (hv : w'.views = w.views)
    (hh : w'.handles = w.handles) (hm : w'.mapNames = w.mapNames)
    (hn : w'.viewNames = w.viewNames) (hst : w'.stores = w.stores)
    (hf : ∀ e ∈ w'.volumes.files, e.2 < w'.databases.length) : Holding own w' := by
  refine h.grows hg.grows hv hh hm hn ?_ ?_ hf
  · rw [hst]
    intro e he
    obtain ⟨n, cs, j, -, hk⟩ := id hg
    have hshape : w'.core.shape = w.core.shape := Core.shape_of_maps (by rw [hk])
    exact (h.stores e he).grows hg.grows fun _ _ _ hb _ => hshape ▸ hb
  · rw [hst]
    exact h.apart

theorem Acts.of_grounds (hw : Holding own w') (hg : w.core.Grounds w'.core)
    (ha : P .ground w.core) : Acts own P w w' :=
  ⟨⟨[.ground], .single ⟨ha, hg⟩⟩, hw⟩

theorem addDatabase_grounds (w : Workspace) : w.core.Grounds (w.addDatabase).2.core :=
  ⟨1, [], 0, by simp, by simp [addDatabase, core]⟩

theorem addDatabase_holding (hw : Holding own w) : Holding own (w.addDatabase).2 := by
  refine hw.grounds (addDatabase_grounds w) rfl rfl rfl rfl rfl fun e he => ?_
  rw [addDatabase, List.length_append]
  exact Nat.lt_add_right _ (hw.files e he)

theorem connect_grounds {d : DatabaseRef} (hd : d < w.databases.length) :
    w.core.Grounds (w.connect d).2.core :=
  ⟨0, [d], 0, by simpa [core] using hd, by simp [connect, core]⟩

theorem addHub_grounds (w : Workspace) : w.core.Grounds (w.addHub).2.core :=
  ⟨0, [], 1, by simp, by simp [addHub, core]⟩

theorem makeOne_files {v v' : Volumes} {p : Path.Place} {parts : List String}
    (h : v.makeOne p parts = .ok v') : v'.files = v.files := by
  unfold Volumes.makeOne at h
  obtain ⟨around, -, h⟩ := bind_eq_ok.mp h
  split at h
  · cases h
  · obtain ⟨q, -, h⟩ := bind_eq_ok.mp h
    split at h
    · cases h
    · cases h; rfl

/-- Making a directory makes no file. -/
theorem makeAll_files {v v' : Volumes} {p : Path.Place} {parts : List String}
    (h : v.makeAll p parts = .ok v') : v'.files = v.files := by
  induction hn : parts.length using Nat.strongRecOn generalizing v' parts with
  | ind n ih =>
    rw [Volumes.makeAll] at h
    split at h
    · cases h; rfl
    · next hp =>
      dsimp only at h
      split at h
      · split at h
        · cases h
        · next v₁ hv₁ =>
          have h₁ := ih _ (hn ▸ Path.outer_length_lt hp) hv₁ rfl
          split at h
          · next h₂ => cases h; exact (makeOne_files h₂).trans h₁
          · split at h
            · cases h; exact h₁
            · cases h
      · split at h
        · next h₂ => cases h; exact makeOne_files h₂
        · split at h
          · cases h; rfl
          · cases h

theorem makeDirectory_idle (path : String) (w : Workspace) :
    Idle w (w.makeDirectory path).2 := by
  unfold makeDirectory
  split
  · exact (Still.refl w).idle
  · next volumes hv =>
    refine ⟨rfl, fun hw => hw.grows (Core.Grows.trans (Core.Stays.refl _).grows
      (Core.Stays.refl _).grows) rfl rfl rfl rfl hw.stores hw.apart ?_⟩
    have hfiles : volumes.files = w.volumes.files := by
      unfold Volumes.makeDirectory at hv
      split at hv
      · cases hv
      split at hv
      · cases hv
      · exact makeAll_files hv
    rw [hfiles]
    exact hw.files

/-- The database in a file is there, once it was made if there was none. -/
theorem databaseAt_acts (hw : Holding own w) (path : String) (ha : P .ground w.core) :
    Acts own P w (w.databaseAt path).2 ∧
      ∀ d, (w.databaseAt path).1 = .ok d → d < (w.databaseAt path).2.databases.length := by
  have hrefl : Acts own P w w := ⟨⟨[], .nil _⟩, hw⟩
  unfold databaseAt
  dsimp only
  split
  · exact ⟨hrefl, by intro d h; cases h⟩
  · next d _ hd => exact ⟨hrefl, by intro d' h; cases h; exact hw.files _ (mem_of_lookup hd)⟩
  · split
    · refine ⟨.of_grounds (addDatabase_holding hw) (addDatabase_grounds w) ha, ?_⟩
      intro d h
      cases h
      simp [addDatabase]
    split
    · exact ⟨hrefl, by intro d h; cases h⟩
    split
    · exact ⟨hrefl, by intro d h; cases h⟩
    · refine ⟨.of_grounds ?_ (addDatabase_grounds w) ha, ?_⟩
      · refine hw.grounds (addDatabase_grounds w) rfl rfl rfl rfl rfl fun e he => ?_
        rw [addDatabase, List.length_append]
        rcases List.mem_append.mp he with he | he
        · exact Nat.lt_add_right _ (hw.files e he)
        · rw [List.mem_singleton.mp he]
          simp [addDatabase]
      · intro d h
        cases h
        simp [addDatabase]

theorem openDatabase_acts (hw : Holding own w) (s : Settings) (ha : ∀ k, P .ground k) :
    Acts own P w (w.openDatabase s).2 ∧
      ∀ d, (w.openDatabase s).1 = .ok d → d < (w.openDatabase s).2.databases.length := by
  unfold openDatabase
  split
  · next directory path _ _ =>
    have hidle := makeDirectory_idle directory w
    split
    · next hq => rw [hq] at hidle; exact ⟨hidle.acts hw, by intro d h; cases h⟩
    · next w₁ hq =>
      rw [hq] at hidle
      obtain ⟨hacts, hlt⟩ := databaseAt_acts (P := P) (hidle.2 hw) path (ha _)
      split
      · next hq' =>
        rw [hq'] at hacts
        exact ⟨(hidle.acts hw).trans hacts, by intro d h; cases h⟩
      · next hq' =>
        rw [hq'] at hacts hlt
        refine ⟨(hidle.acts hw).trans (hacts.trans ((still_report _ _).idle.acts hacts.2)), ?_⟩
        intro d h
        cases h
        exact hlt _ rfl
  · refine ⟨.of_grounds (addDatabase_holding hw) (addDatabase_grounds w) (ha _), ?_⟩
    intro d h
    cases h
    simp [addDatabase]

theorem connect_acts (hw : Holding own w) {d : DatabaseRef} (hd : d < w.databases.length)
    (ha : P .ground w.core) : Acts own P w (w.connect d).2 :=
  .of_grounds (hw.grounds (connect_grounds hd) rfl rfl rfl rfl rfl hw.files)
    (connect_grounds hd) ha

theorem addHub_acts (hw : Holding own w) (ha : P .ground w.core) :
    Acts own P w (w.addHub).2 :=
  .of_grounds (hw.grounds (addHub_grounds w) rfl rfl rfl rfl rfl hw.files) (addHub_grounds w) ha

/-! ## Stores -/

/-- A store that was opened has a coordinator of its own. -/
theorem openStore_acts (hs : w.core.Sound) (hw : Holding own w) (s : Settings)
    (ha : ∀ k, P .ground k) :
    Acts own P w (w.openStore s).2 ∧
      ∀ store, (w.openStore s).1 = .ok store → (w.openStore s).2.core.Serves own store ∧
        ∀ e ∈ (w.openStore s).2.stores, e.2.hub ≠ store.hub := by
  obtain ⟨hacts, hlt⟩ := openDatabase_acts hw s ha
  unfold openStore
  split
  · next hq => rw [hq] at hacts; exact ⟨hacts, by intro store h; cases h⟩
  · next d w₁ hq =>
    rw [hq] at hacts hlt
    split
    · exact ⟨hacts, by intro store h; cases h⟩
    · have hconnect := connect_acts (P := P) hacts.2 (hlt d rfl) (ha _)
      have hreport := (still_report (w₁.connect d).2 (.storeOpened s.storage s.fetchSize)).idle
      have hopen : Acts own P w _ := hacts.trans (hconnect.trans (hreport.acts hconnect.2))
      have hhub := addHub_acts (P := P) hopen.2 (ha _)
      refine ⟨hopen.trans hhub, ?_⟩
      intro store h
      cases h
      have hhubs : (w₁.connect d).2.core.coordinators.length = w₁.hubs.length := by
        simp [connect, core]
      refine ⟨⟨?_, ?_, by simp, ?_⟩, ?_⟩
      · simp [addHub, connect, report, core]
      · simp [addHub, connect, report, core]
      · intro _ m b hb hbh
        have hb' : (w₁.connect d).2.core.shape[m]? = some b := hb
        rw [Core.shape, List.getElem?_map, Option.map_eq_some_iff] at hb'
        obtain ⟨map, hmap, rfl⟩ := hb'
        have hplaced := ((hacts.trans hconnect).sound hs).placed hmap
        exact absurd (hbh ▸ hplaced.hub) (by rw [hhubs]; exact Nat.lt_irrefl _)
      · intro e he heq
        have hlt' := (hopen.2.stores e he).hub
        rw [heq] at hlt'
        simp [connect, report, core] at hlt'

theorem Holding.holdStore (h : Holding own w) {name : String} {s : Store} (hs : w.core.Serves own s)
    (hne : ∀ e ∈ w.stores, e.1 ≠ name → e.2.hub ≠ s.hub) : Holding own (w.holdStore name s) := by
  refine h.grows (Core.Stays.refl _).grows rfl rfl rfl rfl ?_ ?_ h.files
  · intro e he
    rcases List.mem_append.mp he with he | he
    · exact h.stores e (List.mem_filter.mp he).1
    · rw [List.mem_singleton.mp he]
      exact hs
  · intro e he e' he' heq
    rcases List.mem_append.mp he with he | he <;> rcases List.mem_append.mp he' with he' | he'
    · exact h.apart e (List.mem_filter.mp he).1 e' (List.mem_filter.mp he').1 heq
    · rw [List.mem_singleton.mp he'] at heq
      obtain ⟨hmem, hn⟩ := List.mem_filter.mp he
      exact absurd heq (hne e hmem (by simpa using hn))
    · rw [List.mem_singleton.mp he] at heq
      obtain ⟨hmem, hn⟩ := List.mem_filter.mp he'
      exact absurd heq.symm (hne e' hmem (by simpa using hn))
    · rw [List.mem_singleton.mp he, List.mem_singleton.mp he']

theorem Holding.closeStore (h : Holding own w) (name : String) :
    Holding own { w with stores := w.stores.filter (·.1 != name) } := by
  refine h.grows (Core.Stays.refl _).grows rfl rfl rfl rfl ?_ ?_ h.files
  · exact fun e he => h.stores e (List.mem_filter.mp he).1
  · exact fun e he e' he' => h.apart e (List.mem_filter.mp he).1 e' (List.mem_filter.mp he').1

/-! ## Identity maps -/

/-- An identity map is added with its table, or nothing changes. -/
theorem addMap_cases {s : Schema} {c : ConnectionRef} {h : HubRef}
    (hd : ∃ d : Draft, d.build = .ok s) (hc : c < w.connections.length)
    (hh : h < w.hubs.length) :
    (∃ e, (w.addMap s c h).1 = .error e ∧ Still w (w.addMap s c h).2) ∨
      (w.addMap s c h).1 = .ok w.maps.length ∧ Keeps w (w.addMap s c h).2 ∧
        Core.Does (.addMap s c h) w.core (w.addMap s c h).2.core ∧
        ∃ d, (w.addMap s c h).2.core =
          (w.core.setDatabase c d).addMap { schema := s, connection := c, hub := h } := by
  have hcore := core_through w c fun l => l.ensureTable s
  have hkeep := keeps_through w c fun l => l.ensureTable s
  have hcases := (w.link c).ensureTable_cases s
  unfold addMap
  split
  · next e w₁ hq =>
    have herr : ((w.link c).ensureTable s).1 = .error e := congrArg Prod.fst hq
    obtain ⟨e', -, hdb⟩ | ⟨n, d, ho, -⟩ := hcases
    · have hstill := still_through (f := fun l => l.ensureTable s) hdb
      rw [hq] at hstill
      exact .inl ⟨e, rfl, hstill⟩
    · rw [ho] at herr
      cases herr
  · next w₁ hq =>
    have hok : ((w.link c).ensureTable s).1 = .ok () := congrArg Prod.fst hq
    rw [hq] at hcore hkeep
    have hlen : w₁.maps.length = w.maps.length := by
      have := congrArg (·.maps.length) hcore
      simpa [core] using this
    have hafter : Core.addMap w₁.core { schema := s, connection := c, hub := h } =
        (w.core.setDatabase c ((w.link c).ensureTable s).2.database).addMap
          { schema := s, connection := c, hub := h } := by rw [hcore]
    refine .inr ⟨by rw [hlen], hkeep.trans ⟨rfl, rfl, rfl, rfl, rfl, rfl, rfl,
      fun _ => Nat.le_refl _⟩, ?_, _, hafter⟩
    exact ⟨w.link c, hd, by simpa [core] using hc, by simpa [core] using hh,
      (core_databaseOf w c).symm, hok, hafter⟩

theorem addMap_grows {s : Schema} {c : ConnectionRef} {h : HubRef} {d : Database}
    (hk : w'.core = (w.core.setDatabase c d).addMap { schema := s, connection := c, hub := h }) :
    w.core.Grows w'.core :=
  hk ▸ (Core.stays_setDatabase _ _ _).grows.trans (Core.grows_addMap _ s c h)

theorem addMap_shape {s : Schema} {c : ConnectionRef} {h : HubRef} {d : Database}
    (hk : w'.core = (w.core.setDatabase c d).addMap { schema := s, connection := c, hub := h })
    {m : MapRef} {b : IdentityMap} (hb : w'.core.shape[m]? = some b) :
    w.core.shape[m]? = some b ∨
      m = w.maps.length ∧ b = { schema := s, connection := c, hub := h } := by
  rw [hk] at hb
  have hmaps := Core.setDatabase_maps w.core c d
  rcases Core.shape_addMap hb with hb | ⟨hm, hb⟩
  · exact .inl (by rw [Core.shape, hmaps] at hb; exact hb)
  · exact .inr ⟨by rw [hmaps] at hm; exact hm, hb⟩

theorem addMap_shape_self {s : Schema} {c : ConnectionRef} {h : HubRef} {d : Database}
    (hk : w'.core = (w.core.setDatabase c d).addMap { schema := s, connection := c, hub := h }) :
    w'.core.shape[w.maps.length]? = some { schema := s, connection := c, hub := h } := by
  have hmaps := Core.setDatabase_maps w.core c d
  have hlen : (w.core.setDatabase c d).shape.length = w.maps.length := by
    simp [Core.shape, core]
  rw [hk, Core.shape, Core.addMap, List.map_append, ← hlen]
  exact List.getElem?_concat_length

/-- A new identity map is the business of its store and of no other. -/
theorem Holding.withMap (hw : Holding own w) {store table : String} {s : Store} {schema : Schema}
    {d : Database} (hmem : (store, s) ∈ w.stores) (hk : Keeps w w')
    (hcore : w'.core = (w.core.setDatabase s.connection d).addMap
      { schema, connection := s.connection, hub := s.hub }) :
    Holding own (w'.holdStore store (s.withMap table w.maps.length)) := by
  have hgrows := addMap_grows hcore
  have hserves := hw.stores _ hmem
  have hold : ∀ e ∈ w.stores, e.1 ≠ store → e.2.hub ≠ s.hub := by
    intro e he hname heq
    exact hname (congrArg Prod.fst (hw.apart e he _ hmem heq))
  have hw' : Holding own { w' with stores := w.stores.filter (·.1 != store) } := by
    refine hw.grows hgrows hk.views hk.handles hk.mapNames hk.viewNames ?_ ?_ ?_
    · intro e he
      obtain ⟨he, hname⟩ := List.mem_filter.mp he
      refine (hw.stores e he).grows hgrows fun _ _ _ hb hbh => ?_
      rcases addMap_shape hcore hb with hb | ⟨-, rfl⟩
      · exact hb
      · exact absurd hbh.symm (hold e he (by simpa using hname))
    · exact fun e he e' he' =>
        hw.apart e (List.mem_filter.mp he).1 e' (List.mem_filter.mp he').1
    · have hvol : w'.volumes = w.volumes := hk.volumes
      intro e he
      exact Nat.lt_of_lt_of_le (hw.files e (hvol ▸ he)) hgrows.databases
  have hnew : w'.core.Serves own (s.withMap table w.maps.length) := by
    refine ⟨Nat.lt_of_lt_of_le hserves.connection hgrows.connections,
      Nat.lt_of_lt_of_le hserves.hub hgrows.hubs, ?_, ?_⟩
    · intro e he
      rcases List.mem_append.mp he with he | he
      · obtain ⟨map, hmap, hrest⟩ := hserves.maps e he
        exact ⟨map, hgrows.shape hmap, hrest⟩
      · rw [List.mem_singleton.mp he]
        exact ⟨_, addMap_shape_self hcore, rfl, rfl⟩
    · intro ho m b hb hbh
      rw [Store.withMap, List.map_append, List.mem_append]
      rcases addMap_shape hcore hb with hb | ⟨rfl, -⟩
      · exact .inl (hserves.all ho hb hbh)
      · exact .inr (by simp)
  have hkeep : ∀ e ∈ w.stores.filter (·.1 != store), e.1 ≠ store →
      e.2.hub ≠ (s.withMap table w.maps.length).hub := by
    intro e he hname
    exact hold e (List.mem_filter.mp he).1 hname
  have hfinal := hw'.holdStore hnew hkeep
  have hst : w'.stores = w.stores := hk.stores
  unfold Workspace.holdStore at hfinal ⊢
  rw [hst]
  simpa [List.filter_filter] using hfinal

/-- A type is registered in an open store. -/
theorem registerUnder_acts (hw : Holding own w) {store as : String} {d : Draft} {s : Store}
    (hst : w.stores.lookup store = some s) (ha : ∀ s c h k, P (.addMap s c h) k) :
    Acts own P w (registerUnder store as d s w).2 := by
  have hrefl : Acts own P w w := ⟨⟨[], .nil _⟩, hw⟩
  have hmem := mem_of_lookup hst
  have hserves := hw.stores _ hmem
  unfold registerUnder
  split
  · exact hrefl
  · next schema hbuild =>
    unfold registerType
    cases hlook : s.maps.lookup schema.table with
    | some m =>
      dsimp only
      split
      · next hq =>
        split at hq
        · cases hq
        · cases hq; exact hrefl
      · next hq =>
        split at hq
        · cases hq
          obtain ⟨map, hmap, -⟩ := hserves.maps _ (mem_of_lookup hlook)
          have hm : m < w.maps.length := by
            have hlt := (List.getElem?_eq_some_iff.mp hmap).1
            simpa [Core.shape, core] using hlt
          refine ⟨⟨[], .nil _⟩, (hw.holdStore hserves ?_).holdMap as hm⟩
          intro e he hname heq
          exact hname (congrArg Prod.fst (hw.apart e he _ hmem heq))
        · cases hq
    | none =>
      have hcases := addMap_cases (s := schema) (c := s.connection) (h := s.hub) ⟨d, hbuild⟩
        (by simpa [core] using hserves.connection) (by simpa [core] using hserves.hub)
      dsimp only
      cases hadd : w.addMap schema s.connection s.hub with
      | mk result w₁ =>
        rw [hadd] at hcases
        obtain ⟨e, he, hstill⟩ | ⟨hok, hkeep, hdoes, db, hcore⟩ := hcases
        · dsimp only at he
          subst he
          exact hstill.idle.acts hw
        · dsimp only at hok hkeep hcore
          subst hok
          have hlast : w.maps.length < w₁.maps.length := by
            have hlt := (List.getElem?_eq_some_iff.mp (addMap_shape_self hcore)).1
            simpa [Core.shape, core] using hlt
          have hhold : Holding own ((w₁.report (.typeRegistered schema.table)).holdStore store
              (s.withMap schema.table w.maps.length)) :=
            hw.withMap hmem (hkeep.trans (still_report _ _).2) hcore
          exact ⟨⟨[_], .single ⟨ha _ _ _ _, hdoes⟩⟩, hhold.holdMap as hlast⟩

/-- A workspace with one more database and a connection to it. -/
def newGround (w : Workspace) : Workspace :=
  ((w.addDatabase).2.connect w.databases.length).2

theorem newGround_acts (hw : Holding own w) (hg : ∀ k, P .ground k) :
    Acts own P w w.newGround := by
  have hdb : Acts own P w (w.addDatabase).2 :=
    .of_grounds (addDatabase_holding hw) (addDatabase_grounds w) (hg _)
  exact hdb.trans (connect_acts hdb.2 (by simp [addDatabase]) (hg _))

/-- An identity map gets a new coordinator, unless that of a store is asked for. -/
theorem hubFor_cases (w : Workspace) (store : Option String) :
    w.hubFor store = w.addHub ∨
      ∃ name s, store = some name ∧ (name, s) ∈ w.stores ∧ w.hubFor store = (s.hub, w) := by
  unfold hubFor
  split
  · next s hs =>
    obtain ⟨name, rfl, hlook⟩ := Option.bind_eq_some_iff.mp hs
    exact .inr ⟨name, s, rfl, mem_of_lookup hlook, rfl⟩
  · exact .inl rfl

/-- An identity map is added and held. Its coordinator is that of a store only
where stores need not have theirs to themselves. -/
theorem addMap_acts (hw : Holding own w) {s : Schema} {c : ConnectionRef} {h : HubRef}
    (hd : ∃ d : Draft, d.build = .ok s) (hc : c < w.connections.length) (hh : h < w.hubs.length)
    (hne : own → ∀ e ∈ w.stores, e.2.hub ≠ h) (as : String)
    (ha : ∀ s c h k, P (.addMap s c h) k) :
    Acts own P w (match w.addMap s c h with
      | (.error e, w) => ((.error (.store e), w) : Outcome)
      | (.ok m, w) => (.ok .done, w.holdMap as m)).2 := by
  have hcases := addMap_cases hd hc hh
  cases hadd : w.addMap s c h with
  | mk result w₁ =>
    rw [hadd] at hcases
    obtain ⟨e, he, hstill⟩ | ⟨hok, hkeep, hdoes, db, hcore⟩ := hcases
    · dsimp only at he
      subst he
      exact hstill.idle.acts hw
    · dsimp only at hok hkeep hcore
      subst hok
      have hgrows := addMap_grows hcore
      have hlast : w.maps.length < w₁.maps.length := by
        have hlt := (List.getElem?_eq_some_iff.mp (addMap_shape_self hcore)).1
        simpa [Core.shape, core] using hlt
      have hw₁ : Holding own w₁ := by
        refine hw.grows hgrows hkeep.views hkeep.handles hkeep.mapNames hkeep.viewNames ?_ ?_ ?_
        · rw [hkeep.stores]
          intro e he
          refine (hw.stores e he).grows hgrows fun ho _ _ hb hbh => ?_
          rcases addMap_shape hcore hb with hb | ⟨-, rfl⟩
          · exact hb
          · exact absurd hbh.symm (hne ho e he)
        · rw [hkeep.stores]
          exact hw.apart
        · rw [hkeep.volumes]
          exact fun e he => Nat.lt_of_lt_of_le (hw.files e he) hgrows.databases
      exact ⟨⟨[_], .single ⟨ha _ _ _ _, hdoes⟩⟩, hw₁.holdMap as hlast⟩

theorem openMap_of_build {d : Draft} {schema : Schema} (hd : d.build = .ok schema)
    (store : Option String) (as : String) :
    w.openMap d store as =
      match (w.newGround.hubFor store).2.addMap schema w.connections.length
        (w.newGround.hubFor store).1 with
      | (.error e, w) => (.error (.store e), w)
      | (.ok m, w) => (.ok .done, w.holdMap as m) := by
  unfold openMap
  rw [hd]
  rfl

/-- An identity map over a database of its own. -/
theorem openMap_acts (hw : Holding own w) (d : Draft) {store : Option String} (as : String)
    (ho : own → store = none) (hg : ∀ k, P .ground k) (ha : ∀ s c h k, P (.addMap s c h) k) :
    Acts own P w (w.openMap d store as).2 := by
  cases hbuild : d.build with
  | error e =>
    unfold openMap
    rw [hbuild]
    exact ⟨⟨[], .nil _⟩, hw⟩
  | ok schema =>
    have hbase := newGround_acts (P := P) hw hg
    have hconn : w.connections.length < w.newGround.connections.length := by
      simp [newGround, connect, addDatabase]
    obtain hhub | ⟨name, s, hstore, hs, hhub⟩ := hubFor_cases w.newGround store
    · have hadd := addHub_acts hbase.2 (hg _)
      -- No store of before has the new coordinator.
      have hne : ∀ e ∈ (w.newGround.addHub).2.stores, e.2.hub ≠ w.newGround.hubs.length := by
        intro e he heq
        have hlt := (hbase.2.stores e he).hub
        rw [heq] at hlt
        simp [core] at hlt
      rw [openMap_of_build hbuild, hhub]
      exact hbase.trans (hadd.trans
        (addMap_acts hadd.2 ⟨d, hbuild⟩ hconn (by simp [addHub]) (fun _ => hne) as ha))
    · rw [openMap_of_build hbuild, hhub]
      exact hbase.trans (addMap_acts hbase.2 ⟨d, hbuild⟩ hconn
        (by simpa [core] using (hbase.2.stores _ hs).hub)
        (fun h => absurd ((ho h).symm.trans hstore) (Option.some_ne_none name).symm) as ha)

/-! ## Others -/

/-- Another user changes the database in a file. -/
theorem elsewhere_acts (hw : Holding own w) (directory file : String) (c : Database.Change)
    (hg : ∀ k, P .ground k)
    (ha : ∀ w' d, w.makeDirectory directory = (.ok (), w') →
      (w'.databaseAt (Path.join directory file)).1 = .ok d → ∀ k, P (.foreign d) k) :
    Acts own P w (w.elsewhere directory file c).2 := by
  have hidle := makeDirectory_idle directory w
  unfold elsewhere
  split
  · next hq => rw [hq] at hidle; exact hidle.acts hw
  · next w₁ hq =>
    rw [hq] at hidle
    obtain ⟨hacts, hlt⟩ := databaseAt_acts (P := P) (hidle.2 hw)
      (Path.join directory file) (hg _)
    split
    · next hq' => rw [hq'] at hacts; exact (hidle.acts hw).trans hacts
    · next d w₂ hq' =>
      rw [hq'] at hacts hlt
      obtain ⟨x, hx⟩ : ∃ x, w₂.databases[d]? = some x :=
        ⟨_, List.getElem?_eq_getElem (hlt d rfl)⟩
      have hset : w₂.databases.modify d (fun d => d.apply c) =
          w₂.databases.set d (x.apply c) := by
        ext j y
        rw [List.getElem?_modify, List.getElem?_set]
        by_cases hj : d = j
        · subst hj
          rw [hx, if_pos rfl, if_pos (List.getElem?_eq_some_iff.mp hx).1]
          simp
        · simp [hj]
      have hfor : Core.Does (.foreign d) w₂.core
          { w₂ with databases := w₂.databases.modify d fun d => d.apply c }.core :=
        ⟨x.apply c, by rw [hset]; rfl⟩
      refine (hidle.acts hw).trans (hacts.trans ⟨⟨[_], .single
        ⟨ha w₁ d hq (by rw [hq']) _, hfor⟩⟩, ?_⟩)
      exact hacts.2.of_stays (Core.Does.stays rfl hfor) rfl rfl rfl rfl rfl rfl

end Workspace

end LiveRecords
