import LiveRecords.Proofs.Clearing

/-!
# Records apart

What an action of a private run leaves alone. A command on a record, or a step
of a store, changes that record and its row; a parent goes into one row; letting
go takes the rows whose deletion was staged and went through; reading changes no
row but those of records that answer. And whatever is done, rows that are there
keep their places, and new ones come last.
-/

namespace LiveRecords.Workspace

open LiveRecords.Core

variable {w w' w₁ : Workspace} {o : Outlook} {apart apart' : RecordRef → Prop} {m : MapRef}
  {map : IdentityMap} {s : Schema} {id : RecordId} {r : RecordRef} {c : ConnectionRef}
  {d : DatabaseRef} {a : Action} {ids : List RecordId} {rs : List RecordRef}

/-! ## Reading -/

/-- Rows of an identity map are read and taken in, or nothing happens. -/
def Absorbs (w w' : Workspace) : Prop :=
  w'.core = w.core ∨ ∃ (m : MapRef) (map : IdentityMap) (images : List RowImage) (w₁ : Workspace),
    w.maps[m]? = some map ∧ w.TakesIn m map images w₁ ∧ w'.core = w₁.core

theorem absorbs_find (hs : w.core.Sound) (hm : w.maps[m]? = some map) (f : Filter)
    (as : Option String) : w.Absorbs (answerAll as (w.find m f)).2 := by
  obtain ⟨-, -, hstill, -⟩ | ⟨images, -, -, htakes, -⟩ := find_cases hs hm f
  · exact .inl ((core_answerAll _ _).trans hstill.1)
  · exact .inr ⟨m, map, images, _, hm, htakes, core_answerAll _ _⟩

theorem absorbs_children (hs : w.core.Sound) (hm : w.maps[m]? = some map) (parent : RecordId)
    (as : Option String) : w.Absorbs (answerAll as (Workspace.children m parent w)).2 := by
  unfold children
  split
  · exact .inl rfl
  · exact absorbs_find hs hm _ as

theorem perform_absorbs (hs : w.core.Sound) (hw : Holding True w) (ha : a.isRead = true) :
    w.Absorbs (w.perform a).2 := by
  have hlt : ∀ {name m}, w.mapNames.lookup name = some m → ∃ map, w.maps[m]? = some map :=
    fun hm => map_of_lt (hw.mapNames _ (mem_of_lookup hm))
  cases a with
  | load name id as =>
    simp only [perform, withMap]
    split
    · next m hm =>
      obtain ⟨map, hmap⟩ := hlt hm
      obtain ⟨hstill, -⟩ | ⟨image, -, -, htakes, -⟩ := load_cases hs hmap id
      · exact .inl ((core_answerHeld _ _).trans hstill.1)
      · exact .inr ⟨m, map, [image], _, hmap, htakes, core_answerHeld _ _⟩
    · exact .inl rfl
  | find name f as =>
    simp only [perform, withMap]
    split
    · next m hm =>
      obtain ⟨map, hmap⟩ := hlt hm
      exact absorbs_find hs hmap f as
    · exact .inl rfl
  | children name parent as =>
    simp only [perform, withMap]
    split
    · next m hm =>
      obtain ⟨map, hmap⟩ := hlt hm
      exact absorbs_children hs hmap parent as
    · exact .inl rfl
  | childrenOf name parent as =>
    simp only [perform, withMap, withRecord]
    split
    · next m hm =>
      obtain ⟨map, hmap⟩ := hlt hm
      split
      · split
        · exact .inl rfl
        · exact absorbs_children hs hmap _ as
      · exact .inl rfl
    · exact .inl rfl
  | _ => cases ha

/-- Reading keeps the rows of all records that do not answer. -/
theorem Tended.read_steady (h : Tended o apart w) (ha : a.isRead = true) :
    o.Steady (Outlook.Answers (fun r => 0 < w.armed r) (w.perform a).2.core) w.core
      (w.perform a).2.core := by
  obtain hsame | ⟨m, map, images, w', hm, htakes, hcore⟩ :=
    perform_absorbs h.sound h.holding ha
  · rw [hsame]
    exact Outlook.steady_of_database rfl
  · rw [hcore]
    exact h.faithful.read_steady h.sole h.ahead h.sound hm htakes.reads htakes.taken

/-- Turning the pages of a view. -/
def Action.turnsPage : Action → Bool
  | .prefetch .. | .fetchMore _ | .reset _ => true
  | _ => false

theorem core_of_turnsPage (ha : a.turnsPage = true) : (w.perform a).2.core = w.core := by
  cases a with
  | prefetch view n =>
    simp only [perform, withView]
    split
    · rw [snd_answer]
      exact (prefetch_idle _ n w).1
    · rfl
  | fetchMore view =>
    simp only [perform, withView]
    split
    · rw [snd_answer]
      exact (fetchMore_idle _ w).1
    · rfl
  | reset view =>
    simp only [perform, withView]
    split
    · rw [snd_answer]
      exact (reset_idle _ w).1
    · rfl
  | _ => cases ha

/-! ## Places -/

/-- An action commands one record at most. -/
theorem addresses_unique {j : RecordRef} (h : a.Addresses w r) (h' : a.Addresses w j) :
    r = j := by
  cases a with
  | stepAll store t =>
    obtain ⟨s, rest, hs, he⟩ := h
    obtain ⟨s', rest', hs', he'⟩ := h'
    cases hs.symm.trans hs'
    cases he.symm.trans he'
    rfl
  | command record c => exact Option.some.inj (h.symm.trans h')
  | addChild map parent child => exact Option.some.inj (h.1.symm.trans h'.1)
  | removeChild map child => exact Option.some.inj (h.1.symm.trans h'.1)
  | setData view n role v =>
    obtain ⟨u, hu, hr⟩ := h
    obtain ⟨u', hu', hr'⟩ := h'
    cases hu.symm.trans hu'
    exact Except.ok.inj (hr.symm.trans hr')
  | createStaging view key as =>
    obtain ⟨u, x, hu, hx, hr, -⟩ := h
    obtain ⟨u', x', hu', hx', hr', -⟩ := h'
    cases hu.symm.trans hu'
    cases hx.symm.trans hx'
    exact hr.symm.trans hr'
  | commitStaging view as =>
    obtain ⟨u, hu, hr⟩ := h
    obtain ⟨u', hu', hr'⟩ := h'
    cases hu.symm.trans hu'
    exact Option.some.inj (hr.symm.trans hr')
  | _ => exact h.elim

/-- An action that lets records go. -/
def Action.letsGo : Action → Bool
  | .release .. | .sweep _ => true
  | _ => false

/-- What lets no record go leaves rows standing and adds one at most. -/
theorem Tended.grown (h : Tended o apart w) (h' : Tended o apart' (w.perform a).2)
    (ha : a.Upholds o apart w) (hgo : a.letsGo = false) :
    ∃ r, o.Grown r w.core (w.perform a).2.core := by
  obtain ⟨r, hr⟩ : ∃ r, ∀ j, a.Addresses w j → j = r := by
    by_cases hex : ∃ r, a.Addresses w r
    · obtain ⟨r, hr⟩ := hex
      exact ⟨r, fun j hj => addresses_unique hj hr⟩
    · exact ⟨0, fun j hj => absurd ⟨j, hj⟩ hex⟩
  obtain ⟨⟨ds, hc⟩, -⟩ := perform_acts h.sound h.holding (.of_sharesHub ha.sharesHub)
  have hcourse : Course (fun e k => o.Orderly apart e k ∧
      (e.rests = true ∨ ∃ c reply, e = .command r c reply)) (ds.map id) w.core
      (w.perform a).2.core := by
    refine Chain.map (fun {e k k'} hd => ⟨⟨ha.orderly hd.1 hd.2, ?_⟩, hd.2⟩) hc
    cases hd.1 with
    | command haddress =>
      cases hr _ haddress
      exact .inr ⟨_, _, rfl⟩
    | free hlets =>
      cases a with
      | release map record => cases hgo
      | sweep map => cases hgo
      | _ => exact hlets.elim
    | _ => exact .inl rfl
  exact ⟨r, h.faithful.course_grown h.sole h.sound hcourse h'.ahead⟩

theorem Tended.settled_of_grown (h : Tended o apart w) (h' : Tended o apart' w')
    (hg : o.Grown r w.core w'.core) (hk : w.core.Precedes w'.core) (ht : o.Types w.core m s)
    (hroom : ∀ e ∈ w.rows m, e.number < Table.maxNumber) :
    Settled ((w.rows m).map Shelved.place) ((w'.rows m).map Shelved.place) := by
  obtain ⟨es', hes', hgrown⟩ := hg.rows ht (h.holds_rows ht) hroom
  rw [h'.rows_of_holds (ht.ahead hk) hes']
  refine settled_of_prefix ?_ ?_
  · obtain hsame | ⟨hpre, -⟩ := hgrown
    · exact hsame ▸ List.prefix_refl _
    · exact hpre
  · rw [map_place_snd]
    exact hes'.shelf.ids

theorem Tended.settled_of_clears (h : Tended o apart w) (h' : Tended o apart' w')
    (hg : Clears o m ids w.core w'.core) (hk : w.core.Precedes w'.core) {n : MapRef}
    (ht : o.Types w.core n s) :
    Settled ((w.rows n).map Shelved.place) ((w'.rows n).map Shelved.place) := by
  have hes := h.holds_rows ht
  rw [h'.rows_of_holds (ht.ahead hk) (hg.rows ht hes)]
  refine settled_of_sublist (List.Sublist.map _ ?_) ?_
  · split
    · exact List.filter_sublist
    · exact .refl _
  · have hids := hes.shelf.ids
    rw [← map_place_snd] at hids
    exact (List.pairwise_map.mp hids).imp fun hne he => hne (congrArg Prod.snd he)

theorem settled_refl {before : List (Int × RecordId)} (h : (before.map (·.2)).Nodup) :
    Settled before before :=
  settled_of_prefix (List.prefix_refl _) h

/-- Letting go of records takes rows and changes no record. -/
theorem Tended.frees (h : Tended o apart w) (h' : Tended o apart' (w.perform a).2)
    (ha : a.Frees w m rs w₁) :
    Clears o m (erased m rs (w₁.unregister m rs)) w.core (w.perform a).2.core ∧
      (w.perform a).2.states = w.states := by
  obtain ⟨hcore, hn, hl, hafter⟩ := frees_eq h.sound ha
  have hw : (w₁.unregister m rs).core = w.core.unregister m rs := by
    rw [core_unregister, hcore]
  have hlast := h'.ahead
  rw [hafter] at hlast
  obtain ⟨hclears, hrecords⟩ := clears_finishAll h.sole h.sound h.faithful hw hn hl hlast
  rw [hafter]
  exact ⟨hclears, by rw [states_eq, hafter, hrecords, states_eq]⟩

theorem frees_or_same (ha : a.letsGo = true) :
    (∃ m rs w₁, a.Frees w m rs w₁) ∨ (w.perform a).2 = w := by
  cases a with
  | release map record =>
    cases hm : w.mapNames.lookup map with
    | none => exact .inr (by simp only [perform, withMap, hm]; rfl)
    | some m =>
      cases hr : w.handle? record with
      | none => exact .inr (by simp only [perform, withMap, withRecord, hm, hr]; rfl)
      | some r => exact .inl ⟨_, _, _, .release hm hr⟩
  | sweep map =>
    cases hm : w.mapNames.lookup map with
    | none => exact .inr (by simp only [perform, withMap, hm]; rfl)
    | some m => exact .inl ⟨_, _, _, .sweep hm⟩
  | _ => cases ha

/-! ## Isolation -/

/-- What an action of a program leaves alone of the rows and records of a
connection. -/
structure Isolated (c : ConnectionRef) (w : Workspace) (a : Action) : Prop where
  /-- Rows are listed in the order of their numbers. -/
  listed : ∀ {m map}, w.maps[m]? = some map → map.connection = c →
    (w.rows m).Pairwise fun e e' => e.number < e'.number
  command : ∀ {name e r}, a = .command name e → w.handle? name = some r →
    Confined c r w (w.perform a).2
  step : ∀ {name t st}, a = .stepAll name t → w.stores.lookup name = some st →
    ((w.coordinatorOf st.hub).entries t = [] → (w.perform a).2 = w) ∧
      ∀ r rest, (w.coordinatorOf st.hub).entries t = r :: rest → Confined c r w (w.perform a).2
  parent : ∀ {m map r id parent}, a.Reparents w m r parent → w.maps[m]? = some map →
    map.connection = c → w.registered? m id = some r →
      Confined c r w (w.perform a).2 ∧
      (∀ e, (w.perform a).1 = .error e →
        (w.perform a).2.states = w.states ∧ ∀ n, (w.perform a).2.rows n = w.rows n) ∧
      (∀ reply, (w.perform a).1 = .ok reply → w.armed r = 0 →
        Reparented m r id parent w (w.perform a).2)
  free : ∀ {m rs w₁}, a.Frees w m rs w₁ → (w.perform a).2.states = w.states ∧
    (∀ id ∈ erased m rs (w₁.unregister m rs),
      ∃ r ∈ rs, ∃ x, w.states[r]? = some x ∧ x.id = id ∧ x.deletePending = true) ∧
    ∀ {n map}, w.maps[n]? = some map → map.connection = c → (w.perform a).2.rows n =
      if n = m then cleared (erased m rs (w₁.unregister m rs)) (w.rows n) else w.rows n
  read : a.isRead = true → ∀ {m map id}, w.maps[m]? = some map → map.connection = c →
    (∀ r, (w.perform a).2.registered? m id = some r → w.armed r = 0) →
      shelved? ((w.perform a).2.rows m) id = shelved? (w.rows m) id
  page : a.turnsPage = true → (w.perform a).2.states = w.states ∧
    ∀ m, (w.perform a).2.rows m = w.rows m
  order : ∀ {m map}, w.maps[m]? = some map → map.connection = c →
    (∀ e ∈ w.rows m, e.number < Table.maxNumber) →
      Settled ((w.rows m).map Shelved.place) (((w.perform a).2.rows m).map Shelved.place)
  /-- Tables of no record type are left alone. -/
  tables : (w.connections[c]?).isSome = true →
    ∀ name, (∀ map ∈ (w.perform a).2.maps, map.connection = c →
      sameName map.schema.table name = false) →
    ((w.perform a).2.databaseOf c).table? name = (w.databaseOf c).table? name

/-- Whatever an action does, rows keep their places, and tables of no record type
are left alone. -/
theorem Tended.places (h : Tended o apart w) (h' : Tended o apart' (w.perform a).2)
    (ha : a.Upholds o apart w) :
    (∀ {m s}, o.Types w.core m s → (∀ e ∈ w.rows m, e.number < Table.maxNumber) →
      Settled ((w.rows m).map Shelved.place) (((w.perform a).2.rows m).map Shelved.place)) ∧
      o.Leaves w.core (w.perform a).2.core := by
  have hk := perform_precedes h.sound h.holding (.of_sharesHub ha.sharesHub)
  cases hgo : a.letsGo with
  | false =>
    obtain ⟨r, hg⟩ := h.grown h' ha hgo
    exact ⟨h.settled_of_grown h' hg hk, hg.tables⟩
  | true =>
    obtain ⟨m, rs, w₁, hf⟩ | hsame := frees_or_same (w := w) hgo
    · obtain ⟨hg, -⟩ := h.frees h' hf
      exact ⟨fun ht _ => h.settled_of_clears h' hg hk ht, hg.tables⟩
    · rw [hsame]
      refine ⟨fun ht _ => settled_refl ?_, .refl _⟩
      rw [map_place_snd]
      exact (h.holds_rows ht).shelf.ids

theorem isSome_connection (hk : w.core.Precedes w'.core)
    (h : (w.connections[c]?).isSome = true) : (w'.connections[c]?).isSome = true := by
  obtain ⟨x, hx⟩ := Option.isSome_iff_exists.mp h
  have hconn : w'.core.connections[c]? = some x.database :=
    hk.connections (by rw [core_connections, hx, Option.map_some])
  rw [core_connections] at hconn
  rw [← Option.isSome_map, hconn, Option.isSome_some]

theorem databaseOf_of_connection {k : Core} (hk : w.core.Precedes k)
    (hc : k.connections[c]? = some d) (h : (w.connections[c]?).isSome = true) :
    w.databaseOf c = w.core.database d := by
  obtain ⟨x, hx⟩ := Option.isSome_iff_exists.mp h
  have hconn : w.core.connections[c]? = some x.database := by
    rw [core_connections, hx, Option.map_some]
  have hlast := hk.connections hconn
  rw [hc] at hlast
  cases hlast
  rw [← core_databaseOf, databaseOf_eq hconn]

/-- What a tended workspace has that an action leaves alone. -/
theorem Tended.isolated (h : Tended o apart w) (h' : Tended o apart' (w.perform a).2)
    (ha : a.Upholds o apart w) : Isolated o.connection w a := by
  obtain ⟨hplaces, hleaves⟩ := h.places h' ha
  have hk := perform_precedes h.sound h.holding (.of_sharesHub ha.sharesHub)
  constructor
  case listed =>
    intro m map hm hc
    exact (h.holds_rows (h.types hm hc)).shelf.sorted
  case command =>
    rintro name e r rfl hr
    have hafter : (w.perform (.command name e)).2 = (w.run r e).2 := by
      simp only [perform, withRecord, hr, snd_answer]
    rw [hafter] at h' ⊢
    exact h.confined_run (h.holding.handles _ (mem_of_lookup hr)) e h'
  case step =>
    rintro name t st rfl hst
    have hafter : (w.perform (.stepAll name t)).2 = (w.step st.hub t).2 := by
      simp only [perform, withStore, hst, snd_answer]
    rw [hafter] at h' ⊢
    refine ⟨fun he => by rw [step_of_nil he], fun r rest he => ?_⟩
    have hr : r ∈ (w.coordinatorOf st.hub).entries t := he ▸ List.mem_cons_self
    rw [step_of_cons h.sound h.holding (mem_of_lookup hst) he] at h' ⊢
    exact h.confined_run (run_replay_ne_nothing h.sound hr).1 _ h'
  case parent =>
    intro m map r id parent hp hm hc hid
    obtain ⟨hconfined, hfails, hsets⟩ := h.reparents h' hp hm hc hid
    exact ⟨hconfined, fun e he => ⟨states_of_core (hfails e he), fun n =>
      rows_of_core (hfails e he)⟩, hsets⟩
  case free =>
    intro m rs w₁ hf
    obtain ⟨hclears, hstates⟩ := h.frees h' hf
    refine ⟨hstates, fun id => mem_erased_of_frees h.sound hf, fun {n map} hm hc => ?_⟩
    have ht := h.types hm hc
    exact h'.rows_of_holds (ht.ahead hk) (hclears.rows ht (h.holds_rows ht))
  case read =>
    intro hread m map id hm hc hid
    have ht := h.types hm hc
    obtain ⟨es', hes', -, hrows⟩ := (h.read_steady hread).rows ht (h.holds_rows ht)
    rw [h'.rows_of_holds (ht.ahead hk) hes']
    refine hrows id fun hanswers => ?_
    obtain ⟨r, hpos, hl⟩ := hanswers
    exact absurd (hid r (registered_of_lists h'.sound hl)) (Nat.ne_of_gt hpos)
  case page =>
    intro hpage
    have hcore := core_of_turnsPage (w := w) hpage
    exact ⟨states_of_core hcore, fun m => rows_of_core hcore⟩
  case order =>
    intro m map hm hc
    exact hplaces (h.types hm hc)
  case tables =>
    intro hconn name hname
    have hconn' := isSome_connection hk hconn
    rw [databaseOf_of_connection h'.ahead h.sole.connection hconn',
      databaseOf_of_connection h.ahead h.sole.connection hconn]
    refine hleaves name fun m s ht => ?_
    obtain ⟨map, hm, hc, rfl⟩ := ht
    exact hname map (List.mem_of_getElem? hm) hc

/-- In every state of a private run, whatever is done next, successful or
failing, leaves other rows and records alone and rows where they stand. -/
theorem isolated_of_run {w₀ : Workspace} (hb : Boots w₀) {actions : List Action}
    (ha : Follows (Action.Private d) w₀ (actions ++ [a]))
    (hc : (w₀.performAll (actions ++ [a])).SoleWriter c d)
    (hd : (w₀.performAll (actions ++ [a])).Prepared c (w₀.core.database d)) :
    Isolated c (w₀.performAll actions) a := by
  obtain ⟨hbefore, hlast, -⟩ := follows_append.mp ha
  have hrun : w₀.performAll (actions ++ [a]) = ((w₀.performAll actions).perform a).2 := by
    rw [performAll_append]
    rfl
  obtain ⟨hs, hw⟩ := hbefore.good (fun h => .of_sharesHub h.sharesHub) hb.sound hb.holding
  have hk := perform_precedes hs hw (.of_sharesHub hlast.sharesHub)
  have hahead : (w₀.performAll actions).core.Precedes
      ((w₀.performAll (actions ++ [a])).outlook c d false).last := hrun ▸ hk
  have htended := tended_within hb (hc.sole false) rfl hbefore (hb.faithful hd) hahead
  have h : Tended ((w₀.performAll (actions ++ [a])).outlook c d false) (fun _ => True)
      (w₀.performAll actions) :=
    ⟨hs, hw, htended.sole, hahead, htended.faithful.mono fun _ _ => trivial⟩
  have hup : a.Upholds ((w₀.performAll (actions ++ [a])).outlook c d false) (fun _ => True)
      (w₀.performAll actions) := hlast.upholds rfl fun _ _ => trivial
  exact h.isolated (h.performed hup (hrun ▸ .refl _)) hup

/-- A program with two records of one type, the second about to be saved. -/
def savesBread : List Action :=
  [.openStore "store" .inMemory,
    .registerType "store" { table := "NOTES", fields := [⟨"TITLE", .text, true⟩] } "notes",
    .newRecord "notes" (.ofOrdinal 1) (some "milk"), .command "milk" .commit,
    .newRecord "notes" (.ofOrdinal 2) (some "bread"),
    .command "bread" (.set "TITLE" (.text "bread"))]

/-- Saving the second record leaves the first, and its row comes last. -/
theorem isolated_savesBread : Boots {} ∧
    Follows (Action.Private 0) {} (savesBread ++ [.command "bread" .commit]) ∧
    (performAll {} (savesBread ++ [.command "bread" .commit])).SoleWriter 0 0 ∧
    Isolated 0 (performAll {} savesBread) (.command "bread" .commit) ∧
    ((performAll {} savesBread).rows 0).map Shelved.place = [(1, .ofOrdinal 1)] ∧
    ((performAll {} (savesBread ++ [.command "bread" .commit])).rows 0).map Shelved.place =
      [(1, .ofOrdinal 1), (2, .ofOrdinal 2)] := by
  have hfollows : Follows (Action.Private 0) {} (savesBread ++ [.command "bread" .commit]) :=
    ⟨⟨rfl, id⟩, ⟨rfl, id⟩, ⟨rfl, id⟩, ⟨rfl, id⟩, ⟨rfl, id⟩, ⟨rfl, id⟩, ⟨rfl, id⟩, trivial⟩
  have hsole : (performAll {} (savesBread ++ [.command "bread" .commit])).SoleWriter 0 0 :=
    soleWriter_of_single (n := ["TITLE"]) (by rfl) (by rfl) (by decide)
  exact ⟨boots_empty, hfollows, hsole,
    isolated_of_run boots_empty hfollows hsole (prepared_empty _ _), by rfl, by rfl⟩

/-- A program with two types of one table, as the database sees it; the second has
no column of its own there, and its field names the number of a row. -/
def savesOver : List Action :=
  [.openStore "store" .inMemory,
    .registerType "store" { table := "Note", fields := [⟨"title", .text, false⟩] } "notes",
    .newRecord "notes" (.ofOrdinal 1) (some "milk"),
    .command "milk" (.set "title" (.text "milk")), .command "milk" .commit,
    .registerType "store" { table := "NOTE", fields := [⟨"oid", .integer, true⟩] } "numbers",
    .newRecord "numbers" (.ofOrdinal 2) (some "one"),
    .command "one" (.set "oid" (.integer 1))]

/-- Saving the record of the one type takes the row of a record of the other. -/
theorem rows_savesOver : Boots {} ∧
    Follows (Action.Private 0) {} (savesOver ++ [.command "one" .commit]) ∧
    (performAll {} savesOver).handle? "one" = some 1 ∧
    (performAll {} savesOver).registered? 0 (.ofOrdinal 1) = some 0 ∧
    ((performAll {} savesOver).rows 0).map Shelved.place = [(1, .ofOrdinal 1)] ∧
    ((performAll {} (savesOver ++ [.command "one" .commit])).rows 0).map Shelved.place =
      [(1, .ofOrdinal 2)] ∧
    ¬ Isolated 0 (performAll {} savesOver) (.command "one" .commit) := by
  have hlt : 0 < (performAll {} savesOver).maps.length := by decide
  refine ⟨boots_empty, ⟨⟨rfl, id⟩, ⟨rfl, id⟩, ⟨rfl, id⟩, ⟨rfl, id⟩, ⟨rfl, id⟩, ⟨rfl, id⟩,
    ⟨rfl, id⟩, ⟨rfl, id⟩, ⟨rfl, id⟩, trivial⟩, by rfl, by rfl, by rfl, by rfl, fun h => ?_⟩
  have hkept : shelved? (((performAll {} savesOver).perform (.command "one" .commit)).2.rows 0)
      (.ofOrdinal 1) = shelved? ((performAll {} savesOver).rows 0) (.ofOrdinal 1) :=
    (h.command rfl (r := 1) (by rfl)).rows (List.getElem?_eq_getElem hlt) (by rfl) (by decide)
  have hbefore : (shelved? ((performAll {} savesOver).rows 0) (.ofOrdinal 1)).isSome = true := by
    rfl
  rw [← hkept] at hbefore
  exact absurd hbefore (by decide)

end LiveRecords.Workspace
