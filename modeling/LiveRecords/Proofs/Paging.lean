import LiveRecords.Proofs.Turning
import LiveRecords.Proofs.Unrefused

/-!
# Paging over a table at rest

While nothing is written, a view is a function of how far down it was asked to
reach: its keys are the first ones of the selection, its count is the number of
rows it reaches down to, and it is at its end once it was asked for more rows
than there are.
-/

namespace LiveRecords

namespace Window

variable {f : Filter} {n reach count : Nat} {ids : List RecordId} {s : Schema} {l : Link}

/-- The window over a selection that was asked to reach down to a row. -/
def reached (f : Filter) (n : Nat) (ids : List RecordId) (reach : Nat) : Window where
  filter := f
  fetchSize := n
  keys := ids.take reach
  bottom := min reach ids.length
  atEnd := decide (ids.length < reach)

theorem reached_zero (f : Filter) (n : Nat) (ids : List RecordId) :
    reached f n ids 0 = { filter := f, fetchSize := n } := by
  simp [reached]

theorem cleared_reached : (reached f n ids reach).cleared = reached f n ids 0 := by
  simp [reached, cleared]

/-- Who is asked for what is there already, or for more once all is there, stays. -/
theorem reached_max (h : ids.length < reach ∨ count ≤ min reach ids.length) :
    reached f n ids (max reach count) = reached f n ids reach := by
  rcases h with h | h
  · have hall : ids.take (max reach count) = ids.take reach := by
      rw [List.take_of_length_le (by omega), List.take_of_length_le (by omega)]
    have hmin : min (max reach count) ids.length = min reach ids.length := by omega
    have hend : ids.length < max reach count ↔ ids.length < reach := by omega
    simp [reached, hall, hmin, hend]
  · have hmax : max reach count = reach := by omega
    rw [hmax]

/-- The page after the first keys makes them more. -/
theorem extend_reached (h : reach ≤ ids.length) (hc : reach < count) :
    (reached f n ids reach).extend count
        (ids.take reach ++ (ids.drop reach).take (count - reach)) =
      reached f n ids (max reach count) := by
  have hkeys : ids.take reach ++ (ids.drop reach).take (count - reach) = ids.take count := by
    rw [← List.take_add]
    congr 1
    omega
  have hmax : max reach count = count := by omega
  rw [hkeys, hmax]
  simp only [reached, extend, List.length_take, mk.injEq, true_and]
  refine ⟨by omega, ?_⟩
  rw [decide_eq_decide]
  omega

/-- A window that is asked to reach down to a row does, or its page failed. -/
theorem prefetch_reached (n reach count : Nat) (h : Link.allKeys l.database s f = .ok ids)
    (hids : ids.length < Database.maxPage) :
    ((reached f n ids reach).prefetch s count l).1.2 = reached f n ids (max reach count) ∨
      ∃ e, ((reached f n ids reach).prefetch s count l).1.1 = .error e := by
  unfold prefetch
  split
  · next hstop =>
    have hstop' : ids.length < reach ∨ count ≤ min reach ids.length := by
      rw [Bool.or_eq_true, decide_eq_true_eq] at hstop
      simpa [reached] using hstop
    exact .inl (reached_max hstop').symm
  · next hgo =>
    have hgo' : ¬(ids.length < reach ∨ count ≤ min reach ids.length) := by
      rw [Bool.or_eq_true, decide_eq_true_eq] at hgo
      simpa [reached] using hgo
    have hlength : (reached f n ids reach).keys.length = reach := by
      simp only [reached, List.length_take]
      omega
    split
    · exact .inr ⟨_, rfl⟩
    · next keys l' hseek =>
      left
      obtain ⟨page, rfl, hpage⟩ := Workspace.seek_eq_ok (congrArg Prod.fst hseek)
      rw [hlength] at hpage
      obtain ⟨hle, -⟩ | hpage := hpage
      · omega
      · rw [Link.selectKeys_eq h hids hpage]
        exact extend_reached (by omega) (by omega)

/-- Where no statement is refused for a reason of its own, the page is read. -/
theorem prefetch_of_unrefused (n reach count : Nat) (h : Link.allKeys l.database s f = .ok ids)
    (hids : ids.length < Database.maxPage) (hl : l.outage l.stats.total = none) (e : StoreError) :
    ((reached f n ids reach).prefetch s count l).1.1 ≠ .error e := by
  unfold prefetch seek
  split
  · simp
  · have hpage := Link.selectKeys_of_unrefused h hids hl (reached f n ids reach).keys.length
      (count - (reached f n ids reach).keys.length)
    split
    · next hseek =>
      split at hseek
      · cases hseek
      · split at hseek
        · cases hseek
        · next hq =>
          have hfilter : (reached f n ids reach).filter = f := rfl
          rw [hfilter] at hq
          rw [hq] at hpage
          cases hpage
    · simp

end Window

namespace Workspace

/-! ## Looking at a view -/

/-- What a program asks of a view that it only looks at. -/
inductive Look where
  | prefetch (count : Nat)
  | fetchMore
  | record (row : Nat)
  | data (row : Nat) (role : Role)
  | reset
  deriving DecidableEq

/-- The view is asked; whether it failed. -/
def look (v : ViewRef) (w : Workspace) : Look → Except StoreError Unit × Workspace
  | .prefetch count => w.prefetch v count
  | .fetchMore => w.fetchMore v
  | .record row => ((fun _ => ()) <$> (w.recordAt v row).1, (w.recordAt v row).2)
  | .data row role => ((fun _ => ()) <$> (w.data v row role).1, (w.data v row role).2)
  | .reset => w.reset v

/-- The workspace after a program looked at a view. -/
def lookAll (v : ViewRef) (w : Workspace) (looks : List Look) : Workspace :=
  looks.foldl (fun w a => (w.look v a).2) w

/-- Whether pages are read. -/
def Look.pages : Look → Bool
  | .prefetch _ | .fetchMore | .reset => true
  | .record _ | .data .. => false

/-- Nothing is written to the database behind a connection while a program looks
at a view, and no page fails. -/
def Quiet (v : ViewRef) (c : ConnectionRef) : Workspace → List Look → Prop
  | _, [] => True
  | w, a :: looks =>
    (w.look v a).2.databaseOf c = w.databaseOf c ∧
      (a.pages = true → (w.look v a).1 = .ok ()) ∧ Quiet v c (w.look v a).2 looks

/-- Whether something succeeded with a result can be seen. -/
instance decidableOk {α : Type} [DecidableEq α] (r : Except StoreError α) (a : α) :
    Decidable (r = .ok a) :=
  match r with
  | .ok b => decidable_of_iff (b = a) (by simp)
  | .error _ => .isFalse (by simp)

instance decidableQuiet (v : ViewRef) (c : ConnectionRef) :
    ∀ (w : Workspace) (looks : List Look), Decidable (Quiet v c w looks)
  | _, [] => .isTrue trivial
  | w, a :: looks =>
    have := decidableQuiet v c (w.look v a).2 looks
    inferInstanceAs (Decidable (_ ∧ _ ∧ _))

/-- The rows down to which a view was asked to reach since it was opened or reset
for the last time, when those are the ones so far. -/
def targets (v : ViewRef) : Workspace → List Nat → List Look → List Nat
  | _, ts, [] => ts
  | w, ts, a :: looks =>
    let window := (w.views[v]?).map (·.window)
    let ts := match a with
      | .prefetch count => count :: ts
      | .fetchMore => (window.map (·.nextTarget)).toList ++ ts
      | .reset => (window.map (·.fetchSize)).toList
      | .record _ | .data .. => ts
    targets v (w.look v a).2 ts looks

/-- The keys that a view has read. -/
def confirmed (v : ViewRef) (w : Workspace) : List RecordId :=
  (w.views[v]?).elim [] (·.window.keys)

/-- How many rows a view shows. -/
def rowCount (v : ViewRef) (w : Workspace) : Nat := (w.views[v]?).elim 0 (·.window.bottom)

def isAtEnd (v : ViewRef) (w : Workspace) : Bool := (w.views[v]?).any (·.window.atEnd)

/-- Reads page after page until the end, at most so many. -/
def fetchAll (v : ViewRef) : Nat → Workspace → Except StoreError Unit × Workspace
  | 0, w => (.ok (), w)
  | n + 1, w =>
    if w.isAtEnd v then (.ok (), w)
    else
      match w.fetchMore v with
      | (.error e, w) => (.error e, w)
      | (.ok _, w) => fetchAll v n w

/-! ## One look -/

/-- What does not change while a program looks at a view, whatever it was asked
to reach down to. -/
structure Stands (v : ViewRef) (m : MapRef) (s : Schema) (c : ConnectionRef) (f : Filter) (n : Nat)
    (ids : List RecordId) (reach : Nat) (w : Workspace) : Prop where
  sound : w.core.Sound
  view : ∃ x, w.views[v]? = some x ∧ x.map = m ∧ x.window = .reached f n ids reach
  map : ∃ map, w.maps[m]? = some map ∧ map.schema = s ∧ map.connection = c
  keys : Link.allKeys (w.databaseOf c) s f = .ok ids

variable {w : Workspace} {v : ViewRef} {m : MapRef} {s : Schema} {c : ConnectionRef} {f : Filter}
  {n reach count : Nat} {ids : List RecordId}

theorem Stands.of_stays {w' : Workspace} (h : Stands v m s c f n ids reach w)
    (hs : w'.core.Sound) (hstays : w.core.Stays w'.core)
    (hd : w'.databaseOf c = w.databaseOf c) {reach' : Nat}
    (hview : ∃ x, w'.views[v]? = some x ∧ x.map = m ∧ x.window = .reached f n ids reach') :
    Stands v m s c f n ids reach' w' where
  sound := hs
  view := hview
  map := by
    obtain ⟨map, hmap, hschema, hconnection⟩ := h.map
    obtain ⟨map', hmap', hlike⟩ := Core.map_of_shape hstays.frame.shape hmap
    exact ⟨map', hmap', hlike.schema.trans hschema, hlike.connection.trans hconnection⟩
  keys := by rw [hd]; exact h.keys

/-- A view takes over the window that the statement left. -/
theorem prefetch_eq {x : View} {map : IdentityMap} (hx : w.views[v]? = some x)
    (hm : w.maps[x.map]? = some map) (count : Nat) :
    (w.prefetch v count).2.views[v]? = some { x with
        window := (x.window.prefetch map.schema count (w.link map.connection)).1.2 } ∧
      (w.prefetch v count).1 = (fun _ => ()) <$>
        (x.window.prefetch map.schema count (w.link map.connection)).1.1 ∧
      (w.prefetch v count).2.outage = w.outage := by
  have hwindow : w.prefetchWindow x.map count x.window =
      w.through map.connection (x.window.prefetch map.schema count) := by
    simp [prefetchWindow, hm]
  have hkeep := keeps_through w map.connection (x.window.prefetch map.schema count)
  have hset : ((w.through map.connection (x.window.prefetch map.schema count)).2.setView v
      fun view => { view with
        window := (x.window.prefetch map.schema count (w.link map.connection)).1.2 }).views[v]? =
      some { x with window := (x.window.prefetch map.schema count (w.link map.connection)).1.2 } := by
    simp [setView, hkeep.views, hx]
  have htold : ∀ (es : List ViewEvent) (u : Workspace),
      (es.foldl (announceView v) u).views = u.views ∧
        (es.foldl (announceView v) u).outage = u.outage := by
    intro es u
    have hstill := foldl_related .refl .trans _ (fun s e => still_announceView v s e) es u
    exact ⟨hstill.2.views, hstill.2.outage⟩
  unfold prefetch
  rw [hx]
  dsimp only
  rw [hwindow]
  split
  · next e hq =>
    have hresult : (x.window.prefetch map.schema count (w.link map.connection)).1.1 = .error e := hq
    exact ⟨hset, by rw [hresult]; rfl, hkeep.outage⟩
  · next es hq =>
    have hresult : (x.window.prefetch map.schema count (w.link map.connection)).1.1 = .ok es := hq
    refine ⟨?_, by rw [hresult]; rfl, (htold es _).2.trans hkeep.outage⟩
    rw [(htold es _).1]
    exact hset

/-- The view reaches down to where it was asked to, or the page failed. -/
theorem Stands.prefetch (h : Stands v m s c f n ids reach w) (hids : ids.length < Database.maxPage)
    (hok : (w.prefetch v count).1 = .ok ()) :
    Stands v m s c f n ids (max reach count) (w.prefetch v count).2 := by
  have hcore := (prefetch_idle v count w).1
  obtain ⟨x, hx, rfl, hwindow⟩ := h.view
  obtain ⟨map, hmap, rfl, rfl⟩ := h.map
  obtain ⟨hview, hresult, -⟩ := prefetch_eq hx hmap count
  have hd : (w.prefetch v count).2.databaseOf map.connection = w.databaseOf map.connection := by
    rw [← core_databaseOf, hcore, core_databaseOf]
  refine h.of_stays (hcore ▸ h.sound) (hcore ▸ .refl _) hd ⟨_, hview, rfl, ?_⟩
  rw [hwindow] at hresult ⊢
  have hkeys : Link.allKeys (w.link map.connection).database map.schema f = .ok ids := h.keys
  obtain hreached | ⟨e, he⟩ := Window.prefetch_reached n reach count hkeys hids
  · exact hreached
  · rw [hresult, he] at hok
    cases hok

theorem Stands.fetchMore (h : Stands v m s c f n ids reach w)
    (hids : ids.length < Database.maxPage) (hok : (w.fetchMore v).1 = .ok ()) :
    Stands v m s c f n ids (max reach (Window.reached f n ids reach).nextTarget)
      (w.fetchMore v).2 := by
  obtain ⟨x, hx, -, hwindow⟩ := h.view
  have heq : w.fetchMore v = w.prefetch v (Window.reached f n ids reach).nextTarget := by
    simp [Workspace.fetchMore, hx, hwindow]
  rw [heq] at hok ⊢
  exact h.prefetch hids hok

/-- A row that is looked at leaves the view where it is. -/
theorem Stands.looksAt {w' : Workspace} (h : Stands v m s c f n ids reach w)
    (hlasts : Lasts w w') (hstays : w.core.Stays w'.core) (hs : w'.core.Sound)
    (hd : w'.databaseOf c = w.databaseOf c) : Stands v m s c f n ids reach w' := by
  obtain ⟨x, hx, rfl, hwindow⟩ := h.view
  obtain ⟨y, hy, hmap, hsame⟩ := hlasts.windows hx
  exact h.of_stays hs hstays hd ⟨y, hy, hmap, hsame.trans hwindow⟩

theorem Stands.map_lt (h : Stands v m s c f n ids reach w) : m < w.maps.length := by
  obtain ⟨map, hmap, -⟩ := h.map
  exact (List.getElem?_eq_some_iff.mp hmap).1

/-- A view that is reset reads its first page again. -/
theorem Stands.reset (h : Stands v m s c f n ids reach w) (hids : ids.length < Database.maxPage)
    (hok : (w.reset v).1 = .ok ()) : Stands v m s c f n ids n (w.reset v).2 := by
  obtain ⟨x, hx, rfl, hwindow⟩ := h.view
  have hfetch : x.window.fetchSize = n := by rw [hwindow]; rfl
  generalize hw₁ : announceView v (w.setView v fun view => { view with
    window := view.window.cleared, rows := [], children := [] }) .reset = w₁
  have hstill := still_announceView v (w.setView v fun view => { view with
    window := view.window.cleared, rows := [], children := [] }) .reset
  rw [hw₁] at hstill
  have hcore : w₁.core = w.core := hstill.1
  have heq : w.reset v = w₁.prefetch v n := by
    simp only [Workspace.reset, hx, hw₁, hfetch]
  have hcleared : Stands v x.map s c f n ids 0 w₁ := by
    refine h.of_stays (hcore ▸ h.sound) (hcore ▸ .refl _)
      (by rw [← core_databaseOf, hcore, core_databaseOf])
      ⟨{ x with window := x.window.cleared, rows := [], children := [] }, ?_, rfl, ?_⟩
    · rw [hstill.2.views]
      simp [setView, hx]
    · rw [hwindow]
      exact Window.cleared_reached
  rw [heq] at hok ⊢
  have hstands := hcleared.prefetch hids hok
  rwa [Nat.zero_max] at hstands

/-! ## All looks -/

/-- The lowest of some rows. -/
def Lowest (ts : List Nat) (reach : Nat) : Prop := ∀ k, k < reach ↔ ∃ t ∈ ts, k < t

theorem lowest_cons {ts : List Nat} (h : Lowest ts reach) (t : Nat) :
    Lowest (t :: ts) (max reach t) := by
  intro k
  simp only [List.mem_cons, exists_eq_or_imp, ← h k]
  omega

theorem lowest_singleton (t : Nat) : Lowest [t] t := by
  simp [Lowest]

/-- A view reaches down to the lowest of the rows that it was asked for. -/
theorem Stands.lookAll (h : Stands v m s c f n ids reach w) (hids : ids.length < Database.maxPage)
    {ts : List Nat} (hts : Lowest ts reach) {looks : List Look} (hq : Quiet v c w looks) :
    ∃ reach', Stands v m s c f n ids reach' (w.lookAll v looks) ∧
      Lowest (targets v w ts looks) reach' := by
  induction looks generalizing w reach ts with
  | nil => exact ⟨reach, h, hts⟩
  | cons a looks ih =>
    obtain ⟨hd, hok, hrest⟩ := hq
    obtain ⟨x, hx, rfl, hwindow⟩ := id h.view
    cases a with
    | prefetch count => exact ih (h.prefetch hids (hok rfl)) (lowest_cons hts count) hrest
    | fetchMore =>
      have hnext := ih (h.fetchMore hids (hok rfl)) (lowest_cons hts _) hrest
      simpa [Workspace.lookAll, look, targets, hx, hwindow] using hnext
    | record row =>
      obtain ⟨hlasts, hstays, hs⟩ := recordAt_lasts h.sound hx h.map_lt row
      exact ih (h.looksAt hlasts hstays hs hd) hts hrest
    | data row role =>
      obtain ⟨hlasts, hstays, hs⟩ := data_lasts h.sound hx h.map_lt row role
      exact ih (h.looksAt hlasts hstays hs hd) hts hrest
    | reset =>
      have hnext := ih (h.reset hids (hok rfl)) (lowest_singleton n) hrest
      have hfetch : x.window.fetchSize = n := by rw [hwindow]; rfl
      simpa [Workspace.lookAll, look, targets, hx, hfetch] using hnext

/-! ## What is seen -/

theorem setLink_self (w : Workspace) (c : ConnectionRef) : w.setLink c (w.link c) = w := by
  unfold setLink
  split
  · rfl
  · next k hk =>
    have hconnections : w.connections.set c { k with stats := w.statsOf c } = w.connections := by
      apply List.ext_getElem?
      intro i
      by_cases hi : c = i
      · subst hi
        simp [List.getElem?_set_self (List.getElem?_eq_some_iff.mp hk).1, statsOf, hk]
      · rw [List.getElem?_set_ne hi]
    have hdatabases : w.databases.set k.database (w.databaseOf c) = w.databases := by
      apply List.ext_getElem?
      intro i
      by_cases hi : k.database = i
      · subst hi
        by_cases hlt : k.database < w.databases.length
        · simp [databaseOf, hk, List.getElem?_eq_getElem hlt]
        · rw [List.set_eq_of_length_le (Nat.le_of_not_lt hlt)]
      · rw [List.getElem?_set_ne hi]
    simp only [link, hconnections, hdatabases]

/-- A view that is there already, or at its end, runs no statement and says nothing. -/
theorem prefetch_idle_eq {x : View} {map : IdentityMap} (hx : w.views[v]? = some x)
    (hm : w.maps[x.map]? = some map) (h : x.window.atEnd = true ∨ count ≤ x.window.bottom) :
    w.prefetch v count = (.ok (), w) := by
  have hwindow : x.window.prefetch map.schema count (w.link map.connection) =
      ((.ok [], x.window), w.link map.connection) := by
    rcases h with h | h
    · exact Window.prefetch_atEnd h _ _ _
    · exact Window.prefetch_of_le h _ _
  have hviews : (w.setView v fun view => { view with window := x.window }) = w := by
    have hsame : w.views.modify v (fun view => { view with window := x.window }) = w.views := by
      apply List.ext_getElem?
      intro i
      rw [List.getElem?_modify]
      by_cases hi : v = i
      · subst hi
        simp [hx]
      · simp [hi]
    simp [setView, hsame]
  simp [prefetch, hx, prefetchWindow, hm, through, hwindow, setLink_self, hviews]

theorem Stands.prefetch_idle (h : Stands v m s c f n ids reach w)
    (hidle : ids.length < reach ∨ count ≤ min reach ids.length) :
    w.prefetch v count = (.ok (), w) := by
  obtain ⟨x, hx, rfl, hwindow⟩ := h.view
  obtain ⟨map, hmap, -⟩ := h.map
  apply prefetch_idle_eq hx hmap
  rw [hwindow]
  simpa [Window.reached] using hidle

theorem Stands.rowCount (h : Stands v m s c f n ids reach w) :
    w.rowCount v = min reach ids.length := by
  obtain ⟨x, hx, -, hwindow⟩ := h.view
  simp [Workspace.rowCount, hx, hwindow, Window.reached]

theorem Stands.isAtEnd (h : Stands v m s c f n ids reach w) :
    w.isAtEnd v = decide (ids.length < reach) := by
  obtain ⟨x, hx, -, hwindow⟩ := h.view
  simp [Workspace.isAtEnd, hx, hwindow, Window.reached]

theorem Stands.confirmed (h : Stands v m s c f n ids reach w) :
    w.confirmed v = ids.take reach := by
  obtain ⟨x, hx, -, hwindow⟩ := h.view
  simp [Workspace.confirmed, hx, hwindow, Window.reached]

/-- Where no statement is refused, a page is read, and no later one is refused either. -/
theorem Stands.prefetch_ok (h : Stands v m s c f n ids reach w)
    (hids : ids.length < Database.maxPage) (ho : ∀ k, w.outage c k = none) :
    (w.prefetch v count).1 = .ok () ∧ (w.prefetch v count).2.outage = w.outage := by
  obtain ⟨x, hx, rfl, hwindow⟩ := h.view
  obtain ⟨map, hmap, rfl, rfl⟩ := h.map
  obtain ⟨-, hresult, hout⟩ := prefetch_eq hx hmap count
  refine ⟨?_, hout⟩
  rw [hresult, hwindow]
  have hkeys : Link.allKeys (w.link map.connection).database map.schema f = .ok ids := h.keys
  have hgoes := Window.prefetch_of_unrefused n reach count hkeys hids (ho _)
  cases hp : ((Window.reached f n ids reach).prefetch map.schema count
      (w.link map.connection)).1.1 with
  | ok es => rfl
  | error e => exact absurd hp (hgoes e)

theorem Stands.fetchMore_eq (h : Stands v m s c f n ids reach w) :
    w.fetchMore v = w.prefetch v (Window.reached f n ids reach).nextTarget := by
  obtain ⟨x, hx, -, hwindow⟩ := h.view
  simp [Workspace.fetchMore, hx, hwindow]

/-- Page after page leads to the end: every page reaches further down. -/
theorem Stands.fetchAll (h : Stands v m s c f n ids reach w) (hids : ids.length < Database.maxPage)
    (hn : 0 < n) {rounds : Nat} (hrounds : ids.length < reach + rounds)
    (hok : (w.fetchAll v rounds).1 = .ok ()) :
    (w.fetchAll v rounds).2.isAtEnd v = true ∧
      (w.fetchAll v rounds).2.rowCount v = ids.length := by
  induction rounds generalizing w reach with
  | zero =>
    have hend : ids.length < reach := by omega
    exact ⟨by simpa [Workspace.fetchAll, h.isAtEnd] using hend,
      by simp only [Workspace.fetchAll, h.rowCount]; omega⟩
  | succ rounds ih =>
    unfold Workspace.fetchAll at hok ⊢
    rw [h.isAtEnd] at hok ⊢
    by_cases hend : ids.length < reach
    · simp only [hend, decide_true, if_true]
      exact ⟨by simpa [h.isAtEnd] using hend, by rw [h.rowCount]; omega⟩
    · simp only [hend, decide_false, Bool.false_eq_true, if_false] at hok ⊢
      have hmore := h.fetchMore hids
      generalize w.fetchMore v = p at hok hmore ⊢
      obtain ⟨result, w'⟩ := p
      cases result with
      | error e => cases hok
      | ok u =>
        refine ih (hmore rfl) ?_ hok
        have hlarge : Database.maxPage < Window.maxCount := by decide
        have hnext : (Window.reached f n ids reach).nextTarget =
            min (min reach ids.length + n) Window.maxCount := rfl
        omega

/-- Where no statement is refused, no page fails on the way to the end. -/
theorem Stands.fetchAll_ok (h : Stands v m s c f n ids reach w)
    (hids : ids.length < Database.maxPage) (ho : ∀ k, w.outage c k = none) (rounds : Nat) :
    (w.fetchAll v rounds).1 = .ok () := by
  induction rounds generalizing w reach with
  | zero => rfl
  | succ rounds ih =>
    unfold Workspace.fetchAll
    split
    · rfl
    · obtain ⟨hok, hout⟩ := h.prefetch_ok hids ho
      rw [← h.fetchMore_eq] at hok hout
      have hmore := h.fetchMore hids hok
      generalize w.fetchMore v = p at hok hout hmore
      obtain ⟨result, w'⟩ := p
      cases hok
      exact ih hmore fun k => by rw [hout]; exact ho k

/-! ## Exactness -/

/-- A view shows the first rows of a selection, as far down as it was asked to reach. -/
structure Exact (v : ViewRef) (c : ConnectionRef) (ids : List RecordId) (ts : List Nat)
    (w : Workspace) : Prop where
  keys : w.confirmed v = ids.take (w.rowCount v)
  within : w.rowCount v ≤ ids.length
  /-- The view is at its end once it was asked for more rows than there are. -/
  atEnd : w.isAtEnd v = true ↔ ∃ t ∈ ts, ids.length < t
  reaches : ∀ count, (w.prefetch v count).1 = .ok () →
    (w.prefetch v count).2.rowCount v = max (w.rowCount v) (min count ids.length)
  /-- For rows that are there, or at the end, nothing happens. -/
  idle : ∀ count, count ≤ w.rowCount v ∨ w.isAtEnd v = true → w.prefetch v count = (.ok (), w)
  /-- Reading page after page ends, with all rows. -/
  ends : ∀ rounds, ids.length < rounds → (w.fetchAll v rounds).1 = .ok () →
    (w.fetchAll v rounds).2.isAtEnd v = true ∧ (w.fetchAll v rounds).2.rowCount v = ids.length
  /-- It ends without an error where no statement is refused. -/
  unrefused : (∀ k, w.outage c k = none) → ∀ rounds, (w.fetchAll v rounds).1 = .ok ()

theorem Stands.exact (h : Stands v m s c f n ids reach w) (hids : ids.length < Database.maxPage)
    (hn : 0 < n) {ts : List Nat} (hts : Lowest ts reach) : Exact v c ids ts w where
  keys := by
    rw [h.confirmed, h.rowCount]
    by_cases hlt : reach ≤ ids.length
    · rw [Nat.min_eq_left hlt]
    · rw [Nat.min_eq_right (by omega), List.take_length, List.take_of_length_le (by omega)]
  within := by rw [h.rowCount]; omega
  atEnd := by rw [h.isAtEnd, decide_eq_true_eq, hts]
  reaches count hok := by rw [(h.prefetch hids hok).rowCount, h.rowCount]; omega
  idle count hidle := by
    rw [h.rowCount, h.isAtEnd, decide_eq_true_eq] at hidle
    exact h.prefetch_idle hidle.symm
  ends rounds hrounds hok := h.fetchAll hids hn (by omega) hok
  unrefused ho rounds := h.fetchAll_ok hids ho rounds

/-- A view that was opened reaches down to the last row of its first page. -/
theorem addView_stands {map : IdentityMap} (hs : w.core.Sound) (hm : w.maps[m]? = some map)
    (hids : ids.length < Database.maxPage)
    (hkeys : Link.allKeys (w.databaseOf map.connection) map.schema f = .ok ids)
    {parent : Option RecordId} {w' : Workspace} (h : w.addView m f parent n = (.ok v, w')) :
    0 < n ∧ Stands v m map.schema map.connection f n ids n w' := by
  have hcore : w'.core = w.core := by
    have hadd := addView_core m f parent n w
    rwa [h] at hadd
  have hmaps : w'.maps = w.maps := congrArg Core.maps hcore
  unfold addView at h
  split at h
  · cases h
  next hn =>
  have hwindow : w.prefetchWindow m n { filter := f, fetchSize := n } =
      w.through map.connection (Window.prefetch map.schema n (.reached f n ids 0)) := by
    simp [prefetchWindow, hm, Window.reached_zero]
  rw [hwindow] at h
  have hkeys' : Link.allKeys (w.link map.connection).database map.schema f = .ok ids := hkeys
  have hreached := Window.prefetch_reached n 0 n hkeys' hids
  rw [Nat.zero_max] at hreached
  simp only [through] at h
  generalize Window.prefetch map.schema n (.reached f n ids 0) (w.link map.connection) = p
    at h hreached
  obtain ⟨⟨result, window⟩, l⟩ := p
  generalize w.setLink map.connection l = w₁ at h
  obtain rfl | ⟨e, rfl⟩ := hreached
  · split at h
    · cases h
    · cases h
      refine ⟨by omega, hcore ▸ hs, ⟨_, List.getElem?_concat_length, rfl, rfl⟩,
        ⟨map, by rw [hmaps]; exact hm, rfl, rfl⟩, ?_⟩
      rw [← core_databaseOf, hcore, core_databaseOf]
      exact hkeys
  · cases h

/-- A view over rows to which nothing is written is exact, whatever it is asked.
Rows come in the order of their numbers where no column is called like them. -/
theorem exact_of_looks {w₀ : Workspace} (hb : Boots w₀) {actions : List Action}
    (h : (∀ a ∈ actions, a.sharesHub = false) ∨ ∀ a ∈ actions, a.steps = false) {map : IdentityMap}
    (hm : (w₀.performAll actions).maps[m]? = some map) {parent : Option RecordId}
    (hv : (w₀.performAll actions).addView m f parent n = (.ok v, w)) {l : Link}
    (hl : l.database = (w₀.performAll actions).databaseOf map.connection)
    {images : List RowImage} (hall : (l.selectWhere map.schema f).1 = .ok images)
    (hlength : images.length < Database.maxPage) (hf : f.isBrief = true)
    (hnumber : ∀ t, l.database.table? map.schema.table = some t → t.meansNumber "rowid" = true)
    {looks : List Look} (hq : Quiet v map.connection w looks) :
    Exact v map.connection (images.map (·.id)) (targets v w [n] looks) (w.lookAll v looks) := by
  have hkeys := Link.allKeys_of_selectWhere hall hf hnumber
  have hids : (images.map (·.id)).length < Database.maxPage := by rwa [List.length_map]
  rw [hl] at hkeys
  obtain ⟨hn, hstands⟩ := addView_stands (hb.good h).1 hm hids hkeys hv
  obtain ⟨reach, hreach, hlowest⟩ := hstands.lookAll hids (lowest_singleton n) hq
  exact hreach.exact hids hn hlowest

/-- A program that saves three notes. -/
def savesThree : List Action :=
  [.openStore "store" .inMemory,
    .registerType "store" { table := "NOTES", fields := [⟨"TITLE", .text, true⟩] } "notes",
    .newRecord "notes" (.ofOrdinal 3) (some "c"), .command "c" .commit,
    .newRecord "notes" (.ofOrdinal 1) (some "a"), .command "a" .commit,
    .newRecord "notes" (.ofOrdinal 2) (some "b"), .command "b" .commit]

/-- A look at every kind of thing that a view shows. -/
def looksAround : List Look :=
  [.data 0 (.field "TITLE"), .fetchMore, .record 2, .prefetch 2, .reset, .prefetch 7]

/-- The notes come in the order in which they were saved. -/
theorem exact_savesThree :
    ∃ map w, (performAll {} savesThree).maps[0]? = some map ∧
      (performAll {} savesThree).addView 0 {} none 2 = (.ok 0, w) ∧
      Quiet 0 map.connection w looksAround ∧ targets 0 w [2] looksAround = [7, 2] ∧
      (w.lookAll 0 looksAround).confirmed 0 = [.ofOrdinal 3, .ofOrdinal 1, .ofOrdinal 2] ∧
      Exact 0 map.connection [.ofOrdinal 3, .ofOrdinal 1, .ofOrdinal 2] (targets 0 w [2] looksAround)
        (w.lookAll 0 looksAround) := by
  have hm : (performAll {} savesThree).maps[0]? =
      some ((performAll {} savesThree).maps.get ⟨0, by decide +kernel⟩) :=
    List.getElem?_eq_getElem _
  have hv : ((performAll {} savesThree).addView 0 {} none 2).1 = .ok 0 := by decide +kernel
  have hall : (((performAll {} savesThree).link 0).selectWhere
      ((performAll {} savesThree).maps.get ⟨0, by decide +kernel⟩).schema {}).1 =
        .ok [⟨.ofOrdinal 3, none, [.text ""]⟩, ⟨.ofOrdinal 1, none, [.text ""]⟩,
          ⟨.ofOrdinal 2, none, [.text ""]⟩] := by
    decide +kernel
  have hq : Quiet 0 0 ((performAll {} savesThree).addView 0 {} none 2).2 looksAround := by
    decide +kernel
  exact ⟨_, _, hm, Prod.ext hv rfl, hq, by decide +kernel, by decide +kernel,
    exact_of_looks boots_empty (.inl (by decide)) hm (Prod.ext hv rfl) rfl hall (by decide)
      (by decide) (Option.all_eq_true _ _ |>.mp (by decide +kernel)) hq⟩

/-- A record type with a column called like row numbers, and with so many columns
that its table is rather read by way of its key. -/
def wide : Schema where
  table := "T"
  fields := ⟨"ROWID", .text, false⟩ :: (List.range 90).map fun i =>
    ⟨String.ofList ['F', Char.ofNat (0x41 + i / 10), Char.ofNat (0x30 + i % 10)], .text, false⟩
  parentColumn := none

/-- A row without values. -/
def wideRow (n : Nat) : RowImage := ⟨.ofOrdinal n, none, wide.fields.map fun _ => .null⟩

/-- A workspace over three rows of that table. -/
def overWide : Workspace where
  databases := [{ tables := [tableOf wide [⟨1, wideRow 3⟩, ⟨2, wideRow 1⟩, ⟨3, wideRow 2⟩]] }]
  connections := [{ database := 0 }]
  hubs := [{}]
  maps := [{ schema := wide, connection := 0, hub := 0 }]

/-- All rows, by several conditions each of which can be looked up. -/
def anyKey : Filter := .any (List.replicate 3 (.compare "ID" .greaterThan (.blob [0])))

/-- Rows whose row numbers cannot be told from each other come in one order with
all their columns, and in another one where only their keys are asked for. -/
theorem pagesDiffer :
    ((overWide.link 0).selectWhere wide anyKey).1 = .ok ([3, 1, 2].map wideRow) ∧
      (overWide.addView 0 anyKey none 1).1 = .ok 0 ∧
      (overWide.addView 0 anyKey none 1).2.rowCount 0 = 1 ∧
      (overWide.addView 0 anyKey none 1).2.confirmed 0 = [.ofOrdinal 1] := by
  decide +kernel

end Workspace

end LiveRecords
