import LiveRecords.Proofs.Paging
import LiveRecords.Proofs.Tending
import LiveRecords.Proofs.Watching

/-!
# Paging while rows are written

A page is read by its place among the rows that a filter selects at that moment.
As long as no row changes sides between what a view has read and what it has
not, however rows come, go and change otherwise, the view shows no row twice,
and at its end it has every row that was selected all along.
-/

namespace LiveRecords

/-! ## Selected rows -/

namespace Database

/-- The keys of the rows in which a filter is true, in the order of their numbers. -/
def selected (d : Database) (s : Schema) (f : Filter) : List RecordId :=
  match Link.clauseFor s f, d.table? s.table with
  | .ok k, some t => (t.selection k).filterMap fun r => (RowImage.idOfRow s t r).toOption
  | _, _ => []

variable {d : Database} {s : Schema} {f : Filter} {es : List Shelved} {k : Clause}

theorem Holds.idOfRow (h : d.Holds s es) (hp : s.Proper) {e : Shelved} (he : e ∈ es) :
    RowImage.idOfRow s (tableOf s es) (e.row s) = .ok e.image.id :=
  RowImage.idOfRow_of_ofRow
    (ofRow_row hp (h.shelf.named (List.ne_nil_of_mem he)) (h.shelf.fits e he))

/-- Every row that is selected has a key. -/
theorem Holds.map_idOfRow (h : d.Holds s es) (hp : s.Proper) {rows : List Table.Row}
    (hrows : ∀ r ∈ rows, r ∈ (tableOf s es).rows) :
    rows.map (RowImage.idOfRow s (tableOf s es)) =
      (rows.filterMap fun r => (RowImage.idOfRow s (tableOf s es) r).toOption).map .ok := by
  induction rows with
  | nil => rfl
  | cons r rows ih =>
    have hrest := ih fun q hq => hrows q (List.mem_cons_of_mem r hq)
    obtain ⟨e, he, rfl⟩ := List.mem_map.mp (hrows r List.mem_cons_self)
    simp [h.idOfRow hp he, Except.toOption, hrest]

theorem Holds.selected_eq (h : d.Holds s es) (hk : Link.clauseFor s f = .ok k) :
    d.selected s f = ((tableOf s es).selection k).filterMap fun r =>
      (RowImage.idOfRow s (tableOf s es) r).toOption := by
  simp [selected, hk, h.table]

/-- No row is selected twice. -/
theorem Holds.selected_nodup (h : d.Holds s es) (hp : s.Proper) : (d.selected s f).Nodup := by
  cases hk : Link.clauseFor s f with
  | error e => simp [selected, hk]
  | ok k =>
    have hall : ((tableOf s es).rows.filterMap fun r =>
        (RowImage.idOfRow s (tableOf s es) r).toOption) = es.map (·.image.id) := by
      have hmap := h.map_idOfRow hp fun r (hr : r ∈ (tableOf s es).rows) => hr
      have hids : (tableOf s es).rows.map (RowImage.idOfRow s (tableOf s es)) =
          (es.map (·.image.id)).map .ok := by
        simp only [tableOf, List.map_map]
        exact List.map_congr_left fun e he => h.idOfRow hp he
      rw [hids] at hmap
      exact ((List.map_inj_right fun _ _ => Except.ok.inj).mp hmap).symm
    rw [h.selected_eq hk]
    have hsub : List.Sublist ((tableOf s es).selection k) (tableOf s es).rows :=
      List.filter_sublist
    exact (hall ▸ h.shelf.ids).sublist (hsub.filterMap _)

/-- A page of keys is a stretch of the keys that are selected. -/
theorem Holds.selectKeys_eq {l : Link} (h : l.database.Holds s es) (hp : s.Proper)
    (hu : s.Unnumbered) (hf : f.isBrief = true)
    (hfew : (l.database.selected s f).length < Database.maxPage) {offset limit : Nat}
    {page : List RecordId} (hpage : (l.selectKeys s f offset limit).1 = .ok page) :
    page = ((l.database.selected s f).drop offset).take limit := by
  refine Link.selectKeys_eq ?_ hfew hpage
  unfold Link.selectKeys at hpage
  split at hpage
  · cases hpage
  next k hk =>
  have hread := Link.read_of_query hpage
  unfold Link.read at hread
  split at hread
  · cases hread
  next t rows stop hquery =>
  have hasks := Database.asks_of_query hquery
  have htable : some (tableOf s es) = some t := h.table.symm.trans hasks.table
  cases htable
  have hids := h.map_idOfRow hp fun r (hr : r ∈ (tableOf s es).selection k) =>
    (List.mem_filter.mp hr).1
  rw [h.selected_eq hk] at hfew ⊢
  have hlength := congrArg List.length hids
  simp only [List.length_map] at hlength
  refine Link.allKeys_eq_ok.mpr ⟨k, tableOf s es, (tableOf s es).selection k, hk,
    hasks.keys_again _ _, ?_, hids⟩
  rw [Table.page_eq (meansNumber_rowid hu) (Link.refusesNone_of_clauseFor hk hf), List.drop_zero,
    List.take_of_length_le (by omega)]

end Database

/-! ## One page -/

/-- What a view has read and what it reads next are apart: no row that it has
read comes after those that it skips, and it has read all of these. -/
structure Apart (keys selected : List RecordId) : Prop where
  fresh : ∀ id ∈ keys, id ∉ selected.drop keys.length
  known : ∀ id ∈ selected.take keys.length, id ∈ keys

instance (keys selected : List RecordId) : Decidable (Apart keys selected) :=
  decidable_of_iff ((∀ id ∈ keys, id ∉ selected.drop keys.length) ∧
    ∀ id ∈ selected.take keys.length, id ∈ keys) ⟨fun h => ⟨h.1, h.2⟩, fun h => ⟨h.1, h.2⟩⟩

theorem apart_nil (selected : List RecordId) : Apart [] selected :=
  ⟨by simp, by simp⟩

/-- A window shows no row twice, and at its end none is missing of those that
were selected all along. -/
structure Window.Exhausts (x : Window) (lasting : RecordId → Prop) : Prop where
  nodup : x.keys.Nodup
  all : x.atEnd = true → ∀ id, lasting id → id ∈ x.keys

theorem Core.Turns.filter_eq {k : Core} {m : MapRef} {x y : Window} (h : k.Turns m x y) :
    y.filter = x.filter := by
  cases h <;> rfl

/-- A page keeps a window whole, if it is apart from what was read. -/
theorem Core.Turns.exhausts {k : Core} {m : MapRef} {x y : Window} {selected : List RecordId}
    {lasting : RecordId → Prop} (h : k.Turns m x y)
    (hread : ∀ {map : IdentityMap} {l : Link} {offset limit page}, k.maps[m]? = some map →
      l.database = k.databaseOf map.connection →
      (l.selectKeys map.schema x.filter offset limit).1 = .ok page →
      page = (selected.drop offset).take limit)
    (hn : selected.Nodup) (hlasting : ∀ id, lasting id → id ∈ selected)
    (hapart : Apart x.keys selected) (hx : x.Exhausts lasting) : y.Exhausts lasting := by
  cases h with
  | stay => exact hx
  | @page map count page hmap _ _ hpage =>
    obtain ⟨hle, rfl⟩ | ⟨l, hl, hpage⟩ := hpage
    · refine ⟨by simpa [Window.extend] using hx.nodup, fun hend => ?_⟩
      simp only [Window.extend, List.append_nil, decide_eq_true_eq] at hend
      omega
    · have hstretch := hread hmap hl hpage
      refine ⟨List.nodup_append.mpr ⟨hx.nodup, ?_, ?_⟩, fun hend id hid => ?_⟩
      · rw [hstretch]
        exact hn.sublist ((List.take_sublist _ _).trans (List.drop_sublist _ _))
      · rintro id hid _ hmem rfl
        rw [hstretch] at hmem
        exact hapart.fresh id hid (List.mem_of_mem_take hmem)
      · simp only [Window.extend, List.length_append, decide_eq_true_eq] at hend
        -- A page that is too short has all the rows that were left.
        have hshort : page = selected.drop x.keys.length := by
          rw [hstretch, List.length_take] at hend
          rw [hstretch, List.take_of_length_le (by omega)]
        have hmem := hlasting id hid
        rw [← List.take_append_drop x.keys.length selected, List.mem_append, ← hshort] at hmem
        exact List.mem_append.mpr (hmem.imp_left (hapart.known id))

/-! ## Runs -/

namespace Workspace

open LiveRecords.Core

variable {w u : Workspace} {o : Outlook} {m : MapRef} {s : Schema} {f : Filter} {v : ViewRef}
  {c : ConnectionRef} {d : DatabaseRef} {x : View} {a : Action} {lasting : RecordId → Prop}

/-- The rows of a type that a filter selects behind a connection. -/
def selected (w : Workspace) (c : ConnectionRef) (s : Schema) (f : Filter) : List RecordId :=
  (w.databaseOf c).selected s f

/-- The view that an action reads pages for where it is taken. -/
def Action.pages? (w : Workspace) (a : Action) : Option ViewRef :=
  a.paged?.bind fun name => w.viewNames.lookup name

def Action.isReset : Action → Bool
  | .reset _ => true
  | _ => false

/-- An action that reads pages for a view goes on from where the view is, and what
it reads is apart from what the view has read. -/
def Action.KeepsApart (c : ConnectionRef) (s : Schema) (f : Filter) (v : ViewRef) (w : Workspace)
    (a : Action) : Prop :=
  a.pages? w = some v →
    a.isReset = false ∧ Apart (w.confirmed v) ((w.perform a).2.selected c s f)

instance (c : ConnectionRef) (s : Schema) (f : Filter) (v : ViewRef) (w : Workspace)
    (a : Action) : Decidable (a.KeepsApart c s f v w) :=
  inferInstanceAs (Decidable (_ → _ ∧ _))

/-- A view of a filter that shows no row twice, and none too few at its end. -/
structure Shows (v : ViewRef) (m : MapRef) (f : Filter) (lasting : RecordId → Prop)
    (w : Workspace) : Prop where
  view : ∃ x, w.views[v]? = some x ∧ x.map = m ∧ x.window.filter = f ∧
    x.window.Exhausts lasting

/-- What pages of a record type give in a state that is tended. -/
theorem Tended.page_eq {unread : RecordRef → Prop} (h : Tended o unread w)
    (ht : o.Types w.core m s) (hf : f.isBrief = true)
    (hfew : (w.selected o.connection s f).length < Database.maxPage) {map : IdentityMap}
    (hm : w.core.maps[m]? = some map) {l : Link}
    (hl : l.database = w.core.databaseOf map.connection) {offset limit : Nat}
    {page : List RecordId} (hpage : (l.selectKeys map.schema f offset limit).1 = .ok page) :
    page = ((w.selected o.connection s f).drop offset).take limit := by
  obtain ⟨map', hm', hc, rfl⟩ := ht
  rw [hm] at hm'
  cases hm'
  have htypes : o.Types w.core m map.schema := ⟨map, hm, hc, rfl⟩
  have hdb : l.database = w.core.database o.database := by
    rw [hl, hc, core_databaseOf, h.databaseOf htypes]
  have hsame : w.databaseOf o.connection = l.database := by rw [h.databaseOf htypes, hdb]
  obtain ⟨es, hes, -⟩ := h.holds htypes
  rw [← hdb] at hes
  unfold selected at hfew ⊢
  rw [hsame] at hfew ⊢
  exact hes.selectKeys_eq (htypes.proper h.sound)
    (h.sole.unnumbered (htypes.ahead h.ahead)) hf hfew hpage

theorem Tended.selected_nodup {unread : RecordRef → Prop} (h : Tended o unread w)
    (ht : o.Types w.core m s) : (w.selected o.connection s f).Nodup := by
  obtain ⟨es, hes, -⟩ := h.holds ht
  unfold selected
  rw [h.databaseOf ht]
  exact hes.selected_nodup (ht.proper h.sound)

/-- A page keeps what a view shows, where it is apart from what was read. -/
theorem Tended.exhausts {unread : RecordRef → Prop} (h : Tended o unread w)
    (ht : o.Types w.core m s) {y z : Window} (hf : y.filter.isBrief = true)
    (hfew : (w.selected o.connection s y.filter).length < Database.maxPage)
    (hlasting : ∀ id, lasting id → id ∈ w.selected o.connection s y.filter)
    (hturns : w.core.Turns m y z) (hapart : Apart y.keys (w.selected o.connection s y.filter))
    (hy : y.Exhausts lasting) : z.Exhausts lasting :=
  hturns.exhausts (fun hm hl hpage => h.page_eq ht hf hfew hm hl hpage) (h.selected_nodup ht)
    hlasting hapart hy

/-- One action keeps what a view shows. -/
theorem Shows.perform {unread unread' : RecordRef → Prop} (h : Shows v m f lasting w)
    (hw : Tended o unread w) (ha : a.Suits True) (h' : Tended o unread' (w.perform a).2)
    (ht : o.Types (w.perform a).2.core m s) (hf : f.isBrief = true)
    (hfew : ((w.perform a).2.selected o.connection s f).length < Database.maxPage)
    (hlasting : ∀ id, lasting id → id ∈ (w.perform a).2.selected o.connection s f)
    (hkeeps : a.KeepsApart o.connection s f v w) : Shows v m f lasting (w.perform a).2 := by
  obtain ⟨x, hx, rfl, rfl, hexhausts⟩ := h.view
  obtain ⟨y, hy, hmap, hsame | ⟨name, hname, hlook, hturns⟩⟩ :=
    (perform_turns hw.sound hw.holding ha).windows hx
  · exact ⟨y, hy, hmap, by rw [hsame], hsame ▸ hexhausts⟩
  · have hkeys : w.confirmed v = x.window.keys := by simp [confirmed, hx]
    obtain ⟨hreset, hapart⟩ := hkeeps (by rw [Action.pages?, hname, Option.bind_some, hlook])
    rw [hkeys] at hapart
    have hstart : (a.start x.window).Exhausts lasting ∧ (a.start x.window).keys = x.window.keys ∧
        (a.start x.window).filter = x.window.filter := by
      cases a with
      | reset _ => cases hreset
      | commitStaging _ _ => exact ⟨⟨hexhausts.nodup, by simp [Action.start]⟩, rfl, rfl⟩
      | _ => exact ⟨hexhausts, rfl, rfl⟩
    obtain ⟨hstart, hstartKeys, hstartFilter⟩ := hstart
    have hall := h'.exhausts ht (hstartFilter ▸ hf) (hstartFilter ▸ hfew)
      (hstartFilter ▸ hlasting) hturns (by rw [hstartKeys, hstartFilter]; exact hapart) hstart
    exact ⟨y, hy, hmap, hturns.filter_eq.trans hstartFilter, hall⟩

/-- A whole run keeps what a view shows. -/
theorem Shows.performAll (h : Shows v m f lasting w) {actions : List Action}
    (htended : ∀ k, ∃ unread, Tended o unread (w.performAll (actions.take k)))
    (ht : ∀ k, o.Types (w.performAll (actions.take k)).core m s)
    (hsuits : Follows (fun _ a => a.Suits True) w actions) (hf : f.isBrief = true)
    (hfew : ∀ k, ((w.performAll (actions.take k)).selected o.connection s f).length <
      Database.maxPage)
    (hlasting : ∀ id, lasting id →
      ∀ k, id ∈ (w.performAll (actions.take k)).selected o.connection s f)
    (hkeeps : Follows (Action.KeepsApart o.connection s f v) w actions) :
    Shows v m f lasting (w.performAll actions) := by
  induction actions generalizing w with
  | nil => exact h
  | cons a actions ih =>
    obtain ⟨unread, hw⟩ := htended 0
    obtain ⟨unread', hw'⟩ := htended 1
    have hnext := h.perform hw hsuits.1 hw' (ht 1) hf (hfew 1)
      (fun id hid => hlasting id hid 1) hkeeps.1
    exact ih hnext (fun k => htended (k + 1)) (fun k => ht (k + 1))
      hsuits.2 (fun k => hfew (k + 1)) (fun id hid k => hlasting id hid (k + 1)) hkeeps.2

/-- A view that an action opened has read its first page. -/
theorem addView_opened {parent : Option RecordId} {n : Nat} (w : Workspace)
    (hx : (w.addView m f parent n).2.views[w.views.length]? = some x) :
    x.map = m ∧ w.core.Turns m { filter := f, fetchSize := n } x.window := by
  have hnone : ∀ {w' : Workspace}, w'.views = w.views → w'.views[w.views.length]? = none := by
    intro w' hviews
    rw [hviews]
    exact List.getElem?_eq_none (Nat.le_refl _)
  have hturns := prefetchWindow_turns m n { filter := f, fetchSize := n } w
  have hstill := still_prefetchWindow w m n { filter := f, fetchSize := n }
  unfold addView at hx
  split at hx
  · rw [hnone rfl] at hx
    cases hx
  · dsimp only at hx
    split at hx
    · rw [hnone hstill.2.views] at hx
      cases hx
    · rw [hstill.2.views, List.getElem?_concat_length] at hx
      cases hx
      exact ⟨rfl, hturns⟩

theorem openView_opened {view : String} {sel : Selection} {n : Nat} (w : Workspace)
    (hx : (w.openView view m sel n).2.views[w.views.length]? = some x) :
    x.map = m ∧ (w.openView view m sel n).2.core = w.core ∧
      ∃ f, w.core.Turns m { filter := f, fetchSize := n } x.window := by
  have hadded : ∀ {f : Filter} {parent : Option RecordId} {result : Except StoreError ViewRef}
      {w' : Workspace}, w.addView m f parent n = (result, w') →
      w'.views[w.views.length]? = some x →
      x.map = m ∧ w'.core = w.core ∧ ∃ f, w.core.Turns m { filter := f, fetchSize := n } x.window
      := by
    intro f parent result w' hq hx
    have hcore := addView_core m f parent n w
    have hview : (w.addView m f parent n).2.views[w.views.length]? = some x := by
      rw [hq]
      exact hx
    rw [hq] at hcore
    obtain ⟨hmap, hturns⟩ := addView_opened w hview
    exact ⟨hmap, hcore, f, hturns⟩
  unfold openView at hx ⊢
  cases sel with
  | filter f =>
    dsimp only at hx ⊢
    generalize hq : w.addView m f none n = p at hx ⊢
    obtain ⟨_ | v, w'⟩ := p
    · exact hadded hq hx
    · dsimp only at hx ⊢
      rw [holdView_core]
      exact hadded hq hx
  | below parent =>
    unfold addChildView at hx ⊢
    dsimp only at hx ⊢
    cases hcolumn : w.parentColumn m with
    | error e =>
      simp only [hcolumn] at hx
      rw [List.getElem?_eq_none (Nat.le_refl _)] at hx
      cases hx
    | ok column =>
      simp only [hcolumn] at hx ⊢
      generalize hq : w.addView m (childFilter column parent) (some parent) n = p at hx ⊢
      obtain ⟨_ | v, w'⟩ := p
      · exact hadded hq hx
      · dsimp only at hx ⊢
        rw [holdView_core]
        exact hadded hq hx

theorem perform_openView_opened {view map : String} {store : String} {sel : Selection}
    {size : Option Nat}
    (hx : (w.perform (.openView view map store sel size)).2.views[w.views.length]? = some x) :
    (w.perform (.openView view map store sel size)).2.core = w.core ∧
      ∃ f n, w.core.Turns x.map { filter := f, fetchSize := n } x.window := by
  have hnone : w.views[w.views.length]? = none := List.getElem?_eq_none (Nat.le_refl _)
  rw [perform] at hx ⊢
  unfold withMap at hx ⊢
  split at hx
  · next m hm =>
    have hopened : ∀ n, (w.openView view m sel n).2.views[w.views.length]? = some x →
        (w.openView view m sel n).2.core = w.core ∧
          ∃ f n, w.core.Turns x.map { filter := f, fetchSize := n } x.window := by
      intro n hx
      obtain ⟨rfl, hcore, f, hturns⟩ := openView_opened w hx
      exact ⟨hcore, f, n, hturns⟩
    cases size with
    | some n => exact hopened n hx
    | none =>
      dsimp only at hx ⊢
      unfold withStore at hx ⊢
      split at hx
      · exact hopened _ hx
      · cases hnone.symm.trans hx
  · cases hnone.symm.trans hx

instance decidableFollows {D : Workspace → Action → Prop} [∀ w a, Decidable (D w a)] :
    ∀ (w : Workspace) (actions : List Action), Decidable (Follows D w actions)
  | _, [] => .isTrue trivial
  | w, a :: actions =>
    have := decidableFollows (D := D) (w.perform a).2 actions
    inferInstanceAs (Decidable (_ ∧ _))

/-! ## From the first page on -/

/-- Every state that a private run went through is tended. -/
theorem tended_before (hb : Boots w) {before after : List Action}
    (ha : Follows (Action.Private d) w (before ++ after))
    (hc : (w.performAll (before ++ after)).SoleWriter c d)
    (hd : (w.performAll (before ++ after)).Prepared c (w.core.database d)) :
    Tended ((w.performAll (before ++ after)).outlook c d false) (Unread w before)
      (w.performAll before) := by
  obtain ⟨hbefore, hafter⟩ := follows_append.mp ha
  obtain ⟨hs, hw⟩ := hbefore.good (fun h => .of_sharesHub h.sharesHub) hb.sound hb.holding
  have hlast := performAll_precedes (fun h => .of_sharesHub h.sharesHub) hafter hs hw
  rw [performAll_append] at hc hd ⊢
  exact tended_within hb (hc.sole false) rfl hbefore (hb.faithful hd) hlast

/-- A view that is opened by the only writer of its database, and read while rows
are written, shows no row twice as long as what it reads is apart from what it has
read. At its end it has all rows that its filter selected in every state since it
was opened. -/
theorem pages_of_run (hb : Boots w) {before after : List Action} {view map store : String}
    {sel : Selection} {size : Option Nat}
    (hu : u = w.performAll (before ++ [.openView view map store sel size]))
    (ha : Follows (Action.Private d) w (before ++ .openView view map store sel size :: after))
    (hc : (u.performAll after).SoleWriter c d)
    (hd : (u.performAll after).Prepared c (w.core.database d))
    (hv : v = (w.performAll before).views.length) (hx : u.views[v]? = some x)
    (hm : (u.maps[x.map]?).map (fun map => (map.connection, map.schema)) = some (c, s))
    (hf : x.window.filter.isBrief = true)
    (hfew : ∀ k ≤ after.length,
      ((u.performAll (after.take k)).selected c s x.window.filter).length < Database.maxPage)
    (hkeeps : Follows (Action.KeepsApart c s x.window.filter v) u after) :
    ((u.performAll after).confirmed v).Nodup ∧
      ((u.performAll after).isAtEnd v = true → ∀ id,
        (∀ k ≤ after.length, id ∈ (u.performAll (after.take k)).selected c s x.window.filter) →
          id ∈ (u.performAll after).confirmed v) := by
  have hsplit : ∀ k, before ++ .openView view map store sel size :: after =
      (before ++ [.openView view map store sel size] ++ after.take k) ++ after.drop k := by simp
  have hend : w.performAll (before ++ .openView view map store sel size :: after) =
      u.performAll after := by
    rw [hu, ← performAll_append]
    simp
  generalize ho : (u.performAll after).outlook c d false = o
  have hconnection : o.connection = c := by rw [← ho]; rfl
  have htended : ∀ k, ∃ unread, Tended o unread (u.performAll (after.take k)) := by
    intro k
    have hstate := tended_before hb (hsplit k ▸ ha) (hsplit k ▸ hend ▸ hc) (hsplit k ▸ hend ▸ hd)
    rw [← hsplit k, hend, ho, performAll_append, ← hu] at hstate
    exact ⟨_, hstate⟩
  obtain ⟨unread, hfirst⟩ := htended 0
  have hafter : Follows (Action.Private d) u after := by
    rw [hsplit 0, List.take_zero, List.append_nil, List.drop_zero] at ha
    exact hu ▸ (follows_append.mp ha).2
  have htypes : o.Types u.core x.map s := by
    obtain ⟨map', hm', heq⟩ := Option.map_eq_some_iff.mp hm
    cases heq
    exact ⟨map', hm', hconnection.symm, rfl⟩
  have ht : ∀ k, o.Types (u.performAll (after.take k)).core x.map s := fun k =>
    htypes.ahead (performAll_precedes (fun h => .of_sharesHub h.sharesHub) (hafter.take k)
      hfirst.sound hfirst.holding)
  -- What is so in the states up to the last one is so however far one looks.
  have hup : ∀ P : Workspace → Prop, (∀ k ≤ after.length, P (u.performAll (after.take k))) →
      ∀ k, P (u.performAll (after.take k)) := by
    intro P h k
    rcases Nat.le_total k after.length with hk | hk
    · exact h k hk
    · rw [List.take_of_length_le hk, ← List.take_length (l := after)]
      exact h _ (Nat.le_refl _)
  subst hconnection
  have hfew' := hup (fun w => (w.selected o.connection s x.window.filter).length <
    Database.maxPage) hfew
  have hlasting := fun id => hup fun w => id ∈ w.selected o.connection s x.window.filter
  have hopened : Shows v x.map x.window.filter (fun id => ∀ k ≤ after.length,
      id ∈ (u.performAll (after.take k)).selected o.connection s x.window.filter) u := by
    have hrun : u = ((w.performAll before).perform (.openView view map store sel size)).2 := by
      rw [hu, performAll_append]
      rfl
    subst hv
    rw [hrun] at hx
    obtain ⟨hcore, f, n, hturns⟩ := perform_openView_opened hx
    rw [← hcore, ← hrun] at hturns
    have hfilter : x.window.filter = f := hturns.filter_eq
    refine ⟨x, hrun ▸ hx, rfl, rfl, ?_⟩
    refine hfirst.exhausts (ht 0) (hfilter ▸ hf) (hfilter ▸ hfew' 0) (fun id hid => ?_) hturns
      (apart_nil _) ⟨.nil, by simp⟩
    exact hfilter ▸ hlasting id hid 0
  have hall := hopened.performAll htended ht (hafter.mono fun h => .of_sharesHub h.sharesHub) hf
    hfew' hlasting hkeeps
  obtain ⟨y, hy, -, -, hexhausts⟩ := hall.view
  have hkeys : (u.performAll after).confirmed v = y.window.keys := by simp [confirmed, hy]
  have hatEnd : (u.performAll after).isAtEnd v = y.window.atEnd := by simp [isAtEnd, hy]
  rw [hkeys, hatEnd]
  exact ⟨hexhausts.nodup, hexhausts.all⟩

/-- A program that saves three notes and keeps them. -/
def keepsThree : List Action :=
  [.openStore "store" .inMemory,
    .registerType "store" { table := "NOTES", fields := [⟨"TITLE", .text, true⟩] } "notes",
    .newRecord "notes" (.ofOrdinal 1) (some "a"), .command "a" .commit,
    .newRecord "notes" (.ofOrdinal 2) (some "b"), .command "b" .commit,
    .newRecord "notes" (.ofOrdinal 3) (some "c"), .command "c" .commit]

/-- All notes, one at a time. -/
def listsAll : Action := .openView "list" "notes" "store" (.filter {}) (some 1)

/-- One note is saved and another one deleted, neither of which the view has come to. -/
def writesAhead : List Action :=
  [.fetchMore "list", .newRecord "notes" (.ofOrdinal 4) (some "d"), .command "d" .commit,
    .command "c" .stageDelete, .release "notes" "c", .fetchMore "list", .fetchMore "list"]

theorem pages_writesAhead :
    ((performAll {} (keepsThree ++ [listsAll])).performAll writesAhead).isAtEnd 0 = true ∧
      ((performAll {} (keepsThree ++ [listsAll])).performAll writesAhead).confirmed 0 =
        [1, 2, 4].map .ofOrdinal ∧
      (((performAll {} (keepsThree ++ [listsAll])).performAll writesAhead).confirmed 0).Nodup ∧
      (((performAll {} (keepsThree ++ [listsAll])).performAll writesAhead).isAtEnd 0 = true →
        ∀ id, (∀ k ≤ writesAhead.length,
          id ∈ ((performAll {} (keepsThree ++ [listsAll])).performAll
            (writesAhead.take k)).selected 0 notes {}) →
          id ∈ ((performAll {} (keepsThree ++ [listsAll])).performAll writesAhead).confirmed 0) := by
  have hx : (performAll {} (keepsThree ++ [listsAll])).views[0]? =
      some ((performAll {} (keepsThree ++ [listsAll])).views.get ⟨0, by decide +kernel⟩) :=
    List.getElem?_eq_getElem _
  have hfilter : ((performAll {} (keepsThree ++ [listsAll])).views.get
      ⟨0, by decide +kernel⟩).window.filter = {} := by
    decide +kernel
  have hkeeps : Follows (Action.KeepsApart 0 notes {} 0) (performAll {} (keepsThree ++ [listsAll]))
      writesAhead := by
    decide +kernel
  have ha : Follows (Action.Private 0) {} (keepsThree ++ listsAll :: writesAhead) :=
    ⟨⟨rfl, id⟩, ⟨rfl, id⟩, ⟨rfl, id⟩, ⟨rfl, id⟩, ⟨rfl, id⟩, ⟨rfl, id⟩, ⟨rfl, id⟩, ⟨rfl, id⟩,
      ⟨rfl, id⟩, ⟨rfl, id⟩, ⟨rfl, id⟩, ⟨rfl, id⟩, ⟨rfl, id⟩, ⟨rfl, id⟩, ⟨rfl, id⟩, ⟨rfl, id⟩, trivial⟩
  have hc : ((performAll {} (keepsThree ++ [listsAll])).performAll writesAhead).SoleWriter 0 0 :=
    soleWriter_of_single (n := ["TITLE"]) (by decide +kernel) (by decide +kernel) (by decide)
  have hall := pages_of_run boots_empty rfl ha hc (prepared_empty _ _) (by decide +kernel) hx
    (by decide +kernel) (by rw [hfilter]; decide) (by rw [hfilter]; decide +kernel)
    (hfilter ▸ hkeeps)
  rw [hfilter] at hall
  exact ⟨by decide +kernel, by decide +kernel, hall⟩

/-- A note that the view has come to is deleted. -/
def writesBehind : List Action :=
  [.command "a" .stageDelete, .release "notes" "a", .fetchMore "list", .fetchMore "list"]

/-- Two notes get a text, and a view of the notes with that text is opened. -/
def listsBread : List Action :=
  keepsThree ++ [.command "b" (.set "TITLE" (.text "bread")), .command "b" .commit,
    .command "c" (.set "TITLE" (.text "bread")), .command "c" .commit,
    .openView "list" "notes" "store" (.filter (.all [.equals "TITLE" (.text "bread")])) (some 1)]

/-- The note before them gets that text too. -/
def writesBread : List Action :=
  [.command "a" (.set "TITLE" (.text "bread")), .command "a" .commit, .fetchMore "list"]

/-- Where a note is deleted that the view has read, the one after those it has read
is missing at the end, though it was there all along. Where a note comes in before
those that the view has read, the last one of these is shown again. -/
theorem pagesMiss :
    Follows (Action.Private 0) {} (keepsThree ++ listsAll :: writesBehind) ∧
      ((performAll {} (keepsThree ++ [listsAll])).performAll writesBehind).SoleWriter 0 0 ∧
      ((performAll {} (keepsThree ++ [listsAll])).performAll writesBehind).Prepared 0 {} ∧
      ((performAll {} (keepsThree ++ [listsAll])).performAll writesBehind).isAtEnd 0 = true ∧
      (∀ k ≤ writesBehind.length, .ofOrdinal 2 ∈ ((performAll {} (keepsThree ++ [listsAll])).performAll
        (writesBehind.take k)).selected 0 notes {}) ∧
      .ofOrdinal 2 ∉
        ((performAll {} (keepsThree ++ [listsAll])).performAll writesBehind).confirmed 0 ∧
      Follows (Action.Private 0) {} (listsBread ++ writesBread) ∧
      (performAll {} (listsBread ++ writesBread)).SoleWriter 0 0 ∧
      (performAll {} (listsBread ++ writesBread)).confirmed 0 = [.ofOrdinal 2, .ofOrdinal 2] :=
  ⟨⟨⟨rfl, id⟩, ⟨rfl, id⟩, ⟨rfl, id⟩, ⟨rfl, id⟩, ⟨rfl, id⟩, ⟨rfl, id⟩, ⟨rfl, id⟩, ⟨rfl, id⟩,
      ⟨rfl, id⟩, ⟨rfl, id⟩, ⟨rfl, id⟩, ⟨rfl, id⟩, ⟨rfl, id⟩, trivial⟩,
    soleWriter_of_single (n := ["TITLE"]) (by decide +kernel) (by decide +kernel) (by decide),
    prepared_empty _ _, by decide +kernel, by decide +kernel, by decide +kernel,
    ⟨⟨rfl, id⟩, ⟨rfl, id⟩, ⟨rfl, id⟩, ⟨rfl, id⟩, ⟨rfl, id⟩, ⟨rfl, id⟩, ⟨rfl, id⟩, ⟨rfl, id⟩,
      ⟨rfl, id⟩, ⟨rfl, id⟩, ⟨rfl, id⟩, ⟨rfl, id⟩, ⟨rfl, id⟩, ⟨rfl, id⟩, ⟨rfl, id⟩, ⟨rfl, id⟩, trivial⟩,
    soleWriter_of_single (n := ["TITLE"]) (by decide +kernel) (by decide +kernel) (by decide),
    by decide +kernel⟩

end Workspace

end LiveRecords
