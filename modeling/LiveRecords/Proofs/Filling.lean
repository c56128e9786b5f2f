import LiveRecords.Proofs.Interleaving

/-!
# Windows show all that they have read

A page has no more keys than it was asked for. So a window that takes it in shows
exactly the keys that it has read: no key is kept back, and the next page starts right
below the last row in view. What a view selects, and how many rows it reads at a time,
never changes.
-/

namespace LiveRecords

namespace Table

variable {t : Table} {k : Clause} {limit offset : Nat}

theorem length_plannedPage_le (ks : List Plan.Conjunct) (columns : List Nat) :
    (t.plannedPage ks columns limit offset).1.length ≤ limit := by
  unfold plannedPage
  dsimp only
  split
  · exact length_scan_le t _ limit offset _
  · split
    · exact Nat.zero_le _
    · exact List.length_take_le limit _

theorem length_page_le (columns : List Nat) :
    (t.page k columns limit offset).1.length ≤ limit := by
  unfold page
  split
  · exact Nat.zero_le _
  · dsimp only
    split
    · exact Nat.zero_le _
    · exact Nat.zero_le _
    · split
      · exact length_scan_le t _ limit offset _
      · exact length_plannedPage_le _ columns

end Table

theorem Link.length_selectKeys_le {l : Link} {s : Schema} {f : Filter} {offset limit : Nat}
    {page : List RecordId} (h : (l.selectKeys s f offset limit).1 = .ok page) :
    page.length ≤ limit := by
  unfold selectKeys at h
  split at h
  · cases h
  next k _ =>
  have hread := read_of_query h
  unfold read at hread
  split at hread
  · cases hread
  next t rows stop hquery =>
  have hlength := congrArg List.length (decodeRows_eq_ok hread)
  rw [Database.query_keys (Database.asks_of_query hquery)] at hquery
  have hrows := congrArg Prod.fst (Prod.mk.inj (Except.ok.inj hquery)).2
  rw [List.length_map, List.length_map] at hlength
  rw [← hlength, ← show _ = rows from hrows]
  exact Nat.le_trans (Table.length_page_le _) (Nat.min_le_left limit _)

/-- A window shows all keys that it has read. -/
def Window.Filled (x : Window) : Prop := x.bottom = x.keys.length

/-- A page is shown as far as it goes. -/
theorem Core.Turns.filled {k : Core} {m : MapRef} {x y : Window} (h : k.Turns m x y)
    (hx : x.Filled) : y.Filled := by
  unfold Window.Filled at hx ⊢
  cases h with
  | stay => exact hx
  | @page map count page _ _ hlt hpage =>
    simp only [Window.extend, List.length_append]
    obtain ⟨hle, -⟩ | ⟨l, -, hread⟩ := hpage
    · omega
    · have hlength := Link.length_selectKeys_le hread
      omega

theorem Core.Turns.fetchSize_eq {k : Core} {m : MapRef} {x y : Window} (h : k.Turns m x y) :
    y.fetchSize = x.fetchSize := by
  cases h <;> rfl

namespace Workspace

variable {w : Workspace} {own : Prop} {v : ViewRef} {x : View}

/-- All windows show all keys that they have read. -/
def Filled (w : Workspace) : Prop := ∀ x ∈ w.views, x.window.Filled

/-! ## Runs -/

/-- A view selects what it selected, and reads as many rows at a time. -/
structure View.Resumes (x y : View) : Prop where
  map : y.map = x.map
  filter : y.window.filter = x.window.filter
  fetchSize : y.window.fetchSize = x.window.fetchSize

theorem Action.start_resumes (a : Action) (x : Window) :
    (a.start x).filter = x.filter ∧ (a.start x).fetchSize = x.fetchSize := by
  cases a <;> exact ⟨rfl, rfl⟩

/-- Along every run, views select the same and read as many rows at a time. -/
theorem Follows.resumes {actions : List Action} (ha : Follows (fun _ a => a.Suits own) w actions)
    (hs : w.core.Sound) (hw : Holding own w) (hx : w.views[v]? = some x) :
    ∃ y, (w.performAll actions).views[v]? = some y ∧ View.Resumes x y := by
  induction actions generalizing w x with
  | nil => exact ⟨x, hx, rfl, rfl, rfl⟩
  | cons a actions ih =>
    have hacts := perform_acts hs hw ha.1
    obtain ⟨y, hy, hmap, hwindow⟩ := (perform_turns hs hw ha.1).windows hx
    obtain ⟨z, hz, hresumes⟩ := ih ha.2 (hacts.sound hs) hacts.2 hy
    have hstep : View.Resumes x y := by
      obtain hsame | ⟨-, -, -, hturns⟩ := hwindow
      · exact ⟨hmap, by rw [hsame], by rw [hsame]⟩
      · obtain ⟨hfilter, hsize⟩ := a.start_resumes x.window
        exact ⟨hmap, hturns.filter_eq.trans hfilter, hturns.fetchSize_eq.trans hsize⟩
    exact ⟨z, hz, hresumes.map.trans hstep.map, hresumes.filter.trans hstep.filter,
      hresumes.fetchSize.trans hstep.fetchSize⟩

end Workspace

end LiveRecords
