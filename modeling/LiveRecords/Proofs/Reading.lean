import LiveRecords.Proofs.Executing

/-!
# Reading the rows of record types

Whatever plan leads to the selected rows, a page holds rows of the table and
none of them twice. So what a record type reads are images that are stored, and
no two of them have one key.
-/

namespace LiveRecords

open Table (Cell Refusal Row)
open Table.Plan (Conjunct Question Route)

namespace Table

variable {t : Table} {rows found : List Row}

/-- Rows of a table, none of them twice. -/
structure Picks (t : Table) (rows : List Row) : Prop where
  mem : ∀ r ∈ rows, r ∈ t.rows
  distinct : (rows.map (·.number)).Nodup

namespace Picks

theorem nil (t : Table) : t.Picks [] := ⟨by simp, by simp⟩

theorem sublist (h : t.Picks rows) (hs : found.Sublist rows) : t.Picks found where
  mem r hr := h.mem r (hs.subset hr)
  distinct := h.distinct.sublist (hs.map _)

theorem perm (h : t.Picks rows) (hp : found.Perm rows) : t.Picks found where
  mem r hr := h.mem r (hp.subset hr)
  distinct := (hp.map _).nodup_iff.mpr h.distinct

/-- Rows that others found come after them, without those that are there. -/
theorem append (h : t.Picks rows) (h' : t.Picks found) :
    t.Picks (rows ++ found.filter fun row => rows.all (·.number != row.number)) where
  mem := by
    intro r hr
    rcases List.mem_append.mp hr with hr | hr
    · exact h.mem r hr
    · exact h'.mem r (List.mem_filter.mp hr).1
  distinct := by
    rw [List.map_append, List.nodup_append]
    refine ⟨h.distinct, h'.distinct.sublist (List.filter_sublist.map _), ?_⟩
    intro a ha b hb
    obtain ⟨r, hr, rfl⟩ := List.mem_map.mp ha
    obtain ⟨q, hq, rfl⟩ := List.mem_map.mp hb
    have hall := List.all_eq_true.mp (List.mem_filter.mp hq).2 r hr
    simpa using hall

end Picks

/-! ## The ways to a page -/

theorem scan_sublist (t : Table) (ks : List Conjunct) (limit offset : Nat) (rows : List Row) :
    (t.scan ks limit offset rows).1.Sublist rows := by
  induction rows generalizing limit offset with
  | nil => cases limit <;> exact .slnil
  | cons r rest ih =>
    cases limit with
    | zero => exact List.nil_sublist _
    | succ limit =>
      unfold scan
      split
      · exact List.nil_sublist _
      · exact (ih _ _).cons r
      · cases offset with
        | zero => exact (ih limit 0).cons_cons r
        | succ offset => exact (ih _ _).cons r

theorem sift_sublist {ks : List Conjunct} (h : t.sift ks rows = .ok found) :
    found.Sublist rows := by
  induction rows generalizing found with
  | nil =>
    cases h
    exact .slnil
  | cons r rest ih =>
    simp only [sift, bind_eq_ok] at h
    obtain ⟨b, -, h⟩ := h
    cases b with
    | false => exact (ih h).cons r
    | true =>
      obtain ⟨kept, hkept, h⟩ := bind_eq_ok.mp h
      cases h
      exact (ih hkept).cons_cons r

theorem picks_rowsOf (ht : t.Picks t.rows) {q : Question} (hq : q.table = t) (r : Route) :
    t.Picks (rowsOf q r) := by
  subst hq
  have hfound : ∀ p : Row → Bool, q.table.Picks (q.table.rows.filter p) := fun p =>
    ht.sublist List.filter_sublist
  unfold rowsOf
  dsimp only
  split
  · exact hfound _
  · exact hfound _
  · exact (hfound _).perm (ordered_perm _ _)

theorem picks_unionRows (ht : t.Picks t.rows) {q : Question} (hq : q.table = t)
    {cs : List Term} (h : unionRows q cs = .ok found) : t.Picks found := by
  refine foldlM_preserves (P := t.Picks) (fun rows c next hrows hnext => ?_) h (.nil t)
  obtain ⟨more, hmore, hnext⟩ := bind_eq_ok.mp hnext
  cases hnext
  have hsub : (Plan.subQuestion q c).table = t := hq
  rw [hq] at hmore
  exact hrows.append ((picks_rowsOf ht hsub _).sublist (sift_sublist hmore))

theorem picks_plannedPage (ht : t.Picks t.rows) (ks : List Conjunct) (columns : List Nat)
    (limit offset : Nat) : t.Picks (t.plannedPage ks columns limit offset).1 := by
  unfold plannedPage
  dsimp only
  split
  · exact (picks_rowsOf ht rfl _).sublist (scan_sublist t _ _ _ _)
  · split
    · exact .nil t
    · next rows hfound =>
      have hrows : t.Picks rows := by
        split at hfound
        · exact picks_unionRows ht rfl hfound
        · exact (picks_rowsOf ht rfl _).sublist (sift_sublist hfound)
      have horder : t.Picks (t.inOrder rows) := hrows.perm (ordered_perm _ _)
      exact horder.sublist ((List.take_sublist _ _).trans (List.drop_sublist _ _))

/-- A page holds rows of the table, none of them twice. -/
theorem picks_page (ht : t.Picks t.rows) (k : Clause) (columns : List Nat)
    (limit offset : Nat) : t.Picks (t.page k columns limit offset).1 := by
  unfold page
  dsimp only
  split
  · exact .nil t
  split
  · exact .nil t
  · exact .nil t
  split
  · exact ht.sublist (scan_sublist t _ _ _ _)
  · exact picks_plannedPage ht _ _ _ _

end Table

/-! ## Images that are read -/

variable {s : Schema} {es : List Shelved} {d : Database}

theorem picks_tableOf (h : Shelf s es) : (tableOf s es).Picks (tableOf s es).rows where
  mem _ hr := hr
  distinct := by
    show ((es.map (Shelved.row s)).map (·.number)).Nodup
    rw [List.map_map]
    have hsorted : (es.map (·.number)).Pairwise (· < ·) := sorted_iff.mp h.sorted
    exact hsorted.imp fun hlt => Int.ne_of_lt hlt

theorem decodeRows_eq_ok {α : Type} {decode : Row → Except StoreError α}
    {stop : Option Refusal} {rows : List Row} {found : List α}
    (h : Link.decodeRows decode stop rows = .ok found) : rows.map decode = found.map .ok := by
  induction rows generalizing found with
  | nil =>
    unfold Link.decodeRows at h
    split at h
    · cases h
    · cases h
      rfl
  | cons r rows ih =>
    unfold Link.decodeRows at h
    split at h
    · cases h
    · next a ha =>
      cases hrest : Link.decodeRows decode stop rows with
      | error e =>
        rw [hrest] at h
        cases h
      | ok rest =>
        rw [hrest] at h
        cases h
        rw [List.map_cons, List.map_cons, ha, ih hrest]

/-- Picked rows of a shelf are the rows of some of its images. -/
theorem shelved_of_picks {rows : List Row} (hr : (tableOf s es).Picks rows) :
    ∃ l : List Shelved, rows = l.map (Shelved.row s) ∧ (∀ e ∈ l, e ∈ es) ∧
      (l.map (·.number)).Nodup := by
  obtain ⟨hmem, hdistinct⟩ := hr
  induction rows with
  | nil => exact ⟨[], rfl, by simp, by simp⟩
  | cons r rows ih =>
    obtain ⟨e, he, rfl⟩ := List.mem_map.mp (hmem r (by simp))
    rw [List.map_cons, List.nodup_cons] at hdistinct
    obtain ⟨l, rfl, hl, hn⟩ := ih (fun q hq => hmem q (by simp [hq])) hdistinct.2
    refine ⟨e :: l, rfl, ?_, ?_⟩
    · intro x hx
      rcases List.mem_cons.mp hx with rfl | hx
      · exact he
      · exact hl x hx
    · rw [List.map_cons, List.nodup_cons]
      refine ⟨fun hmem => hdistinct.1 ?_, hn⟩
      rw [List.map_map]
      exact hmem

theorem ids_nodup (h : Shelf s es) {l : List Shelved} (hl : ∀ e ∈ l, e ∈ es)
    (hn : (l.map (·.number)).Nodup) : (l.map (·.image.id)).Nodup := by
  induction l with
  | nil => exact .nil
  | cons e l ih =>
    rw [List.map_cons, List.nodup_cons] at hn ⊢
    refine ⟨fun hmem => hn.1 ?_, ih (fun x hx => hl x (by simp [hx])) hn.2⟩
    obtain ⟨x, hx, hid⟩ := List.mem_map.mp hmem
    have he := shelved?_of_mem h.ids (hl e (by simp))
    have hx' := shelved?_of_mem h.ids (hl x (by simp [hx]))
    rw [hid, he] at hx'
    cases hx'
    exact List.mem_map_of_mem hx

/-- What is read of a record type are stored images, no two under one key. -/
theorem read_eq_ok (h : d.Holds s es) (hp : s.Proper) {clause : Clause} {limit offset : Nat}
    {found : List RowImage}
    (hread : Link.read d ⟨s, .selectRows clause⟩ clause limit offset (RowImage.ofRow s) =
      .ok found) :
    (found.map (·.id)).Nodup ∧
      ∀ x ∈ found, (shelved? es x.id).map (·.image) = some x := by
  unfold Link.read Database.query at hread
  split at hread
  · cases hread
  · next t rows stop hquery =>
    split at hquery
    · cases hquery
    split at hquery
    · cases hquery
    · next u htarget =>
      obtain ⟨-, ht⟩ := Database.target_eq_ok htarget
      rw [h.table] at ht
      cases ht
      split at hquery
      · cases hquery
      · obtain ⟨rfl, hpage⟩ := Prod.mk.inj (Except.ok.inj hquery)
        have hpicks : (tableOf s es).Picks rows := by
          show (tableOf s es).Picks (rows, stop).1
          rw [← hpage]
          exact Table.picks_page (picks_tableOf h.shelf) _ _ _ _
        obtain ⟨l, hl, hmem, hn⟩ := shelved_of_picks hpicks
        have hdecoded := decodeRows_eq_ok hread
        rw [hl, List.map_map] at hdecoded
        have himages : found = l.map (·.image) := by
          have hok : (l.map (RowImage.ofRow s (tableOf s es) ∘ Shelved.row s)) =
              (l.map (·.image)).map (.ok (ε := StoreError)) := by
            rw [List.map_map]
            refine List.map_congr_left fun e he => ?_
            have hnamed := h.shelf.named (List.ne_nil_of_mem (hmem e he))
            exact ofRow_row hp hnamed (h.shelf.fits e (hmem e he))
          rw [hok] at hdecoded
          exact ((List.map_inj_right fun _ _ h => Except.ok.inj h).mp hdecoded).symm
        subst himages
        refine ⟨?_, fun x hx => ?_⟩
        · rw [List.map_map]
          exact ids_nodup h.shelf hmem hn
        · obtain ⟨e, he, rfl⟩ := List.mem_map.mp hx
          rw [shelved?_of_mem h.shelf.ids (hmem e he)]
          rfl

end LiveRecords
