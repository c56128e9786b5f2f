import LiveRecords.Proofs.Patching
import LiveRecords.Proofs.Tending

/-!
# What a commit leaves stored

After a commit of the whole row, the row that is stored is the record's. After a
commit of fields, a row that is stored holds what was written in each of them,
but there need not be one: an update of a key without a row is no failure, and
nobody looks at how many rows it changed. There is one for every record that is
not unread.
-/

namespace LiveRecords

/-- A row holds the current values of some fields. -/
def RowImage.Shows (s : Schema) (x : RowImage) (ts : List Slot) (fields : List String) : Prop :=
  ∀ t ∈ ts, t.name ∈ fields → x.value? s t.name = some t.current

namespace Record

variable {x : Record} {image : RowImage}

/-- A row that holds the baselines of slots without an edit holds their values. -/
theorem shows_of_agrees {ts : List Slot} (h : image.Agrees x.schema ts)
    (ht : ∀ t ∈ ts, t.current = t.baseline) (fields : List String) :
    image.Shows x.schema ts fields := fun t hmem _ => ht t hmem ▸ h t hmem

/-- A patch with the edits of a record shows the fields that were edited. -/
theorem patch_edits_shows (hx : x.Intact) (hi : image.Fits x.schema) :
    (image.patch x.schema x.edits).Shows x.schema (x.slots.map Slot.settle) x.dirtyFields := by
  intro t ht hf
  obtain ⟨u, hu, rfl⟩ := List.mem_map.mp ht
  obtain ⟨v, hv, hname⟩ := List.mem_map.mp hf
  obtain ⟨hv, hd⟩ := List.mem_filter.mp hv
  obtain rfl := eq_of_name (names_nodup hx.toShaped) hv hu hname
  have hmem : (v.field.name, v.current) ∈ x.edits :=
    List.mem_map_of_mem (f := fun t : Slot => (t.name, t.current))
      (List.mem_filter.mpr ⟨hv, hd⟩)
  have hnames : (x.edits.map (·.1)).Nodup := by
    rw [edits, List.map_map]
    exact (names_nodup hx.toShaped).sublist (List.filter_sublist.map _)
  have hfield : v.field ∈ x.schema.fields := field_mem hx.toShaped (t := v) hu
  exact RowImage.value?_patch hx.proper hi.length hnames hfield hmem

end Record

namespace Workspace

open LiveRecords.Core

variable {w : Workspace} {o : Outlook} {unread : RecordRef → Prop} {m : MapRef} {s : Schema}
  {id : RecordId} {r : RecordRef} {x : Resident} {image : RowImage} {fields : List String}

/-- What a commit that inserts leaves stored. -/
theorem Tended.insert_stores (h : Tended o unread w) (hx : o.Sees w.core m s id r x)
    (hq : w.Unanswered r .commit) (hok : (w.run r .commit).1 = .ok (.committed .inserted)) :
    ∃ y image, o.Sees (w.run r .commit).2.core m s id r y ∧
      ((w.run r .commit).2.databaseOf o.connection).image? s id = some image ∧
      ∀ fields, image.Shows s y.record.slots fields := by
  obtain ⟨hid, hschema, -⟩ := hx.of h.sound
  subst hid hschema
  have hintact := h.faithful.intact hx
  obtain ⟨es, hes, -⟩ := h.holds hx.types
  obtain ⟨l, hl, hreply, hcore, -⟩ := h.run_unanswered hx hq
  obtain ⟨h₁, hx₁, hdb₁⟩ := h.after hx hcore
  rw [hok] at hreply
  have habsent := Record.absent_of_inserted hintact hreply
  rw [Record.run_commit_of_absent habsent] at hreply hx₁ hdb₁
  obtain ⟨out, hout, heq⟩ := map_eq_ok.mp hreply
  obtain ⟨⟨e, he⟩, -⟩ | ⟨-, hslots, es', hedits, -, hown⟩ := Record.commitRow_cases hintact
    (hl ▸ h.faithful.plain) (hl ▸ hes) (h.sole.unnumbered (hx.types.ahead h.ahead))
  · rw [he] at hout
    cases hout
  refine ⟨_, x.record.image, hx₁, ?_, fun fields => ?_⟩
  · rw [h₁.databaseOf hx₁.types, hdb₁, (hedits.holds (hl ▸ hes)).image? hintact.proper]
    exact hown
  · dsimp only
    rw [hslots]
    refine Record.shows_of_agrees (Record.image_agrees hintact) (fun t ht => ?_) fields
    obtain ⟨u, -, rfl⟩ := List.mem_map.mp ht
    rfl

/-- What a commit that updates leaves stored: the fields that it lists, in the row
under the key if there is one. -/
theorem Tended.update_stores (h : Tended o unread w) (hx : o.Sees w.core m s id r x)
    (hq : w.Unanswered r .commit)
    (hok : (w.run r .commit).1 = .ok (.committed (.updated fields))) :
    ∃ y, o.Sees (w.run r .commit).2.core m s id r y ∧
      (((w.run r .commit).2.databaseOf o.connection).image? s id).isSome =
        ((w.databaseOf o.connection).image? s id).isSome ∧
      ∀ image, ((w.run r .commit).2.databaseOf o.connection).image? s id = some image →
        image.Shows s y.record.slots fields := by
  obtain ⟨hid, hschema, -⟩ := hx.of h.sound
  subst hid hschema
  have hintact := h.faithful.intact hx
  obtain ⟨es, hes, hstored⟩ := h.holds hx.types
  obtain ⟨l, hl, hout, hcore, h₁, hx₁, hdb₁⟩ := h.commit_saves hx hok hq
  have hes' : l.database.Holds x.record.schema es := hl ▸ hes
  obtain ⟨hpatch, hshelf⟩ :=
    Record.commitFields_patches hintact (hl ▸ h.faithful.plain) hes' hout
  have hrow : ((w.run r .commit).2.databaseOf o.connection).image? x.record.schema x.record.id =
      (stored? es x.record.id).map (RowImage.patch x.record.schema x.record.edits) := by
    rw [h₁.databaseOf hx₁.types, hdb₁, hpatch, (hes'.shelve hshelf).image? hintact.proper,
      stored?_revise (RowImage.id_patch _ _), if_pos rfl]
  have hfields : fields = x.record.dirtyFields := by
    obtain ⟨-, he, -⟩ | ⟨-, he, -⟩ := Record.commitFields_of_success hintact hout <;> cases he
    rfl
  refine ⟨_, hx₁, ?_, fun image himage => ?_⟩
  · rw [hrow, hstored, Option.isSome_map]
  · rw [hrow] at himage
    obtain ⟨before, hbefore, rfl⟩ := Option.map_eq_some_iff.mp himage
    rw [hfields]
    exact Record.patch_edits_shows hintact (hes.shelf.stored_fits hbefore)

/-- In every state of a run in which a connection is the only writer of its
database, whatever failed before: what a commit that nobody answers leaves
stored. Where it inserts, the row under the key shows every field of the record.
Where it updates, the row shows every field that it lists, if there is a row;
and where there is none, the record was made up and has not been read since. -/
theorem stored_of_commit (hb : Boots w) {actions : List Action} {c : ConnectionRef}
    {d : DatabaseRef} (ha : Follows (Action.Private d) w actions)
    (hc : (w.performAll actions).SoleWriter c d)
    (hd : (w.performAll actions).Prepared c (w.core.database d)) {i : Instance}
    (hx : (w.performAll actions).Finds c s id r i)
    (hq : (w.performAll actions).Unanswered r .commit) :
    ∃ j, ((w.performAll actions).run r .commit).2.Finds c s id r j ∧
      (((w.performAll actions).run r .commit).1 = .ok (.committed .inserted) →
        ∃ image, (((w.performAll actions).run r .commit).2.databaseOf c).image? s id =
            some image ∧ ∀ fields, image.Shows s j.record.slots fields) ∧
      ∀ fields, ((w.performAll actions).run r .commit).1 = .ok (.committed (.updated fields)) →
        ((((w.performAll actions).run r .commit).2.databaseOf c).image? s id = none →
          Unread w actions r) ∧
        ∀ image, (((w.performAll actions).run r .commit).2.databaseOf c).image? s id =
          some image → image.Shows s j.record.slots fields := by
  have h := tended_of_run hb ha hc hd
  obtain ⟨m, hsees⟩ := Finds.sees (o := (w.performAll actions).outlook c d false) hx
  obtain ⟨l, -, -, hcore, -⟩ := h.run_unanswered hsees hq
  obtain ⟨h₁, hsees₁, -⟩ := h.after hsees hcore
  obtain ⟨j, hj, -⟩ := finds_of_sees h₁.sound hsees₁
  have hown := core_records_of_some hj.record
  refine ⟨j, hj, fun hok => ?_, fun fields hok => ?_⟩
  · obtain ⟨y, image, hy, himage, hshows⟩ := h.insert_stores hsees hq hok
    obtain rfl := Option.some.inj (hy.record.symm.trans hown)
    exact ⟨image, himage, hshows⟩
  · obtain ⟨y, hy, hsome, hshows⟩ := h.update_stores hsees hq hok
    obtain rfl := Option.some.inj (hy.record.symm.trans hown)
    refine ⟨fun hnone => Classical.byContradiction fun hread => ?_, hshows⟩
    have haligned := h.faithful.aligned hsees hread
    obtain ⟨image, himage, -⟩ := haligned.stored (isNew_of_updated hx.record hok).1
    rw [← h.databaseOf hsees.types] at himage
    rw [himage, connection_outlook, hnone] at hsome
    cases hsome

/-- The first commit of `saveTwice` inserts the row. -/
theorem stored_saveTwice :
    ((performAll {} (saveTwice.take 3)).run 0 .commit).1 = .ok (.committed .inserted) ∧
      ∃ i image, ((performAll {} (saveTwice.take 3)).run 0 .commit).2.Finds 0 notes
          (.ofOrdinal 1) 0 i ∧
        (((performAll {} (saveTwice.take 3)).run 0 .commit).2.databaseOf 0).image? notes
          (.ofOrdinal 1) = some image ∧ image.Shows notes i.record.slots ["TITLE"] := by
  have hlt : 0 < (performAll {} (saveTwice.take 3)).records.length := by decide
  have hx : (performAll {} (saveTwice.take 3)).Finds 0 notes (.ofOrdinal 1) 0 _ :=
    ⟨⟨0, _, by rfl, by rfl, by rfl, by rfl⟩, List.getElem?_eq_getElem hlt⟩
  have hok : ((performAll {} (saveTwice.take 3)).run 0 .commit).1 =
      .ok (.committed .inserted) := by rfl
  have hq : (performAll {} (saveTwice.take 3)).Unanswered 0 .commit := by
    unfold Unanswered
    decide +kernel
  obtain ⟨i, hi, hinserted, -⟩ := stored_of_commit boots_empty (private_saveTwice.take 3)
    (soleWriter_of_single (n := ["TITLE"]) (by rfl) (by rfl) (by decide)) (prepared_empty _ _)
    hx hq
  obtain ⟨image, himage, hshows⟩ := hinserted hok
  exact ⟨hok, i, image, hi, himage, hshows _⟩

/-- A program that asks for a key that nothing was ever stored under. -/
def asksForNothing : List Action :=
  [.openStore "store" .inMemory,
    .registerType "store" { table := "NOTES", fields := [⟨"TITLE", .text, true⟩] } "notes",
    .withId "notes" (.ofOrdinal 1) (some "note"),
    .command "note" (.set "TITLE" (.text "milk"))]

/-- Its commit updates a field, and there is no row. -/
theorem commit_asksForNothing : Boots {} ∧ Follows (Action.Private 0) {} asksForNothing ∧
    (performAll {} asksForNothing).SoleWriter 0 0 ∧
    (∃ i, (performAll {} asksForNothing).Finds 0 notes (.ofOrdinal 1) 0 i) ∧
    (performAll {} asksForNothing).Unanswered 0 .commit ∧
    ((performAll {} asksForNothing).run 0 .commit).1 = .ok (.committed (.updated ["TITLE"])) ∧
    (((performAll {} asksForNothing).run 0 .commit).2.databaseOf 0).image? notes
      (.ofOrdinal 1) = none := by
  have hlt : 0 < (performAll {} asksForNothing).records.length := by decide
  exact ⟨boots_empty, ⟨⟨rfl, id⟩, ⟨rfl, id⟩, ⟨rfl, id⟩, ⟨rfl, id⟩, trivial⟩,
    soleWriter_of_single (n := ["TITLE"]) (by rfl) (by rfl) (by decide),
    ⟨_, ⟨⟨0, _, by rfl, by rfl, by rfl, by rfl⟩, List.getElem?_eq_getElem hlt⟩⟩, by rfl, by rfl,
    by rfl⟩

end Workspace

end LiveRecords
