import LiveRecords.Proofs.Chronicles
import LiveRecords.Proofs.Watching

/-!
# What views show

A view resolves a row once: to the record that is registered under its key as it
is, or else to one made of what is stored. Along every run the record of a row
stays the one under the key of the row, so what a view shows of a field without
an edit is what is stored, unless the record was made up and is unread.
-/

namespace LiveRecords

/-- A record that agrees with its row shows the row in a field without an edit, and
shows the same once it takes its row in. -/
theorem Record.value?_of_agrees {x : Record} {image : RowImage} {field : String} {v : Value}
    (hx : x.Intact) (ha : image.Agrees x.schema x.slots) (hv : x.get field = .ok v)
    (hclean : x.isFieldDirty field = .ok false) :
    image.value? x.schema field = some v ∧ (x.hydrate image).record.get field = .ok v := by
  obtain ⟨t, ht, rfl⟩ := map_eq_ok.mp hv
  obtain ⟨u, hu, hdirty⟩ := map_eq_ok.mp hclean
  rw [ht] at hu
  cases hu
  obtain ⟨hmem, rfl⟩ := mem_of_slotOf ht
  rw [hydrate_of_agrees hx ha, (hx.slots t hmem).current_eq hdirty]
  refine ⟨ha t hmem, ?_⟩
  rw [← (hx.slots t hmem).current_eq hdirty]
  exact hv

namespace Workspace

open LiveRecords.Core

variable {w w' : Workspace} {c : ConnectionRef} {d : DatabaseRef} {s : Schema} {v : ViewRef}
  {x : View} {row : Nat} {id : RecordId} {r : RecordRef}

/-- Along every run, views keep the records that stand under the keys of their rows. -/
theorem Follows.shown {own : Prop} {actions : List Action}
    (ha : Follows (fun _ a => a.Suits own) w actions) (hs : w.core.Sound) (hw : Holding own w)
    (h : w.Shown) : (w.performAll actions).Shown := by
  induction actions generalizing w with
  | nil => exact h
  | cons a actions ih =>
    have hacts := perform_acts hs hw ha.1
    exact ih ha.2 (hacts.sound hs) hacts.2 ((perform_turns hs hw ha.1).shown h)

theorem Boots.shown (hb : Boots w) : w.Shown := by
  intro x hx
  rw [hb.views] at hx
  cases hx

theorem data_field_eq_ok {field : String} {shown : RoleValue}
    (h : w.data v row (.field field) = (.ok shown, w')) :
    ∃ r value, w.recordAt v row = (.ok r, w') ∧ w'.valueOf r field = .ok value ∧
      shown = .value value := by
  unfold data at h
  split at h
  · cases h
  next r w₁ hq =>
  obtain ⟨hshown, rfl⟩ := Prod.mk.inj h
  obtain ⟨value, hvalue, rfl⟩ := map_eq_ok.mp hshown
  exact ⟨r, value, hq, hvalue, rfl⟩

/-- The record of a row is registered under its key. -/
theorem data_field_finds (hs : w.core.Sound) (hw : Holding True w) (hshown : w.Shown) {name : String}
    (hv : w.viewNames.lookup name = some v) (hx : w.views[v]? = some x)
    (hm : (w.maps[x.map]?).map (fun map => (map.connection, map.schema)) = some (c, s))
    (hrow : x.window.key? row = some id) {field : String} {shown : RoleValue}
    (h : w.data v row (.field field) = (.ok shown, w')) :
    ∃ r i value, (w'.views[v]?).bind (·.rows.lookup row) = some r ∧ w'.Finds c s id r i ∧
      i.record.get field = .ok value ∧ shown = .value value := by
  obtain ⟨r, value, hrecord, hvalue, rfl⟩ := data_field_eq_ok h
  obtain ⟨map, hmap, heq⟩ := Option.map_eq_some_iff.mp hm
  cases heq
  have hlt : x.map < w.maps.length := (List.getElem?_eq_some_iff.mp hmap).1
  obtain ⟨id', y, hid', hy, hymap, hwindow, hlook⟩ := recordAt_kept hx hrecord
  rw [hrow] at hid'
  cases hid'
  obtain ⟨hlasts, hstays, hs'⟩ := recordAt_lasts hs hx hlt row
  obtain ⟨-, -, hlisted⟩ := recordAt_acts (P := fun _ _ => True) hs hw (.of_lookup hv) row
    fun _ _ _ _ _ => trivial
  rw [hrecord] at hlasts hstays hs' hlisted
  -- The record is registered, and if it is, it stands under the key of the row.
  obtain ⟨key, hkey, hstands⟩ := hlasts.shown hshown y (List.mem_of_getElem? hy) (row, r)
    (mem_of_lookup hlook)
  have hkey' : key = id := by
    rw [hwindow, key?_eq_some hrow] at hkey
    exact (Option.some.inj hkey).symm
  obtain ⟨m, id', hl⟩ := hlisted r rfl
  obtain ⟨rfl, rfl⟩ := hstands.only hl
  subst hkey'
  rw [hymap] at hl
  obtain ⟨map', hmap', hlike⟩ := Core.map_of_shape hstays.frame.shape hmap
  obtain ⟨z, hz, -⟩ := hs'.resident ⟨_, _, hl⟩
  obtain ⟨i, hi, -⟩ := instance_of_core hz
  refine ⟨r, i, value, ?_, ⟨⟨x.map, map', hmap', hlike.connection, hlike.schema,
    registered_of_lists hs' hl⟩, hi⟩, ?_, rfl⟩
  · rw [hy]
    exact hlook
  · rw [valueOf, hi] at hvalue
    exact hvalue

theorem perform_data_eq_ok {name field : String} {as : Option String} {value : Value}
    (hv : w.viewNames.lookup name = some v)
    (h : (w.perform (.data name row (.field field) as)).1 = .ok (.shown (.value value))) :
    w.data v row (.field field) =
      (.ok (.value value), (w.perform (.data name row (.field field) as)).2) := by
  simp only [perform, withView, hv] at h ⊢
  unfold showData at h ⊢
  generalize hq : w.data v row (.field field) = p at h ⊢
  obtain ⟨result, w₁⟩ := p
  cases result with
  | error e => cases h
  | ok shown =>
    obtain ⟨r, value', -, -, rfl⟩ := data_field_eq_ok hq
    cases h
    rfl

/-- A view of the only writer of its database shows what is stored in a field without
an edit, and what taking in the row would show, unless the record of the row was
made up and is unread. -/
theorem shown_of_run (hb : Boots w) {actions : List Action} {view field : String}
    {as : Option String} {value : Value}
    (hw' : w' = w.performAll (actions ++ [.data view row (.field field) as]))
    (ha : Follows (Action.Private d) w (actions ++ [.data view row (.field field) as]))
    (hc : w'.SoleWriter c d) (hd : w'.Prepared c (w.core.database d))
    (hv : (w.performAll actions).viewNames.lookup view = some v)
    (hx : (w.performAll actions).views[v]? = some x)
    (hm : ((w.performAll actions).maps[x.map]?).map (fun map => (map.connection, map.schema)) =
      some (c, s))
    (hrow : x.window.key? row = some id)
    (hok : ((w.performAll actions).perform (.data view row (.field field) as)).1 =
      .ok (.shown (.value value))) :
    ∃ r i, (w'.views[v]?).bind (·.rows.lookup row) = some r ∧ w'.Finds c s id r i ∧
      i.record.get field = .ok value ∧
      (¬Unread w (actions ++ [.data view row (.field field) as]) r → i.record.isNew = false →
        i.record.isFieldDirty field = .ok false →
        ∃ image, (w'.databaseOf c).image? s id = some image ∧
          image.value? s field = some value ∧
          (i.record.hydrate image).record.get field = .ok value) := by
  obtain ⟨hbefore, -⟩ := follows_append.mp ha
  obtain ⟨hs, hw⟩ := hbefore.good (fun h => .of_sharesHub h.sharesHub) hb.sound hb.holding
  have hshown := Follows.shown (hbefore.mono fun h => .of_sharesHub h.sharesHub) hb.sound hb.holding
    hb.shown
  have hlast : w' = ((w.performAll actions).perform (.data view row (.field field) as)).2 := by
    rw [hw', performAll_append]
    rfl
  have hdata := perform_data_eq_ok hv hok
  rw [← hlast] at hdata
  obtain ⟨r, i, value', hlook, hfinds, hget, heq⟩ :=
    data_field_finds hs hw hshown hv hx hm hrow hdata
  cases heq
  refine ⟨r, i, hlook, hfinds, hget, fun hread hnew hclean => ?_⟩
  subst hw'
  have htended := tended_of_run hb ha hc hd
  generalize ho : (w.performAll (actions ++ [.data view row (.field field) as])).outlook c d
    false = o at htended
  have hconnection : c = o.connection := by rw [← ho]; rfl
  rw [hconnection] at hfinds ⊢
  obtain ⟨m, hsees⟩ := hfinds.sees
  obtain ⟨hid, hschema, -⟩ := hsees.of htended.sound
  obtain ⟨image, himage, hagree⟩ := (htended.faithful.aligned hsees hread).stored hnew
  obtain ⟨hvalue, hhydrate⟩ :=
    Record.value?_of_agrees (htended.faithful.intact hsees) hagree hget hclean
  rw [hschema] at hvalue
  exact ⟨image, by rw [htended.databaseOf hsees.types]; exact himage, hvalue, hhydrate⟩

/-- A program that saves a note and shows it in a view. -/
def listsNote : List Action :=
  saveTwice ++ [.openView "list" "notes" "store" (.filter {}) (some 1)]

def showsTitle : Action := .data "list" 0 (.field "TITLE") none

theorem shown_listsNote :
    ((performAll {} listsNote).perform showsTitle).1 = .ok (.shown (.value (.text "milk"))) ∧
      ∃ image, ((performAll {} (listsNote ++ [showsTitle])).databaseOf 0).image? notes
          (.ofOrdinal 1) = some image ∧ image.value? notes "TITLE" = some (.text "milk") := by
  have hx : (performAll {} listsNote).views[0]? =
      some ((performAll {} listsNote).views.get ⟨0, by decide +kernel⟩) :=
    List.getElem?_eq_getElem _
  have ha : Follows (Action.Private 0) {} (listsNote ++ [showsTitle]) :=
    ⟨⟨rfl, id⟩, ⟨rfl, id⟩, ⟨rfl, id⟩, ⟨rfl, id⟩, ⟨rfl, id⟩, ⟨rfl, id⟩, ⟨rfl, id⟩, ⟨rfl, id⟩, trivial⟩
  have hc : (performAll {} (listsNote ++ [showsTitle])).SoleWriter 0 0 :=
    soleWriter_of_single (n := ["TITLE"]) (by decide +kernel) (by decide +kernel) (by decide)
  have hok : ((performAll {} listsNote).perform showsTitle).1 =
      .ok (.shown (.value (.text "milk"))) := by
    rfl
  have hm : ((performAll {} listsNote).maps[((performAll {} listsNote).views.get
      ⟨0, by decide +kernel⟩).map]?).map (fun map => (map.connection, map.schema)) =
      some (0, notes) := by
    decide +kernel
  have hrow : ((performAll {} listsNote).views.get ⟨0, by decide +kernel⟩).window.key? 0 =
      some (.ofOrdinal 1) := by
    decide +kernel
  obtain ⟨r, i, hlook, hfinds, -, hstored⟩ := shown_of_run boots_empty rfl ha hc
    (prepared_empty _ _) (by decide +kernel) hx hm hrow hok
  have hr : ((performAll {} (listsNote ++ [showsTitle])).views[0]?).bind (·.rows.lookup 0) =
      some 0 := by
    decide +kernel
  cases hr.symm.trans hlook
  have hlt : 0 < (performAll {} (listsNote ++ [showsTitle])).records.length := by decide +kernel
  cases (List.getElem?_eq_getElem hlt).symm.trans hfinds.record
  obtain ⟨image, himage, hvalue, -⟩ := hstored (not_unreadFrom (by decide) id) (by rfl) (by rfl)
  exact ⟨hok, image, himage, hvalue⟩

/-- A program that saves a note, lets go of it, asks for it by its key alone and
shows it in a view. -/
def listsUnread : List Action :=
  [.openStore "store" .inMemory,
    .registerType "store" { table := "NOTES", fields := [⟨"TITLE", .text, true⟩] } "notes",
    .newRecord "notes" (.ofOrdinal 1) (some "note"),
    .command "note" (.set "TITLE" (.text "milk")), .command "note" .commit,
    .release "notes" "note", .withId "notes" (.ofOrdinal 1) (some "note"),
    .openView "list" "notes" "store" (.filter {}) (some 1)]

/-- Of a record that was made up, a view shows initial values over those that are stored. -/
theorem showsUnread :
    Follows (Action.Private 0) {} (listsUnread ++ [showsTitle]) ∧
      (performAll {} (listsUnread ++ [showsTitle])).SoleWriter 0 0 ∧
      (performAll {} (listsUnread ++ [showsTitle])).Prepared 0 {} ∧
      ((performAll {} listsUnread).perform showsTitle).1 = .ok (.shown (.value (.text ""))) ∧
      (performAll {} (listsUnread ++ [showsTitle])).records.map (fun i => i.record.dirtyFields) =
        [[], []] ∧
      (((performAll {} (listsUnread ++ [showsTitle])).databaseOf 0).image? notes
        (.ofOrdinal 1)).bind (·.value? notes "TITLE") = some (.text "milk") :=
  ⟨⟨⟨rfl, id⟩, ⟨rfl, id⟩, ⟨rfl, id⟩, ⟨rfl, id⟩, ⟨rfl, id⟩, ⟨rfl, id⟩, ⟨rfl, id⟩, ⟨rfl, id⟩,
      ⟨rfl, id⟩, trivial⟩,
    soleWriter_of_single (n := ["TITLE"]) (by decide +kernel) (by decide +kernel) (by decide),
    prepared_empty _ _, by rfl, by decide +kernel, by decide +kernel⟩

end Workspace

end LiveRecords
