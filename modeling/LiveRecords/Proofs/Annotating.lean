import LiveRecords.Note
import LiveRecords.Proofs.Encoding
import LiveRecords.Proofs.Reloading

/-!
# Structured values and metadata in records

A structured value is held as octets, never none, and is read back from them. So is the
metadata of a note: it is read as it was written, from the value of its field.
-/

namespace LiveRecords

open Text

/-! ## Values -/

namespace Json

theorem joined_map {α β : Type} (write : β → List UInt8) (f : α → β) (as : List α) :
    joined write (as.map f) = joined (fun a => write (f a)) as := by
  cases as with
  | nil => rfl
  | cons a as => rw [List.map_cons, joined, joined, List.flatMap_map]

variable {bs : List UInt8}

/-- What is written for a value is not empty. -/
theorem encode_ne_nil {j : Json} {depth : Nat} (h : j.Keeps depth) : j.encode ≠ [] := by
  obtain ⟨b, rest, hb, -⟩ := opens_render h
  exact ne_of_eq_of_ne hb (List.cons_ne_nil b rest)

end Json

/-- Octets that are read to their end are read as what a field holds. -/
theorem Value.decode_blob {α : Type} {read : Json.Read α} {bs : List UInt8} {a : α} (hne : bs ≠ [])
    (h : read bs = .ok (a, [])) : (Value.blob bs).decode read = .ok (some a) := by
  obtain ⟨b, rest, rfl⟩ := List.exists_cons_of_ne_nil hne
  simp only [Value.decode, Json.decode, h]
  rfl

/-- A structured value is held as octets, and is read from them but for the order of members
in objects. -/
theorem Value.decode_ofJson {j : Json} {depth : Nat} (h : j.Keeps depth) :
    (∃ b bs, Value.ofJson j = .blob (b :: bs)) ∧
      (Value.ofJson j).decode (Json.value (depth + 1)) = .ok (some j.sorted) := by
  have hne := Json.encode_ne_nil h
  have hvalue := Json.value_render h Json.Ends.nil
  rw [List.append_nil] at hvalue
  refine ⟨?_, Value.decode_blob hne hvalue⟩
  obtain ⟨b, bs, hb⟩ := List.exists_cons_of_ne_nil hne
  exact ⟨b, bs, congrArg Value.blob hb⟩

/-! ## Texts and flags -/

namespace Json

theorem text_written (s : String) (bs : List UInt8) :
    Shape.text (Utf8.encode (renderString s) ++ bs) = .ok (s, bs) := by
  rw [encode_renderString, List.cons_append, List.append_assoc]
  exact stringBody_escaped s bs

theorem flag_written (b : Bool) (bs : List UInt8) :
    Shape.flag (Utf8.encode (Json.bool b).render ++ bs) = .ok (b, bs) := by
  cases b <;> rfl

theorem textList_written (ss : List String) (bs : List UInt8) :
    Shape.textList (Utf8.encode (Json.array (ss.map .string)).render ++ bs) = .ok (ss, bs) := by
  have htext : Utf8.encode (Json.array (ss.map .string)).render ++ bs =
      octet '[' :: (joined (fun s => Utf8.encode (renderString s)) ss ++ octet ']' :: bs) := by
    rw [render, List.cons_append, Utf8.encode_cons, Utf8.encode_append, encode_renderItems,
      joined_map, List.append_assoc, List.append_assoc]
    rfl
  have hopens : ∀ s ∈ ss, Opens (Utf8.encode (renderString s)) := by
    intro s _
    have hkeeps : (Json.string s).Keeps 0 := trivial
    exact opens_render hkeeps
  have hitems : items Shape.text
      ((joined (fun s => Utf8.encode (renderString s)) ss ++ octet ']' :: bs).length + 1) true
      (joined (fun s => Utf8.encode (renderString s)) ss ++ octet ']' :: bs) =
        .ok (ss.map fun s => s, bs) :=
    items_joined hopens fun s _ bs _ => text_written s bs
  rw [List.map_id'] at hitems
  rw [htext]
  exact hitems

end Json

/-! ## Metadata -/

namespace Metadata

open Json

theorem step_tags (m : Metadata) (p : Partial) (hp : p.tags = none) (bs : List UInt8) :
    p.step "tags" (writeMember ("tags", .array (m.tags.map .string)) ++ bs) =
      .ok ({ p with tags := some m.tags }, bs) := by
  have hcolon : colon (writeMember ("tags", .array (m.tags.map .string)) ++ bs) =
      .ok (Utf8.encode (Json.array (m.tags.map .string)).render ++ bs) := rfl
  simp only [Partial.step, if_true, hp, Option.isSome_none, Bool.false_eq_true, if_false, hcolon,
    bind, Except.bind, textList_written]
  rfl

theorem step_pinned (m : Metadata) (p : Partial) (hp : p.pinned = none) (bs : List UInt8) :
    p.step "pinned" (writeMember ("pinned", .bool m.pinned) ++ bs) =
      .ok ({ p with pinned := some m.pinned }, bs) := by
  have hcolon : colon (writeMember ("pinned", .bool m.pinned) ++ bs) =
      .ok (Utf8.encode (Json.bool m.pinned).render ++ bs) := rfl
  simp only [Partial.step, if_neg (show "pinned" ≠ "tags" by decide), if_true, hp,
    Option.isSome_none, Bool.false_eq_true, if_false, hcolon, bind, Except.bind, flag_written]
  rfl

/-- Metadata is read as it was written. -/
theorem read_written (m : Metadata) : read (Utf8.encode m.render) = .ok (m, []) := by
  let tags : String × Json := ("tags", .array (m.tags.map .string))
  let pinned : String × Json := ("pinned", .bool m.pinned)
  let rest := octet ',' :: (Utf8.encode (renderString "pinned") ++ (writeMember pinned ++
    [octet '\x7d']))
  have htext : Utf8.encode m.render =
      octet '\x7b' :: (Utf8.encode (renderString "tags") ++ (writeMember tags ++ rest)) := by
    rw [render, Json.render, List.cons_append, Utf8.encode_cons, Utf8.encode_append,
      encode_renderMembers, joined, List.flatMap_cons, List.flatMap_nil, List.append_nil]
    simp only [List.append_assoc, List.cons_append]
    rfl
  have hobject : readObject (Utf8.encode (renderString "tags") ++ (writeMember tags ++ rest)) =
      .ok (m, []) := by
    obtain ⟨fuel, hfuel⟩ := Nat.exists_eq_add_of_lt (show 1 <
      (Utf8.encode (renderString "tags") ++ (writeMember tags ++ rest)).length by
        rw [encode_renderString]
        simp only [List.length_cons, List.length_append]
        omega)
    have hmembers : members Partial.step
        ((Utf8.encode (renderString "tags") ++ (writeMember tags ++ rest)).length + 1) true {}
        (Utf8.encode (renderString "tags") ++ (writeMember tags ++ rest)) =
          .ok ({ tags := some m.tags, pinned := some m.pinned }, []) := by
      rw [hfuel, show 1 + fuel + 1 + 1 = fuel + 3 by omega,
        members_first (step_tags m {} rfl rest) (fuel + 2),
        members_more (step_pinned m _ rfl [octet '\x7d']) (fuel + 1), members_close]
    simp only [readObject, hmembers, bind, Except.bind]
    rfl
  rw [htext]
  exact hobject

theorem decode_toValue (m : Metadata) : m.toValue.decode read = .ok (some m) := by
  have hne : Utf8.encode m.render ≠ [] := by
    rw [render, Json.render, List.cons_append, Utf8.encode_cons]
    exact List.cons_ne_nil _ _
  exact Value.decode_blob hne m.read_written

end Metadata

theorem Note.metadata_of_get {x : Record} {n : Metadata}
    (h : x.get Note.metadataField = .ok n.toValue) : Note.metadata x = .ok n := by
  simp only [Note.metadata, h, n.decode_toValue]
  rfl

/-! ## Runs -/

namespace Workspace

/-- Structured values that are not nested too deep are held as octets and read back from
them. Metadata is what was set, whatever a record has lived through, and a commit does not
change that, whether it succeeds or not. In every state of a run in which a connection is the
only writer of its database, whatever failed before, it stays so: also when the record was
let go after a commit and is loaded, unless the record was made up, has not been read since
and its commit wrote the metadata in no row. -/
theorem structured_of_run (j : Json) (m : Metadata) {w : Workspace} {actions : List Action}
    {c : ConnectionRef} {d : DatabaseRef} {s : Schema} {id : RecordId} {r : RecordRef}
    {i : Instance} {notNull : Bool} :
    (j.Keeps 127 → (∃ b bs, Value.ofJson j = .blob (b :: bs)) ∧
      ∃ j', (Value.ofJson j).decode Json.Shape.any = .ok (some j') ∧ Json.Alike 127 j j' ∧
        (j.Ordered 127 → j' = j)) ∧
    (∀ x : Record, x.Lived → ⟨Note.metadataField, .blob, notNull⟩ ∈ x.schema.fields →
      ∃ b e, x.set Note.metadataField m.toValue = (.ok b, e) ∧ Note.metadata e.record = .ok m ∧
        ∀ l, Note.metadata (e.record.commit l).1.2.record = .ok m) ∧
    (Boots w → Follows (Action.Private d) w actions → (w.performAll actions).SoleWriter c d →
      (w.performAll actions).Prepared c (w.core.database d) →
      (w.performAll actions).Finds c s id r i →
      ⟨Note.metadataField, .blob, notNull⟩ ∈ s.fields →
      (w.performAll actions).Unanswered r (.set Note.metadataField m.toValue) →
      ∃ b, ((w.performAll actions).run r (.set Note.metadataField m.toValue)).1 = .ok (.flag b) ∧
        ((w.performAll actions).run r (.set Note.metadataField m.toValue)).2.Survives c s id r
          (fun out => Unread w actions r →
            ((w.performAll actions).run r (.set Note.metadataField m.toValue)).2.Puts c s id
              Note.metadataField out)
          fun x => Note.metadata x = .ok m) := by
  refine ⟨fun hj => ?_, fun x hx hf => ?_, fun hb ha hc hd hx hf hq => ?_⟩
  · obtain ⟨hblob, hdecode⟩ := Value.decode_ofJson hj
    exact ⟨hblob, _, hdecode, Json.alike_sorted hj, fun ho => Json.sorted_eq ho hj⟩
  · obtain ⟨b, e, hset, hget, hcommit⟩ := hx.get_set hf (v := m.toValue) rfl
    exact ⟨b, e, hset, Note.metadata_of_get hget, fun l => Note.metadata_of_get (hcommit l)⟩
  · obtain ⟨b, hset, hsurvives⟩ := survives_of_run hb ha hc hd hx hf (v := m.toValue) rfl hq
    exact ⟨b, hset, hsurvives.mono fun x => Note.metadata_of_get⟩

def tagged : Metadata := ⟨["a \"b\""], true⟩

/-- What a program leaves when it goes on to set the metadata of the first record and to
commit it. -/
def annotate (actions : List Action) : Workspace :=
  (((performAll {} actions).run 0 (.set Note.metadataField tagged.toValue)).2.run 0 .commit).2

/-- A program that makes a note. -/
def makesNote : List Action :=
  [.openStore "store" .inMemory, .registerType "store" Note.draft "notes",
    .newRecord "notes" (.ofOrdinal 1) (some "note")]

/-- A note that took in a row from elsewhere. Its metadata does not fit. -/
def handedNote (s : Schema) : Record :=
  (Record.initial (.ofOrdinal 2) s false).after
    [.handed ⟨none, [(Note.metadataField, .text "a")]⟩]

theorem structured_makesNote :
    (Value.ofJson (.array [.integer (-7)])).decode Json.Shape.any =
        .ok (some (.array [.integer (-7)])) ∧
      (∃ s, Note.draft.build = .ok s ∧
        (handedNote s).get Note.metadataField = .ok (.text "a") ∧
        Note.metadata ((handedNote s).set Note.metadataField tagged.toValue).2.record =
          .ok tagged) ∧
      ((annotate makesNote).perform (.release "notes" "note")).1 = .ok (.flag true) ∧
      ∃ r' i, (((annotate makesNote).perform (.release "notes" "note")).2.perform
          (.load "notes" (.ofOrdinal 1) none)).1 = .ok (.found (some r')) ∧
        (((annotate makesNote).perform (.release "notes" "note")).2.perform
          (.load "notes" (.ofOrdinal 1) none)).2.records[r']? = some i ∧
        Note.metadata i.record = .ok tagged := by
  have hkeeps : (Json.array [.integer (-7)]).Keeps 127 := by
    intro j hj
    rw [List.mem_singleton.mp hj]
    exact ⟨by decide, by decide⟩
  have hordered : (Json.array [.integer (-7)]).Ordered 127 := by
    intro j hj
    rw [List.mem_singleton.mp hj]
    trivial
  have hlt : 0 < (performAll {} makesNote).records.length := by decide
  have ha : Follows (Action.Private 0) {} makesNote := ⟨⟨rfl, id⟩, ⟨rfl, id⟩, ⟨rfl, id⟩, trivial⟩
  have hc : (performAll {} makesNote).SoleWriter 0 0 :=
    soleWriter_of_single (n := ["title", "metadata", "PARENT_Note_ID"]) (by rfl) (by rfl)
      (by decide)
  have hx : ∃ s i, (performAll {} makesNote).Finds 0 s (.ofOrdinal 1) 0 i ∧
      ⟨Note.metadataField, .blob, false⟩ ∈ s.fields :=
    ⟨_, _, ⟨⟨0, _, by rfl, by rfl, by rfl, by rfl⟩, List.getElem?_eq_getElem hlt⟩, by decide⟩
  obtain ⟨s, i, hx, hf⟩ := hx
  have hq : (performAll {} makesNote).Unanswered 0 (.set Note.metadataField tagged.toValue) := by
    unfold Unanswered
    decide +kernel
  have hq' : ((performAll {} makesNote).run 0
      (.set Note.metadataField tagged.toValue)).2.Unanswered 0 .commit := by
    unfold Unanswered
    decide +kernel
  have hok : (((performAll {} makesNote).run 0
      (.set Note.metadataField tagged.toValue)).2.run 0 .commit).1 =
        .ok (.committed .inserted) := by rfl
  have hname : (annotate makesNote).mapNames.lookup "notes" = some 0 := by rfl
  have hrecord : (annotate makesNote).handle? "note" = some 0 := by rfl
  have hname' : ((annotate makesNote).perform (.release "notes" "note")).2.mapNames.lookup
      "notes" = some 0 := by rfl
  have hnote : ∃ s, Note.draft.build = .ok s ∧
      ⟨Note.metadataField, .blob, false⟩ ∈ (handedNote s).schema.fields ∧
      (handedNote s).get Note.metadataField = .ok (.text "a") :=
    ⟨_, by rfl, by decide, by rfl⟩
  obtain ⟨t, ht, hft, htext⟩ := hnote
  obtain ⟨hvalue, hlived, hrun⟩ := structured_of_run (.array [.integer (-7)]) tagged
  obtain ⟨changed, e, hset, hwritten, -⟩ := hlived (handedNote t) ⟨_, t, _, _, _, ht, rfl⟩ hft
  obtain ⟨-, j', hj', -, hsame⟩ := hvalue hkeeps
  rw [hsame hordered] at hj'
  obtain ⟨b, -, hsurvives⟩ := hrun boots_empty ha hc (prepared_empty _ _) hx hf hq
  obtain ⟨-, hreturns⟩ := hsurvives.committed hq' hok
  obtain ⟨hreleased, hloads⟩ := hreturns (fun _ => trivial) hname (by rfl) hrecord (by rfl)
    (unrefused_of_outage (by rfl) 0)
  obtain ⟨r', j, hload, hj, hmetadata⟩ := hloads none hname'
  refine ⟨hj', ⟨t, ht, htext, ?_⟩, hreleased, r', j, hload, hj.record, hmetadata⟩
  rw [hset]
  exact hwritten

/-- A program that asks for a note by a key that nothing was ever stored under. -/
def makesUpNote : List Action :=
  [.openStore "store" .inMemory, .registerType "store" Note.draft "notes",
    .withId "notes" (.ofOrdinal 1) (some "note")]

/-- The commit of its metadata succeeds, and there is no note to load. -/
theorem annotate_makesUpNote : Boots {} ∧ Follows (Action.Private 0) {} makesUpNote ∧
    (performAll {} makesUpNote).SoleWriter 0 0 ∧ (performAll {} makesUpNote).Prepared 0 {} ∧
    (∃ s i, (performAll {} makesUpNote).Finds 0 s (.ofOrdinal 1) 0 i ∧
      ⟨Note.metadataField, .blob, false⟩ ∈ s.fields) ∧
    (performAll {} makesUpNote).Unanswered 0 (.set Note.metadataField tagged.toValue) ∧
    ((performAll {} makesUpNote).run 0
      (.set Note.metadataField tagged.toValue)).2.Unanswered 0 .commit ∧
    (((performAll {} makesUpNote).run 0
      (.set Note.metadataField tagged.toValue)).2.run 0 .commit).1 =
        .ok (.committed (.updated [Note.metadataField])) ∧
    (annotate makesUpNote).Unrefused 0 ∧
    ((annotate makesUpNote).perform (.release "notes" "note")).1 = .ok (.flag true) ∧
    (((annotate makesUpNote).perform (.release "notes" "note")).2.perform
      (.load "notes" (.ofOrdinal 1) none)).1 = .ok (.found none) := by
  have hlt : 0 < (performAll {} makesUpNote).records.length := by decide
  exact ⟨boots_empty, ⟨⟨rfl, id⟩, ⟨rfl, id⟩, ⟨rfl, id⟩, trivial⟩,
    soleWriter_of_single (n := ["title", "metadata", "PARENT_Note_ID"]) (by rfl) (by rfl)
      (by decide),
    prepared_empty _ _,
    ⟨_, _, ⟨⟨0, _, by rfl, by rfl, by rfl, by rfl⟩, List.getElem?_eq_getElem hlt⟩, by decide⟩,
    by rfl, by rfl, by rfl, unrefused_of_outage (by rfl) 0, by rfl, by rfl⟩

end Workspace

end LiveRecords
