import Mathlib.Data.List.Nodup
import LiveRecords.Role
import LiveRecords.Proofs.Drafting

/-!
# Roles and their names

Whoever declares a record type names its fields; the other roles have names of their
own. A name is looked up among all of them, the fields first, and a field may be
named like another role: then the field is found in its place.
-/

namespace LiveRecords

namespace Role

theorem mem_ofSchema {s : Schema} {r : Role} :
    r ∈ ofSchema s ↔ (∃ name ∈ s.fieldNames, r = .field name) ∨
      (s.parentColumn.isSome = true ∧ r = .children) ∨ r = .record := by
  rw [ofSchema, List.append_assoc, List.mem_append, List.mem_append, List.mem_map]
  refine or_congr (by simp only [eq_comm]) (or_congr ?_ List.mem_singleton)
  split <;> simp_all

/-- A role whose name a field has as well. -/
def Hidden (s : Schema) (r : Role) : Prop :=
  (∀ name, r ≠ .field name) ∧ r.name ∈ s.fieldNames

theorem not_hidden_field (s : Schema) (name : String) : ¬Hidden s (.field name) :=
  fun h => h.1 name rfl

/-! ## Looking a name up -/

theorem named?_some {s : Schema} {name : String} {r : Role} (h : named? s name = some r) :
    r ∈ ofSchema s ∧ r.name = name :=
  ⟨List.mem_of_find?_eq_some h, by simpa using List.find?_some h⟩

theorem named?_eq_none {s : Schema} {name : String} :
    named? s name = none ↔ ∀ r ∈ ofSchema s, r.name ≠ name := by
  simp only [named?, List.find?_eq_none, beq_iff_eq, ne_eq]

/-- The fields stand first, so that a field is always found. -/
theorem named?_field {s : Schema} {name : String} (h : name ∈ s.fieldNames) :
    named? s name = some (.field name) := by
  rw [named?, ofSchema, List.append_assoc, List.find?_append]
  cases hf : (s.fieldNames.map Role.field).find? fun r => r.name == name with
  | none => exact absurd (List.find?_eq_none.mp hf _ (List.mem_map_of_mem h)) (by simp [Role.name])
  | some r =>
    obtain ⟨found, -, rfl⟩ := List.mem_map.mp (List.mem_of_find?_eq_some hf)
    obtain rfl : found = name := by simpa [Role.name] using List.find?_some hf
    rfl

/-- The roles besides the fields have different names. -/
theorem eq_of_name_eq {r r' : Role} (h : ∀ name, r ≠ .field name)
    (h' : ∀ name, r' ≠ .field name) (hname : r.name = r'.name) : r = r' := by
  cases r <;> cases r' <;> simp_all [Role.name]

/-- A name leads back to the role that has it, unless it leads to a field. -/
theorem named?_name_iff {s : Schema} {r : Role} (h : r ∈ ofSchema s) :
    named? s r.name = some r ↔ ¬Hidden s r := by
  constructor
  · intro hfound hhidden
    rw [named?_field hhidden.2] at hfound
    exact hhidden.1 r.name (Option.some.inj hfound).symm
  · intro hseen
    by_cases hfield : r.name ∈ s.fieldNames
    · have hr : ∃ name, r = .field name := by
        by_contra hno
        exact hseen ⟨not_exists.mp hno, hfield⟩
      obtain ⟨name, rfl⟩ := hr
      exact named?_field hfield
    · cases hfound : named? s r.name with
      | none => exact absurd rfl (named?_eq_none.mp hfound r h)
      | some found =>
        obtain ⟨hmem, hname⟩ := named?_some hfound
        -- neither is a field, for a field would have the name
        have hother : ∀ x ∈ ofSchema s, x.name = r.name → ∀ name, x ≠ .field name := by
          rintro x hx hxname name rfl
          obtain ⟨_, hin, hx⟩ | ⟨-, hx⟩ | hx := mem_ofSchema.mp hx <;> cases hx
          exact hfield (hxname ▸ hin)
        exact congrArg some (eq_of_name_eq (hother _ hmem hname) (hother r h rfl) hname)

/-! ## Distinct names -/

theorem ofSchema_nodup {s : Schema} (h : s.fieldNames.Nodup) : (ofSchema s).Nodup := by
  rw [ofSchema, List.append_assoc]
  refine List.nodup_append.mpr ⟨h.map fun a b hab => Role.field.inj hab, ?_, ?_⟩
  · split <;> decide
  · rintro r hr r' hr' rfl
    obtain ⟨name, -, rfl⟩ := List.mem_map.mp hr
    split at hr' <;> simp at hr'

/-- Names that tell the roles apart are names that lead back to them. -/
theorem names_nodup_iff {s : Schema} (h : s.fieldNames.Nodup) :
    ((ofSchema s).map name).Nodup ↔ ∀ r ∈ ofSchema s, ¬Hidden s r := by
  constructor
  · intro hdistinct r hr hhidden
    have hfield : Role.field r.name ∈ ofSchema s := mem_ofSchema.mpr (.inl ⟨_, hhidden.2, rfl⟩)
    exact hhidden.1 r.name (List.inj_on_of_nodup_map hdistinct hr hfield rfl)
  · intro hseen
    refine (ofSchema_nodup h).map_on fun r hr r' hr' hname => ?_
    have hr := (named?_name_iff hr).mpr (hseen r hr)
    have hr' := (named?_name_iff hr').mpr (hseen r' hr')
    rw [hname, hr'] at hr
    exact (Option.some.inj hr).symm

theorem not_hidden_iff {s : Schema} :
    (∀ r ∈ ofSchema s, ¬Hidden s r) ↔
      "record" ∉ s.fieldNames ∧ (s.parentColumn.isSome = true → "children" ∉ s.fieldNames) := by
  constructor
  · intro hseen
    refine ⟨fun hin => ?_, fun hparent hin => ?_⟩
    · exact hseen .record (record_mem_ofSchema s) ⟨nofun, hin⟩
    · exact hseen .children (mem_ofSchema.mpr (.inr (.inl ⟨hparent, rfl⟩))) ⟨nofun, hin⟩
  · rintro ⟨hrecord, hchildren⟩ r hr ⟨hother, hin⟩
    obtain ⟨name, -, rfl⟩ | ⟨hparent, rfl⟩ | rfl := mem_ofSchema.mp hr
    · exact hother name rfl
    · exact hchildren hparent hin
    · exact hrecord hin

/-- In a record type that is accepted, the name of a role leads back to the role unless
a field has that name as well; then it leads to the field. All names of roles differ,
and so lead back, exactly if no field is named `record`, and none `children` where
rows have parents. A name that no role has leads nowhere. -/
theorem named_of_build {d : Draft} {s : Schema} (h : d.build = .ok s) :
    (∀ r ∈ ofSchema s, named? s r.name = some r ↔ ¬Hidden s r) ∧
      (∀ r ∈ ofSchema s, Hidden s r → named? s r.name = some (.field r.name)) ∧
      (((ofSchema s).map name).Nodup ↔
        "record" ∉ s.fieldNames ∧ (s.parentColumn.isSome = true → "children" ∉ s.fieldNames)) ∧
      ∀ text, named? s text = none ↔ ∀ r ∈ ofSchema s, r.name ≠ text := by
  have hfields : s.fieldNames.Nodup := by
    have husable := Draft.build_ok_iff.mp ⟨s, h⟩
    rw [Draft.build_eq_ok h]
    exact husable.nodup
  refine ⟨fun r hr => named?_name_iff hr, fun r _ hhidden => named?_field hhidden.2, ?_,
    fun text => named?_eq_none⟩
  rw [names_nodup_iff hfields, not_hidden_iff]

/-- Notes with a field that is named like a role. -/
def recording : Draft :=
  { table := "Note", fields := [⟨"title", .text, true⟩, ⟨"record", .text, false⟩] }

theorem recording_build : recording.build = .ok ⟨"Note", recording.fields, none⟩ := by decide

/-- The title is found by its name; under the name of the record stands the field. -/
theorem named_recording :
    recording.build = .ok ⟨"Note", recording.fields, none⟩ ∧
      named? ⟨"Note", recording.fields, none⟩ "title" = some (.field "title") ∧
      named? ⟨"Note", recording.fields, none⟩ "record" = some (.field "record") := by
  obtain ⟨hback, hfield, -⟩ := named_of_build recording_build
  refine ⟨recording_build, (hback (.field "title") (by decide)).mpr (not_hidden_field _ _), ?_⟩
  exact hfield .record (record_mem_ofSchema _) ⟨nofun, by decide⟩

/-- A field named `record` is accepted; two roles then have that name, and it does not
lead back to the record. -/
theorem record_hidden :
    recording.build = .ok ⟨"Note", recording.fields, none⟩ ∧
      ¬((ofSchema ⟨"Note", recording.fields, none⟩).map name).Nodup ∧
      Role.record ∈ ofSchema ⟨"Note", recording.fields, none⟩ ∧
      named? ⟨"Note", recording.fields, none⟩ Role.record.name ≠ some .record := by
  refine ⟨recording_build, by decide, by decide, by decide⟩

end Role

end LiveRecords
