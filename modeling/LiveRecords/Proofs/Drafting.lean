import LiveRecords.Schema
import LiveRecords.Proofs.Lettering

/-!
# Which drafts are accepted

A draft is accepted if its names are identifiers, it has fields, and no two of
its columns, the key among them, go by one name. All that can be wrong with a
draft has a place in one order, and a draft that is refused is refused for what
comes first.
-/

namespace LiveRecords

open Text

/-- A letter or an underscore. -/
def IsNameStart (c : Char) : Prop := ('A' ≤ c ∧ c ≤ 'Z') ∨ ('a' ≤ c ∧ c ≤ 'z') ∨ c = '_'

/-- A letter, an underscore or a digit. -/
def IsNameRest (c : Char) : Prop := IsNameStart c ∨ ('0' ≤ c ∧ c ≤ '9')

/-- `[A-Za-z_][A-Za-z0-9_]*`, in no more than 128 octets. -/
structure IsIdentifier (s : String) : Prop where
  written : ∃ c cs, s.toList = c :: cs ∧ IsNameStart c ∧ ∀ d ∈ cs, IsNameRest d
  short : s.utf8ByteSize ≤ 128

/-- One name, but for the case of letters. -/
def SameName (a b : String) : Prop := SameLetters a.toList b.toList

theorem isNameStart_iff {c : Char} : isNameStart c = true ↔ IsNameStart c := by
  have hletter : c.isAlpha = (decide ('A'.val ≤ c.val ∧ c.val ≤ 'Z'.val) ||
      decide ('a'.val ≤ c.val) && decide (c.val ≤ 'z'.val)) := rfl
  simp only [isNameStart, IsNameStart, hletter, Bool.or_eq_true, Bool.and_eq_true,
    decide_eq_true_eq, beq_iff_eq, Char.le_def, or_assoc]

theorem isNameRest_iff {c : Char} : isNameRest c = true ↔ IsNameRest c := by
  have hdigit : c.isDigit = true ↔ '0' ≤ c ∧ c ≤ '9' := by
    simp only [Char.isDigit, Bool.and_eq_true, decide_eq_true_eq, Char.le_def, ge_iff_le]
  rw [IsNameRest, ← isNameStart_iff, ← hdigit]
  simp only [isNameRest, isNameStart, Char.isAlphanum, Bool.or_eq_true]
  exact or_right_comm

theorem isName_iff {s : String} : isName s = true ↔ IsIdentifier s := by
  unfold isName
  cases hs : s.toList with
  | nil =>
    refine ⟨fun h => (Bool.false_ne_true h).elim, fun h => ?_⟩
    obtain ⟨c, cs, hc, -⟩ := h.written
    rw [hs] at hc
    cases hc
  | cons c cs =>
    simp only [Bool.and_eq_true, decide_eq_true_eq, List.all_eq_true, isNameStart_iff,
      isNameRest_iff]
    constructor
    · rintro ⟨⟨hshort, hc⟩, hcs⟩
      exact ⟨⟨c, cs, hs, hc, hcs⟩, hshort⟩
    · rintro ⟨⟨d, ds, hd, hc, hcs⟩, hshort⟩
      rw [hs] at hd
      cases hd
      exact ⟨⟨hshort, hc⟩, hcs⟩

theorem sameName_iff {a b : String} : sameName a b = true ↔ SameName a b := by
  rw [sameName, beq_iff_eq, SameName, sameLetters_iff, foldCase, foldCase, String.ofList_inj]

namespace Draft

/-! ## Problems -/

/-- What may be wrong with a column, given those before it, with its place among
what may be wrong with this column. -/
inductive ColumnProblem (earlier : List String) (name : String) : Nat → SchemaError → Prop
  | identifier (h : ¬IsIdentifier name) : ColumnProblem earlier name 0 (.invalidField name)
  | reserved (h : SameName name keyColumn) : ColumnProblem earlier name 1 (.reservedColumn name)
  | duplicate {other : String} (h : other ∈ earlier) (hsame : SameName name other) :
    ColumnProblem earlier name 2 (.duplicateField name)

/-- What may be wrong with columns, one after another. -/
inductive ColumnsProblem : List String → List String → Nat → SchemaError → Prop
  | here {earlier later : List String} {name : String} {k : Nat} {e : SchemaError}
    (h : ColumnProblem earlier name k e) : ColumnsProblem earlier (name :: later) k e
  | later {earlier later : List String} {name : String} {k : Nat} {e : SchemaError}
    (h : ColumnsProblem (name :: earlier) later k e) :
    ColumnsProblem earlier (name :: later) (3 + k) e

/-- What may be wrong with a draft, with its place among all that may be: the name
of the table, then that there are no fields, then the columns in their order. -/
inductive Problem (d : Draft) : Nat → SchemaError → Prop
  | table (h : ¬IsIdentifier d.table) : Problem d 0 (.invalidTable d.table)
  | fields (h : d.fields = []) : Problem d 1 .noFields
  | columns {k : Nat} {e : SchemaError} (h : ColumnsProblem [] d.columnNames k e) :
    Problem d (2 + k) e

/-- The first of several problems. -/
def IsFirst (p : Nat → SchemaError → Prop) (e : SchemaError) : Prop :=
  ∃ k, p k e ∧ ∀ k' e', p k' e' → k ≤ k'

/-- A check passes if there is no problem, and reports the first if there is one. -/
def Reports (p : Nat → SchemaError → Prop) : Except SchemaError Unit → Prop
  | .ok _ => ∀ k e, ¬p k e
  | .error e => IsFirst p e

theorem checkColumn_reports (seen : List String) (name : String) :
    Reports (ColumnProblem seen name) (checkColumn seen name) := by
  unfold checkColumn
  split
  · next h =>
    have hname : ¬IsIdentifier name := by
      rw [← isName_iff]
      simpa using h
    exact ⟨0, .identifier hname, fun _ _ _ => Nat.zero_le _⟩
  next hname =>
  have hname : IsIdentifier name := isName_iff.mp (by simpa using hname)
  split
  · next hkey =>
    refine ⟨1, .reserved (sameName_iff.mp hkey), fun k e h => ?_⟩
    cases h with
    | identifier hno => exact absurd hname hno
    | reserved => exact Nat.le_refl 1
    | duplicate => exact Nat.le_succ 1
  next hkey =>
  have hkey : ¬SameName name keyColumn := fun h => hkey (sameName_iff.mpr h)
  split
  · next hseen =>
    obtain ⟨other, hmem, hsame⟩ := List.any_eq_true.mp hseen
    refine ⟨2, .duplicate hmem (sameName_iff.mp hsame), fun k e h => ?_⟩
    cases h with
    | identifier hno => exact absurd hname hno
    | reserved h => exact absurd h hkey
    | duplicate => exact Nat.le_refl 2
  · next hseen =>
    rintro k e (hno | h | ⟨hmem, hsame⟩)
    · exact hno hname
    · exact hkey h
    · exact hseen (List.any_eq_true.mpr ⟨_, hmem, sameName_iff.mpr hsame⟩)

/-- What is wrong with one column has a place before the next. -/
theorem ColumnProblem.lt {earlier : List String} {name : String} {k : Nat} {e : SchemaError}
    (h : ColumnProblem earlier name k e) : k < 3 := by
  cases h <;> decide

theorem checkColumns_reports (seen names : List String) :
    Reports (ColumnsProblem seen names) (checkColumns seen names) := by
  induction names generalizing seen with
  | nil => rintro k e ⟨⟩
  | cons name names ih =>
    have hfirst := checkColumn_reports seen name
    rw [checkColumns]
    cases hcheck : checkColumn seen name with
    | error e =>
      rw [hcheck] at hfirst
      obtain ⟨k, hk, hleast⟩ := hfirst
      refine ⟨k, .here hk, fun k' e' h => ?_⟩
      cases h with
      | here h => exact hleast k' e' h
      | later h => exact Nat.le_trans (Nat.le_of_lt hk.lt) (Nat.le_add_right 3 _)
    | ok =>
      rw [hcheck] at hfirst
      have hrest := ih (name :: seen)
      cases hnames : checkColumns (name :: seen) names with
      | error e =>
        rw [hnames] at hrest
        obtain ⟨k, hk, hleast⟩ := hrest
        refine ⟨3 + k, .later hk, fun k' e' h => ?_⟩
        cases h with
        | here h => exact (hfirst _ _ h).elim
        | later h => exact Nat.add_le_add_left (hleast _ _ h) 3
      | ok =>
        rw [hnames] at hrest
        intro k e h
        cases h with
        | here h => exact hfirst _ _ h
        | later h => exact hrest _ _ h

theorem build_reports (d : Draft) : Reports d.Problem (d.build.map fun _ => ()) := by
  unfold build
  split
  · next h =>
    have htable : ¬IsIdentifier d.table := by
      rw [← isName_iff]
      simpa using h
    exact ⟨0, .table htable, fun _ _ _ => Nat.zero_le _⟩
  next htable =>
  have htable : IsIdentifier d.table := isName_iff.mp (by simpa using htable)
  split
  · next hfields =>
    refine ⟨1, .fields (List.isEmpty_iff.mp hfields), fun k e h => ?_⟩
    cases h with
    | table hno => exact absurd htable hno
    | fields => exact Nat.le_refl 1
    | columns => omega
  next hfields =>
  have hfields : d.fields ≠ [] := fun h => hfields (List.isEmpty_iff.mpr h)
  have hcolumns := checkColumns_reports [] d.columnNames
  cases hcheck : checkColumns [] d.columnNames with
  | error e =>
    rw [hcheck] at hcolumns
    obtain ⟨k, hk, hleast⟩ := hcolumns
    refine ⟨2 + k, .columns hk, fun k' e' h => ?_⟩
    cases h with
    | table hno => exact absurd htable hno
    | fields hno => exact absurd hno hfields
    | columns h => exact Nat.add_le_add_left (hleast _ _ h) 2
  | ok =>
    rw [hcheck] at hcolumns
    rintro k e (hno | hno | h)
    · exact hno htable
    · exact hfields hno
    · exact hcolumns _ _ h

/-! ## Acceptance -/

/-- A draft that makes a record type. -/
structure Usable (d : Draft) : Prop where
  table : IsIdentifier d.table
  fields : d.fields ≠ []
  columns : ∀ n ∈ d.columnNames, IsIdentifier n
  distinct : (keyColumn :: d.columnNames).Pairwise fun a b => ¬SameName b a

theorem columns_sound_iff {seen names : List String} :
    (∀ k e, ¬ColumnsProblem seen names k e) ↔
      (∀ n ∈ names, IsIdentifier n ∧ ¬SameName n keyColumn ∧ ∀ m ∈ seen, ¬SameName n m) ∧
        names.Pairwise fun a b => ¬SameName b a := by
  induction names generalizing seen with
  | nil => exact ⟨fun _ => ⟨by simp, .nil⟩, fun _ k e h => by cases h⟩
  | cons name names ih =>
    constructor
    · intro h
      obtain ⟨hrest, hpair⟩ := ih.mp fun k e hk => h _ _ (.later hk)
      refine ⟨fun n hn => ?_, List.pairwise_cons.mpr ⟨fun n hn => ?_, hpair⟩⟩
      · rcases List.mem_cons.mp hn with rfl | hn
        · exact ⟨by_contra fun hno => h _ _ (.here (.identifier hno)),
            fun hkey => h _ _ (.here (.reserved hkey)),
            fun m hm hsame => h _ _ (.here (.duplicate hm hsame))⟩
        · obtain ⟨hname, hkey, hseen⟩ := hrest n hn
          exact ⟨hname, hkey, fun m hm => hseen m (List.mem_cons_of_mem _ hm)⟩
      · exact (hrest n hn).2.2 name List.mem_cons_self
    · rintro ⟨hall, hpair⟩ k e h
      obtain ⟨hbefore, hpair⟩ := List.pairwise_cons.mp hpair
      cases h with
      | here h =>
        obtain ⟨hname, hkey, hseen⟩ := hall name List.mem_cons_self
        cases h with
        | identifier hno => exact hno hname
        | reserved h => exact hkey h
        | duplicate hm hsame => exact hseen _ hm hsame
      | later h =>
        refine ih.mpr ⟨fun n hn => ?_, hpair⟩ _ _ h
        obtain ⟨hname, hkey, hseen⟩ := hall n (List.mem_cons_of_mem _ hn)
        refine ⟨hname, hkey, fun m hm => ?_⟩
        rcases List.mem_cons.mp hm with rfl | hm
        · exact hbefore n hn
        · exact hseen m hm

theorem usable_iff {d : Draft} : d.Usable ↔ ∀ k e, ¬d.Problem k e := by
  constructor
  · rintro h k e (hno | hno | hno)
    · exact hno h.table
    · exact h.fields hno
    · obtain ⟨hkey, hpair⟩ := List.pairwise_cons.mp h.distinct
      exact columns_sound_iff.mpr ⟨fun n hn => ⟨h.columns n hn, hkey n hn, by simp⟩, hpair⟩ _ _ hno
  · intro h
    obtain ⟨hall, hpair⟩ := columns_sound_iff.mp fun k e hk => h _ _ (.columns hk)
    exact ⟨by_contra fun hno => h _ _ (.table hno), fun hno => h _ _ (.fields hno),
      fun n hn => (hall n hn).1, List.pairwise_cons.mpr ⟨fun n hn => (hall n hn).2.1, hpair⟩⟩

/-! ## Uniqueness -/

/-- No two problems have one place. -/
theorem ColumnsProblem.unique {earlier names : List String} {k : Nat} {e e' : SchemaError}
    (h : ColumnsProblem earlier names k e) (h' : ColumnsProblem earlier names k e') : e = e' := by
  induction h with
  | here h =>
    cases h' with
    | here h' => cases h <;> cases h' <;> rfl
    | later h' => exact absurd h.lt (by omega)
  | @later _ _ _ k _ h ih =>
    generalize hk : 3 + k = n at h'
    cases h' with
    | here h' => exact absurd h'.lt (by omega)
    | later h' =>
      obtain rfl := Nat.add_left_cancel hk
      exact ih h'

theorem Problem.unique {d : Draft} {k : Nat} {e e' : SchemaError} (h : d.Problem k e)
    (h' : d.Problem k e') : e = e' := by
  generalize hk : k = n at h'
  cases h with
  | table | fields => cases h' <;> first | rfl | omega
  | columns h =>
    cases h' with
    | table | fields => omega
    | columns h' =>
      obtain rfl := Nat.add_left_cancel hk
      exact h.unique h'

theorem IsFirst.unique {d : Draft} {e e' : SchemaError} (h : IsFirst d.Problem e)
    (h' : IsFirst d.Problem e') : e = e' := by
  obtain ⟨k, hk, hleast⟩ := h
  obtain ⟨k', hk', hleast'⟩ := h'
  obtain rfl := Nat.le_antisymm (hleast k' e' hk') (hleast' k e hk)
  exact hk.unique hk'

theorem build_ok_iff {d : Draft} : (∃ s, d.build = .ok s) ↔ d.Usable := by
  have h := d.build_reports
  rw [usable_iff]
  cases hb : d.build with
  | ok s =>
    rw [hb] at h
    exact ⟨fun _ => h, fun _ => ⟨s, rfl⟩⟩
  | error e =>
    rw [hb] at h
    obtain ⟨k, hk, -⟩ := h
    exact ⟨fun ⟨_, hs⟩ => (by cases hs), fun hno => absurd hk (hno k e)⟩

theorem build_error_iff {d : Draft} {e : SchemaError} :
    d.build = .error e ↔ IsFirst d.Problem e := by
  have h := d.build_reports
  cases hb : d.build with
  | ok s =>
    rw [hb] at h
    exact ⟨fun hs => (by cases hs), fun ⟨k, hk, _⟩ => absurd hk (h k e)⟩
  | error e' =>
    rw [hb] at h
    exact ⟨fun he => Except.error.inj he ▸ h, fun he => congrArg _ (h.unique he)⟩

end Draft

/-! ## Positions -/

theorem Schema.fieldIndex?_iff {s : Schema} (h : s.fieldNames.Nodup) {name : String} {i : Nat} :
    s.fieldIndex? name = some i ↔ s.fieldNames[i]? = some name := by
  rw [fieldIndex?, List.findIdx?_eq_some_iff_getElem, fieldNames, List.getElem?_map,
    Option.map_eq_some_iff]
  constructor
  · rintro ⟨hlt, hname, -⟩
    exact ⟨_, List.getElem?_eq_getElem hlt, beq_iff_eq.mp hname⟩
  · rintro ⟨f, hf, rfl⟩
    obtain ⟨hlt, rfl⟩ := List.getElem?_eq_some_iff.mp hf
    refine ⟨hlt, beq_self_eq_true _, fun j hj hsame => ?_⟩
    have hj' : j < s.fieldNames.length := by
      rw [fieldNames, List.length_map]
      exact Nat.lt_trans hj hlt
    have hlt' : i < s.fieldNames.length := by rwa [fieldNames, List.length_map]
    have heq : s.fieldNames[j] = s.fieldNames[i] := by
      simpa [fieldNames] using beq_iff_eq.mp hsame
    exact List.pairwise_iff_getElem.mp h j i hj' hlt' hj heq

theorem Draft.Usable.nodup {d : Draft} (h : d.Usable) : (d.fields.map (·.name)).Nodup := by
  have hcolumns := (List.pairwise_cons.mp h.distinct).2
  refine (List.pairwise_append.mp hcolumns).1.imp fun {a b} hne heq => hne ?_
  rw [heq]
  exact SameLetters.refl _

/-- A draft makes a record type exactly if it is usable: its names are identifiers,
it has fields, and its columns and the key differ in more than the case of letters.
The record type is what was drafted, and a field and its position lead to each
other. A draft is refused for the first of its problems. -/
theorem Draft.build_exact (d : Draft) :
    ((∃ s, d.build = .ok s) ↔ d.Usable) ∧
      (∀ s, d.build = .ok s → s.table = d.table ∧ s.fields = d.fields ∧
        s.parentColumn = d.parentColumn ∧
        ∀ name i, s.fieldIndex? name = some i ↔ s.fieldNames[i]? = some name) ∧
      ∀ e, d.build = .error e ↔ IsFirst d.Problem e := by
  refine ⟨build_ok_iff, fun s hs => ?_, fun e => build_error_iff⟩
  have husable := build_ok_iff.mp ⟨s, hs⟩
  obtain rfl := build_eq_ok hs
  refine ⟨rfl, rfl, rfl, fun name i => Schema.fieldIndex?_iff ?_⟩
  exact husable.nodup

example : Draft.build
    { table := "Note"
      fields := [⟨"title", .text, true⟩, ⟨"Title", .blob, false⟩]
      parentColumn := some "id" } = .error (.duplicateField "Title") := by decide

end LiveRecords
