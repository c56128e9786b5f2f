import LiveRecords.Proofs.Reading
import LiveRecords.Proofs.Statements

/-!
# Selections

All keys that a filter selects, as one statement gives them, and the pages that
further statements give: a page is a stretch of the whole. Where `rowid` means
the row number and no condition refuses a row, the whole does not depend on the
columns that are asked for: it is the rows in which all conditions are true, in
the order of their numbers.
-/

namespace LiveRecords

open Table (Cell Expression Refusal Row Scope)
open Table.Plan (Conjunct)

namespace Table

variable {t : Table} {k : Clause} {ks : List Conjunct} {rows found : List Row}

/-! ## Conditions that are not refused -/

theorem eval_ofWord (s : Scope) (word : String) :
    ∃ x, (Expression.ofWord word).eval s = .ok x := by
  unfold Expression.ofWord
  split
  · simp [Expression.eval]
  · simp [Expression.eval]

theorem eval_compare (s : Scope) (op : Comparison) (word : String) (v : Value) :
    ∃ x, (Expression.compare op (Expression.ofWord word) (.literal (.ofValue v))).eval s =
      .ok x := by
  obtain ⟨x, hx⟩ := eval_ofWord s word
  simp [Expression.compare, Expression.eval, hx, BinaryOp.isDecided]

theorem apply_like (collation : Collation) (pattern x : Cell) :
    Function.apply "like" collation [pattern, x] = Function.like pattern x none :=
  rfl

theorem eval_like (s : Scope) (word : String) {v : Value}
    (hv : (Cell.ofValue v).toOctets.length ≤ Pattern.maxOctets) :
    ∃ x, (Expression.like (Expression.ofWord word) (.literal (.ofValue v))).eval s = .ok x := by
  obtain ⟨x, hx⟩ := eval_ofWord s word
  have hlen : ¬Pattern.maxOctets < (Cell.ofValue v).toOctets.length := Nat.not_lt.mpr hv
  simp only [Expression.like, Expression.invoke, Arguments.ofList, Expression.eval,
    Arguments.eval, hx, apply_like]
  simp [Function.like, hlen]

/-- A condition comes to a truth value in every row. -/
theorem truth_ofTerm (s : Scope) {c : Term}
    (hc : ∀ column param v, c = .compare column .like param v →
      (Cell.ofValue v).toOctets.length ≤ Pattern.maxOctets) :
    ∃ b, (Expression.ofTerm c).truth s = .ok b := by
  have heval : ∃ x, (Expression.ofTerm c).eval s = .ok x := by
    cases c with
    | isNull word =>
      obtain ⟨x, hx⟩ := eval_ofWord s word
      simp [Expression.ofTerm, Expression.isNull, Expression.null, Expression.eval, hx,
        BinaryOp.isDecided]
    | isNotNull word =>
      obtain ⟨x, hx⟩ := eval_ofWord s word
      simp [Expression.ofTerm, Expression.isNotNull, Expression.null, Expression.eval, hx,
        BinaryOp.isDecided]
    | between word p lo q hi =>
      obtain ⟨x, hx⟩ := eval_compare s .greaterOrEqual word lo
      obtain ⟨y, hy⟩ := eval_compare s .lessOrEqual word hi
      simp only [Expression.ofTerm, Expression.between, Expression.eval, hx, hy]
      split
      · simp
      · simp
    | compare word op p v =>
      cases op with
      | like => exact eval_like s word (hc word p v rfl)
      | _ => exact eval_compare s _ word v
  obtain ⟨x, hx⟩ := heval
  exact ⟨x.truth, by simp [Expression.truth, hx, Except.map]⟩

/-- No condition is refused, whatever the row. -/
def Sure (s : Scope) (cs : List Term) : Prop :=
  ∀ c ∈ cs, ∃ b, (Expression.ofTerm c).truth s = .ok b

theorem sure_of_refusesNone (h : refusesNone k = true) (s : Scope) : Sure s k.terms := by
  intro c hc
  apply truth_ofTerm
  intro column param v hlike
  subst hlike
  simpa using List.all_eq_true.mp h _ hc

theorem holdsAny_ok {s : Scope} {cs : List Term} (h : Sure s cs) :
    ∃ b, holdsAny s cs = .ok b := by
  induction cs with
  | nil => exact ⟨false, rfl⟩
  | cons c cs ih =>
    obtain ⟨b, hb⟩ := h c (by simp)
    obtain ⟨b', hb'⟩ := ih fun d hd => h d (by simp [hd])
    simp only [holdsAny, hb, hb']
    by_cases htrue : b = some true
    · exact ⟨true, by simp [htrue, bind, Except.bind, pure, Except.pure]⟩
    · exact ⟨b', by simp [htrue, bind, Except.bind]⟩

theorem holdsConjunct_one {s : Scope} {c : Term} (h : Sure s [c]) :
    ∃ b, holdsConjunct s (.one c) = .ok b := by
  obtain ⟨b, hb⟩ := h c (by simp)
  exact ⟨decide (b = some true), by simp [holdsConjunct, hb, bind, Except.bind, pure, Except.pure]⟩

theorem holdsAll_ok {s : Scope} (h : ∀ c ∈ ks, ∃ b, holdsConjunct s c = .ok b) :
    ∃ b, holdsAll s ks = .ok b := by
  induction ks with
  | nil => exact ⟨true, rfl⟩
  | cons c ks ih =>
    obtain ⟨b, hb⟩ := h c (by simp)
    obtain ⟨b', hb'⟩ := ih fun d hd => h d (by simp [hd])
    simp only [holdsAll, hb, hb']
    cases b with
    | false => exact ⟨false, rfl⟩
    | true => exact ⟨b', rfl⟩

theorem holdsConjunct_ok {s : Scope} (h : Sure s k.terms) {c : Conjunct}
    (hc : c ∈ k.conjuncts) : ∃ b, holdsConjunct s c = .ok b := by
  unfold Clause.conjuncts at hc
  split at hc
  · next hterms =>
    simp only [List.mem_singleton] at hc
    subst hc
    rw [hterms] at h
    exact holdsAny_ok h
  · obtain ⟨d, hd, rfl⟩ := List.mem_map.mp hc
    apply holdsConjunct_one
    intro e he
    simp only [List.mem_singleton] at he
    subst he
    exact h e hd

theorem mem_of_mem_conjunctsWhere {settled : Bool} {c : Conjunct}
    (h : c ∈ t.conjunctsWhere ks settled) : c ∈ ks := by
  obtain ⟨⟨d, i⟩, hd, hc⟩ := List.mem_filterMap.mp h
  dsimp only at hc
  split at hc
  · cases hc
    exact List.fst_mem_of_mem_zipIdx hd
  · cases hc

theorem holdsAll_conjuncts {s : Scope} (h : Sure s k.terms) (t : Table) (settled : Bool) :
    ∃ b, holdsAll s (t.conjunctsWhere k.conjuncts settled) = .ok b :=
  holdsAll_ok fun _ hc => holdsConjunct_ok h (mem_of_mem_conjunctsWhere hc)

/-! ## The whole and its pages -/

/-- Whether conjuncts are all true, and none is refused. -/
def allTrue (s : Scope) (ks : List Conjunct) : Bool :=
  match holdsAll s ks with
  | .ok b => b
  | .error _ => false

/-- Whether all conditions of a filter are true in a row, those that are settled
before rows are read by what they come to then. -/
def selects (t : Table) (k : Clause) (r : Row) : Bool :=
  allTrue (t.settledScope (Plan.anchors t k.conjuncts)) (t.conjunctsWhere k.conjuncts true) &&
    allTrue (t.scope r) (t.conjunctsWhere k.conjuncts false)

/-- The rows in which all conditions of a filter are true. -/
def selection (t : Table) (k : Clause) : List Row := t.rows.filter (t.selects k)

/-- Where no row is refused, a scan cuts a page out of the rows that pass. -/
theorem scan_eq (h : ∀ r ∈ rows, ∃ b, holdsAll (t.scope r) ks = .ok b)
    (limit offset : Nat) :
    t.scan ks limit offset rows =
      (((rows.filter fun r => allTrue (t.scope r) ks).drop offset).take limit, none) := by
  induction rows generalizing limit offset with
  | nil => cases limit <;> simp [scan]
  | cons r rest ih =>
    have hrest := ih fun q hq => h q (by simp [hq])
    cases limit with
    | zero => simp [scan]
    | succ limit =>
      obtain ⟨b, hb⟩ := h r (by simp)
      have hpasses : allTrue (t.scope r) ks = b := by simp [allTrue, hb]
      simp only [scan, hb]
      cases b with
      | false => simp [hpasses, hrest]
      | true =>
        cases offset with
        | zero => simp [hpasses, hrest]
        | succ offset => simp [hpasses, hrest]

/-- A scan that came to the end of the rows went over every page. -/
theorem scan_cut {n : Nat} (h : t.scan ks n 0 rows = (found, none)) (hn : found.length < n)
    (limit offset : Nat) :
    t.scan ks limit offset rows = ((found.drop offset).take limit, none) := by
  induction rows generalizing n found limit offset with
  | nil =>
    cases n <;> cases limit <;> simp_all [scan]
  | cons r rest ih =>
    cases n with
    | zero => simp at hn
    | succ n =>
      unfold scan at h
      cases hr : holdsAll (t.scope r) ks with
      | error e => simp [hr] at h
      | ok b =>
        cases limit with
        | zero => simp [scan]
        | succ limit =>
          cases b with
          | false =>
            simp only [hr] at h
            simp [scan, hr, ih h hn]
          | true =>
            simp only [hr, Prod.mk.injEq] at h
            obtain ⟨rfl, hstop⟩ := h
            have hpage : t.scan ks n 0 rest = ((t.scan ks n 0 rest).1, none) := by rw [← hstop]
            have hshort : (t.scan ks n 0 rest).1.length < n := by simpa using hn
            cases offset with
            | zero => simp [scan, hr, ih hpage hshort limit 0]
            | succ offset => simp [scan, hr, ih hpage hshort (limit + 1) offset]

theorem plannedPage_cut {columns : List Nat} {n : Nat}
    (h : t.plannedPage ks columns n 0 = (found, none)) (hn : found.length < n)
    (limit offset : Nat) :
    t.plannedPage ks columns limit offset = ((found.drop offset).take limit, none) := by
  unfold plannedPage at h ⊢
  dsimp only at h ⊢
  split
  · next hsorted =>
    rw [if_pos hsorted] at h
    exact scan_cut h hn limit offset
  · next hsorted =>
    rw [if_neg hsorted] at h
    split at h
    · cases h
    · next rows hfound =>
      obtain ⟨hrows, -⟩ := Prod.mk.inj h
      have hall : t.inOrder rows = found := by
        rw [← hrows, List.drop_zero, List.take_of_length_le]
        rw [← hrows, List.drop_zero, List.length_take] at hn
        omega
      rw [hall]

/-- Every page is a stretch of the one that holds all rows. -/
theorem page_cut {columns : List Nat} {n : Nat} (h : t.page k columns n 0 = (found, none))
    (hn : found.length < n) (limit offset : Nat) :
    t.page k columns limit offset = ((found.drop offset).take limit, none) := by
  have hpos : n ≠ 0 := by omega
  unfold page at h ⊢
  dsimp only at h ⊢
  rw [if_neg hpos] at h
  split
  · next hzero => simp [hzero]
  split
  · next hsettled => simp [hsettled] at h
  · next hsettled =>
    simp only [hsettled, Prod.mk.injEq] at h
    simp [← h.1]
  · next hsettled =>
    simp only [hsettled] at h
    split
    · next hnumber =>
      rw [if_pos hnumber] at h
      exact scan_cut h hn limit offset
    · next hnumber =>
      rw [if_neg hnumber] at h
      exact plannedPage_cut h hn limit offset

/-- Where `rowid` means the row number and no condition refuses a row, a page is a
stretch of the rows that are selected. -/
theorem page_eq (hnumber : t.meansNumber "rowid" = true) (hk : refusesNone k = true)
    (columns : List Nat) (limit offset : Nat) :
    t.page k columns limit offset = (((t.selection k).drop offset).take limit, none) := by
  have hsure := sure_of_refusesNone hk
  obtain ⟨b, hb⟩ := holdsAll_conjuncts
    (hsure (t.settledScope (Plan.anchors t k.conjuncts))) t true
  have hselects : t.selects k =
      fun r => b && allTrue (t.scope r) (t.conjunctsWhere k.conjuncts false) := by
    funext r
    simp [selects, allTrue, hb]
  unfold page
  dsimp only
  split
  · next hzero => simp [hzero]
  · rw [if_pos (by simp [hnumber, hk]), hb]
    cases b with
    | false =>
      have hnone : t.selection k = [] := by
        rw [selection, List.filter_eq_nil_iff]
        simp [hselects]
      simp [hnone]
    | true =>
      dsimp only
      rw [scan_eq fun r _ => holdsAll_conjuncts (hsure (t.scope r)) t false]
      simp [selection, hselects]

end Table

/-! ## Statements that differ in what they ask for -/

namespace Piece

/-- Whether the text can go on after a piece of a condition. -/
def isSound : Piece → Bool
  | .fixed _ => true
  | .table n | .column n => !Keyword.isReserved n
  | .operand n => !Keyword.isReserved n && !Keyword.opensCall n
  | .declared _ => false

/-- Whether a piece declares nothing. -/
def isPlain : Piece → Bool
  | .declared _ => false
  | _ => true

/-- What stands at the end of a text is no matter. -/
theorem fault?_eq_none {ps : List Piece} (hps : ps.all isPlain = true) (offset : Nat)
    (last : String) :
    (fault? offset (ps ++ [.fixed last])).isNone = ps.all isSound := by
  induction ps generalizing offset with
  | nil => rfl
  | cons p ps ih =>
    rw [List.all_cons, Bool.and_eq_true] at hps
    have hrest := fun n => ih hps.2 n
    have hword : ∀ n, ((wordAfter n (ps ++ [.fixed last])).isNone) = false := by
      intro n
      cases ps <;> rfl
    cases p with
    | fixed text => simpa [fault?, isSound] using hrest _
    | table n =>
      simp only [List.cons_append, fault?, List.all_cons, isSound]
      split <;> simp_all
    | column n =>
      simp only [List.cons_append, fault?, List.all_cons, isSound]
      split <;> simp_all
    | operand n =>
      simp only [List.cons_append, fault?, List.all_cons, isSound]
      split
      · simp_all
      · split <;> simp_all
    | declared n => simp [isPlain] at hps

theorem strayOperand?_isNone (known : String → Bool) (offset : Nat) (ps : List Piece) :
    (strayOperand? known offset ps).isNone = ps.all fun
      | .operand n => known n
      | _ => true := by
  induction ps generalizing offset with
  | nil => rfl
  | cons p ps ih =>
    cases p with
    | operand n =>
      simp only [strayOperand?, List.all_cons]
      split <;> simp_all
    | _ => simpa [strayOperand?] using ih _

theorem all_intersperse {p : Piece → Bool} {L : List (List Piece)} {sep : List Piece}
    (hL : ∀ l ∈ L, l.all p = true) (hsep : sep.all p = true) :
    (L.intersperse sep).flatten.all p = true := by
  induction L with
  | nil => rfl
  | cons a L ih =>
    cases L with
    | nil => simpa using hL a (by simp)
    | cons b L =>
      have hrest := ih fun l hl => hL l (by simp [hl])
      have ha := hL a (by simp)
      simp only [List.intersperse_cons_cons, List.flatten_cons, List.all_append, ha, hsep, hrest,
        Bool.and_self]

end Piece

namespace Schema

theorem conditionPieces_plain (k : Clause) : (conditionPieces k).all Piece.isPlain = true := by
  unfold conditionPieces
  split
  · rfl
  · have hall : ((k.terms.map fun t => [Piece.operand t.column, .fixed t.tail]).intersperse
        [.fixed k.join.separator]).flatten.all Piece.isPlain = true := by
      apply Piece.all_intersperse
      · intro l hl
        obtain ⟨c, -, rfl⟩ := List.mem_map.mp hl
        rfl
      · rfl
    simpa [Piece.isPlain] using hall

theorem fault?_selectPieces (s : Schema) (k : Clause) :
    (Piece.fault? 0 (s.selectPieces k)).isNone = (Piece.fault? 0 (s.keysPieces k)).isNone := by
  have hplain : (Piece.table s.table :: conditionPieces k).all Piece.isPlain = true := by
    simpa [Piece.isPlain] using conditionPieces_plain k
  have hfault := fun offset last => Piece.fault?_eq_none hplain offset last
  exact (hfault _ _).trans (hfault _ _).symm

theorem all_selectPieces (s : Schema) (k : Clause) {p : Piece → Bool}
    (hp : ∀ text, p (.fixed text) = true) :
    (s.selectPieces k).all p = (s.keysPieces k).all p := by
  simp [selectPieces, keysPieces, hp]

end Schema

/-! ## Pages of keys -/

namespace Database

variable {d : Database} {s : Schema} {k : Clause} {t : Table} {rows : List Row}
  {stop : Option Refusal}

theorem sprawls_keys (s : Schema) (k : Clause) (limit offset : Nat) :
    sprawls ⟨s, .selectKeys k limit offset⟩ k = sprawls ⟨s, .selectRows k⟩ k := by
  simp only [sprawls, foremost, Statement.pieces, Schema.fault?_selectPieces]

theorem textFault?_keys (s : Schema) (k : Clause) (limit offset : Nat) :
    (textFault? ⟨s, .selectKeys k limit offset⟩).isNone =
      (textFault? ⟨s, .selectRows k⟩).isNone := by
  simp [textFault?, Statement.pieces, Schema.fault?_selectPieces]

theorem strayOperand?_keys (known : String → Bool) (s : Schema) (k : Clause) :
    (Piece.strayOperand? known 0 (s.keysPieces k)).isNone =
      (Piece.strayOperand? known 0 (s.selectPieces k)).isNone := by
  rw [Piece.strayOperand?_isNone, Piece.strayOperand?_isNone,
    Schema.all_selectPieces s k fun _ => rfl]

/-- What a statement that can be run asks of its table. -/
structure Asks (d : Database) (q : Statement) (k : Clause) (t : Table) : Prop where
  brief : sprawls q k = false
  fault : textFault? q = none
  table : d.table? q.schema.table = some t
  known : Piece.strayOperand? t.knows 0 q.pieces = none

theorem Asks.keys (h : d.Asks ⟨s, .selectRows k⟩ k t) (limit offset : Nat) :
    d.Asks ⟨s, .selectKeys k limit offset⟩ k t where
  brief := by rw [sprawls_keys]; exact h.brief
  fault := by
    have hfault := textFault?_keys s k limit offset
    rw [h.fault] at hfault
    simpa using hfault
  table := h.table
  known := by
    have hknown := strayOperand?_keys t.knows s k
    have hrows : Piece.strayOperand? t.knows 0 (s.selectPieces k) = none := h.known
    rw [hrows] at hknown
    show Piece.strayOperand? t.knows 0 (s.keysPieces k) = none
    simpa using hknown

theorem Asks.keys_again {limit offset : Nat} (h : d.Asks ⟨s, .selectKeys k limit offset⟩ k t)
    (limit' offset' : Nat) : d.Asks ⟨s, .selectKeys k limit' offset'⟩ k t :=
  ⟨h.brief, h.fault, h.table, h.known⟩

theorem query_rows (h : d.Asks ⟨s, .selectRows k⟩ k t) (limit offset : Nat) :
    d.query ⟨s, .selectRows k⟩ k limit offset =
      .ok (t, t.page k (List.range t.columns.length) (min limit maxPage)
        (min offset maxPage)) := by
  have htarget : d.target ⟨s, .selectRows k⟩ = .ok t := target_of_none h.fault h.table
  simp [query, h.brief, htarget, h.known]

theorem query_keys {limit offset : Nat} (h : d.Asks ⟨s, .selectKeys k limit offset⟩ k t) :
    d.query ⟨s, .selectKeys k limit offset⟩ k limit offset =
      .ok (t, t.page k (t.columnIndex? keyColumn).toList (min limit maxPage)
        (min offset maxPage)) := by
  have htarget : d.target ⟨s, .selectKeys k limit offset⟩ = .ok t :=
    target_of_none h.fault h.table
  simp [query, h.brief, htarget, h.known]

theorem asks_of_query {q : Statement} {limit offset : Nat}
    (h : d.query q k limit offset = .ok (t, rows, stop)) : d.Asks q k t := by
  unfold query at h
  split at h
  · cases h
  next hbrief =>
  split at h
  · cases h
  next u htarget =>
  obtain ⟨hfault, htable⟩ := target_eq_ok htarget
  split at h
  · cases h
  next hknown =>
  obtain ⟨rfl, -⟩ := Prod.mk.inj (Except.ok.inj h)
  exact ⟨by simpa using hbrief, hfault, htable, hknown⟩

end Database

namespace Filter

/-- Whether no pattern is longer than a pattern may be. -/
def isBrief (f : Filter) : Bool := f.predicates.all fun
  | .compare _ .like v => (Cell.ofValue v).toOctets.length ≤ Table.Pattern.maxOctets
  | _ => true

theorem refusesNone_of_terms {ps : List Predicate} {used : List String} {cs : List Term}
    (h : terms used ps = .ok cs) {j : Join} (hps : (Filter.mk ps j).isBrief = true) (j' : Join) :
    Table.refusesNone ⟨cs, j'⟩ = true := by
  induction ps generalizing used cs with
  | nil =>
    cases h
    rfl
  | cons p ps ih =>
    simp only [isBrief, List.all_cons, Bool.and_eq_true] at hps
    unfold terms at h
    split at h
    · cases h
    next c named hterm =>
    split at h
    · cases h
    next rest hrest =>
    cases h
    have htail := ih hrest hps.2
    simp only [Table.refusesNone, List.all_cons, Bool.and_eq_true] at htail ⊢
    refine ⟨?_, htail⟩
    rw [Predicate.term_eq] at hterm
    split at hterm
    · cases hterm
    · dsimp only at hterm
      split at hterm
      · cases hterm
        rfl
      · cases hterm
        rfl
      · cases hterm
      · next op v _ _ _ _ =>
        cases hterm
        cases op with
        | like => exact hps.1
        | _ => rfl
      · cases hterm
      · cases hterm
      · cases hterm
        rfl

end Filter

theorem Link.refusesNone_of_clauseFor {s : Schema} {f : Filter} {k : Clause}
    (h : Link.clauseFor s f = .ok k) (hf : f.isBrief = true) : Table.refusesNone k = true := by
  unfold Link.clauseFor at h
  split at h
  · cases h
  split at h
  · next k' hk =>
    cases h
    unfold Filter.clause at hk
    split at hk
    · next hterms =>
      cases hk
      exact Filter.refusesNone_of_terms hterms hf _
    · cases hk
  · cases h

theorem RowImage.idOfRow_of_ofRow {s : Schema} {t : Table} {r : Row} {x : RowImage}
    (h : RowImage.ofRow s t r = .ok x) : RowImage.idOfRow s t r = .ok x.id := by
  unfold RowImage.ofRow at h
  obtain ⟨c, hc, h⟩ := bind_eq_ok.mp h
  obtain ⟨id, hid, h⟩ := bind_eq_ok.mp h
  obtain ⟨parent, -, h⟩ := bind_eq_ok.mp h
  obtain ⟨values, -, h⟩ := bind_eq_ok.mp h
  cases h
  unfold RowImage.cellNamed at hc
  split at hc
  · cases hc
    exact hid
  · cases hc

namespace Link

variable {d : Database} {l : Link} {s : Schema} {f : Filter} {k : Clause} {t : Table}
  {rows : List Row} {ids : List RecordId}

theorem decodeRows_none {α : Type} {decode : Row → Except StoreError α} {found : List α}
    (h : rows.map decode = found.map .ok) : decodeRows decode none rows = .ok found := by
  induction rows generalizing found with
  | nil =>
    cases found with
    | nil => rfl
    | cons a found => simp at h
  | cons r rows ih =>
    cases found with
    | nil => simp at h
    | cons a found =>
      simp only [List.map_cons, List.cons.injEq] at h
      simp [decodeRows, h.1, ih h.2, Except.map]

theorem stop_of_decodeRows {α : Type} {decode : Row → Except StoreError α}
    {stop : Option Refusal} {found : List α} (h : decodeRows decode stop rows = .ok found) :
    stop = none := by
  induction rows generalizing found with
  | nil =>
    cases stop with
    | none => rfl
    | some e => simp [decodeRows] at h
  | cons r rows ih =>
    unfold decodeRows at h
    split at h
    · cases h
    · obtain ⟨rest, hrest, -⟩ := map_eq_ok.mp h
      exact ih hrest

/-- The keys of all rows that a filter selects, as one statement gives them. -/
def allKeys (d : Database) (s : Schema) (f : Filter) : Except StoreError (List RecordId) :=
  match clauseFor s f with
  | .error e => .error e
  | .ok k =>
    read d ⟨s, .selectKeys k Database.maxPage 0⟩ k Database.maxPage 0 (RowImage.idOfRow s)

/-- The rows of which all keys are given. -/
structure Keys (d : Database) (s : Schema) (f : Filter) (ids : List RecordId) (k : Clause)
    (t : Table) (rows : List Row) : Prop where
  clause : clauseFor s f = .ok k
  asks : d.Asks ⟨s, .selectKeys k Database.maxPage 0⟩ k t
  page : t.page k (t.columnIndex? keyColumn).toList Database.maxPage 0 = (rows, none)
  ids : rows.map (RowImage.idOfRow s t) = ids.map .ok

theorem allKeys_eq_ok : allKeys d s f = .ok ids ↔ ∃ k t rows, Keys d s f ids k t rows := by
  constructor
  · intro h
    unfold allKeys at h
    split at h
    · cases h
    next k hk =>
    unfold read at h
    split at h
    · cases h
    next t rows stop hquery =>
    have hasks := Database.asks_of_query hquery
    rw [Database.query_keys hasks] at hquery
    have hpage := (Prod.mk.inj (Except.ok.inj hquery)).2
    have hstop := stop_of_decodeRows h
    subst hstop
    exact ⟨k, t, rows, hk, hasks, by simpa using hpage, decodeRows_eq_ok h⟩
  · rintro ⟨k, t, rows, h⟩
    simp only [allKeys, h.clause, read, Database.query_keys h.asks]
    rw [Nat.min_self, Nat.zero_min, h.page]
    exact decodeRows_none h.ids

/-- A page of keys is a stretch of all keys. -/
theorem read_keys (h : allKeys d s f = .ok ids) (hids : ids.length < Database.maxPage)
    (limit offset : Nat) :
    ∃ k, clauseFor s f = .ok k ∧
      read d ⟨s, .selectKeys k limit offset⟩ k limit offset (RowImage.idOfRow s) =
        .ok ((ids.drop offset).take limit) := by
  obtain ⟨k, t, rows, hkeys⟩ := allKeys_eq_ok.mp h
  have hlength : rows.length = ids.length := by simpa using congrArg List.length hkeys.ids
  have hpage := Table.page_cut hkeys.page (by omega) (min limit Database.maxPage)
    (min offset Database.maxPage)
  have hcut : (rows.drop (min offset Database.maxPage)).take (min limit Database.maxPage) =
      (rows.drop offset).take limit := by
    have hdrop : rows.drop (min offset Database.maxPage) = rows.drop offset := by
      rcases Nat.le_total offset Database.maxPage with hle | hle
      · rw [Nat.min_eq_left hle]
      · rw [Nat.min_eq_right hle, List.drop_of_length_le (by omega),
          List.drop_of_length_le (by omega)]
    rw [hdrop]
    rcases Nat.le_total limit Database.maxPage with hle | hle
    · rw [Nat.min_eq_left hle]
    · rw [Nat.min_eq_right hle, List.take_of_length_le (by simp; omega),
        List.take_of_length_le (by simp; omega)]
  refine ⟨k, hkeys.clause, ?_⟩
  simp only [read, Database.query_keys (hkeys.asks.keys_again limit offset)]
  rw [hpage, hcut]
  apply decodeRows_none
  rw [List.map_take, List.map_drop, hkeys.ids, List.map_take, List.map_drop]

theorem selectKeys_eq (h : allKeys l.database s f = .ok ids)
    (hids : ids.length < Database.maxPage) {offset limit : Nat} {page : List RecordId}
    (hpage : (l.selectKeys s f offset limit).1 = .ok page) :
    page = (ids.drop offset).take limit := by
  obtain ⟨k, hk, hread⟩ := read_keys h hids limit offset
  simp only [selectKeys, hk] at hpage
  have hpage' := read_of_query hpage
  rw [hread] at hpage'
  exact (Except.ok.inj hpage').symm

/-- Where no statement is refused for a reason of its own, every page is read. -/
theorem selectKeys_of_unrefused (h : allKeys l.database s f = .ok ids)
    (hids : ids.length < Database.maxPage) (hl : l.outage l.stats.total = none)
    (offset limit : Nat) :
    (l.selectKeys s f offset limit).1 = .ok ((ids.drop offset).take limit) := by
  obtain ⟨k, hk, hread⟩ := read_keys h hids limit offset
  simp [selectKeys, hk, query, hl, hread]

/-- All keys are those of the rows that one statement gives, where that gives the
rows in the order of their numbers and no pattern is too long. -/
theorem allKeys_of_selectWhere {images : List RowImage}
    (h : (l.selectWhere s f).1 = .ok images) (hf : f.isBrief = true)
    (hnumber : ∀ t, l.database.table? s.table = some t → t.meansNumber "rowid" = true) :
    allKeys l.database s f = .ok (images.map (·.id)) := by
  unfold selectWhere at h
  split at h
  · cases h
  next k hk =>
  have hread := read_of_query h
  unfold read at hread
  split at hread
  · cases hread
  next t rows stop hquery =>
  have hasks := Database.asks_of_query hquery
  rw [Database.query_rows hasks] at hquery
  have hstop := stop_of_decodeRows hread
  subst hstop
  have hpage := (Prod.mk.inj (Except.ok.inj hquery)).2
  rw [Table.page_eq (hnumber t hasks.table) (refusesNone_of_clauseFor hk hf)] at hpage
  refine allKeys_eq_ok.mpr ⟨k, t, rows, hk, hasks.keys _ _, ?_, ?_⟩
  · rw [Table.page_eq (hnumber t hasks.table) (refusesNone_of_clauseFor hk hf)]
    simpa using hpage
  · have hids : ∀ {r x}, RowImage.ofRow s t r = .ok x → RowImage.idOfRow s t r = .ok x.id :=
      RowImage.idOfRow_of_ofRow
    have hdecoded := decodeRows_eq_ok hread
    clear hpage hread hquery h
    induction rows generalizing images with
    | nil =>
      cases images with
      | nil => rfl
      | cons x images => simp at hdecoded
    | cons r rows ih =>
      cases images with
      | nil => simp at hdecoded
      | cons x images =>
        simp only [List.map_cons, List.cons.injEq] at hdecoded ⊢
        exact ⟨hids hdecoded.1, ih hdecoded.2⟩

end Link

end LiveRecords
