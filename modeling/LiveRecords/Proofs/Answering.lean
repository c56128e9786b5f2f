import LiveRecords.Proofs.Planning

/-!
# What a filter gives

A filter can be asked about a table if each of its predicates is written and about a
column that there is, and if there are not too many. Then it gives the rows that it
selects, whatever plan leads to them, and it fails only if a pattern is too long or a
row among them cannot be read.
-/

namespace LiveRecords

open Table (Cell Column Row Refusal)
open Table.Plan (Conjunct)

/-! ## Predicates that are written -/

namespace Predicate

variable {p : Predicate} {c : Term}

/-- Whether a predicate is written as a condition does not depend on those before it. -/
theorem exists_term_of_renders (h : p.Renders c) (used : List String) :
    ∃ c' named, p.term used = .ok (c', named) := by
  obtain ⟨used', named, h⟩ := h
  obtain ⟨hname, ⟨n, rfl, rfl⟩ | ⟨n, rfl, rfl⟩ | ⟨n, op, v, param, hv, rfl, rfl⟩ |
    ⟨n, lo, hi, low, high, hlo, hhi, rfl, rfl⟩⟩ := term_cases h
  · exact ⟨.isNull n, false, by simp [term_eq, hname]⟩
  · exact ⟨.isNotNull n, false, by simp [term_eq, hname]⟩
  · cases v with
    | null => exact absurd rfl hv
    | _ => cases op <;> exact ⟨_, true, by simp only [term_eq, hname]; rfl⟩
  · cases lo with
    | null => exact absurd rfl hlo
    | _ =>
      cases hi with
      | null => exact absurd rfl hhi
      | _ => exact ⟨_, true, by simp only [term_eq, hname]; rfl⟩

/-- A predicate with a name for a column, and with a null only where it asks for one. -/
def IsWritten (p : Predicate) : Prop := ∃ c, p.Renders c

end Predicate

theorem Filter.exists_terms {ps : List Predicate} (h : ∀ p ∈ ps, p.IsWritten)
    (used : List String) : ∃ cs, terms used ps = .ok cs := by
  induction ps generalizing used with
  | nil => exact ⟨[], rfl⟩
  | cons p ps ih =>
    obtain ⟨c, hc⟩ := h p (by simp)
    obtain ⟨c', named, hterm⟩ := Predicate.exists_term_of_renders hc used
    obtain ⟨cs, hcs⟩ := ih (fun q hq => h q (by simp [hq]))
      (if named then p.placeholder :: used else used)
    exact ⟨c' :: cs, by simp [terms, hterm, hcs]⟩

/-! ## Statements that ask them -/

/-- A condition on a name can be asked about a table. -/
def Table.Admits (t : Table) (name : String) : Prop :=
  (Piece.operand name).isSound = true ∧ t.knows name = true

theorem Schema.all_conditionPieces {p : Piece → Bool} (hp : ∀ text, p (.fixed text) = true)
    (k : Clause) :
    (conditionPieces k).all p = k.terms.all fun c => p (.operand c.column) := by
  have hall : ∀ cs : List Term,
      ((cs.map fun c => [Piece.operand c.column, .fixed c.tail]).intersperse
        [.fixed k.join.separator]).flatten.all p = cs.all fun c => p (.operand c.column) := by
    intro cs
    induction cs with
    | nil => rfl
    | cons c cs ih =>
      cases cs with
      | nil => simp [hp]
      | cons d cs =>
        simp only [List.map_cons, List.intersperse_cons_cons, List.flatten_cons,
          List.all_append] at ih ⊢
        rw [ih]
        simp [hp]
  unfold conditionPieces
  split
  · next hempty =>
    rw [Clause.isEmpty, List.isEmpty_iff] at hempty
    simp [hempty]
  · rw [List.all_cons, hp, Bool.true_and, hall]

namespace Database

variable {d : Database} {s : Schema} {k : Clause} {t : Table}

theorem fault?_select (s : Schema) (k : Clause) :
    (Piece.fault? 0 (s.selectPieces k)).isNone =
      (!Keyword.isReserved s.table && k.terms.all fun c => (Piece.operand c.column).isSound) := by
  have hplain : (Piece.table s.table :: Schema.conditionPieces k).all Piece.isPlain = true := by
    simpa [Piece.isPlain] using Schema.conditionPieces_plain k
  have hfault := Piece.fault?_eq_none hplain
  rw [List.all_cons, Schema.all_conditionPieces fun _ => rfl] at hfault
  exact hfault _ _

/-- What a statement asks that reads rows. -/
theorem asks_iff : d.Asks ⟨s, .selectRows k⟩ k t ↔
    Keyword.isReserved s.table = false ∧ k.terms.length ≤ maxConditions ∧
      d.table? s.table = some t ∧ ∀ c ∈ k.terms, t.Admits c.column := by
  have hfault : textFault? ⟨s, .selectRows k⟩ = none ↔ Keyword.isReserved s.table = false ∧
      ∀ c ∈ k.terms, (Piece.operand c.column).isSound = true := by
    rw [← Option.isNone_iff_eq_none]
    have htext : (textFault? ⟨s, .selectRows k⟩).isNone =
        (Piece.fault? 0 (s.selectPieces k)).isNone := by
      simp [textFault?, Statement.pieces]
    rw [htext, fault?_select]
    simp
  have hknown : Piece.strayOperand? t.knows 0 (s.selectPieces k) = none ↔
      ∀ c ∈ k.terms, t.knows c.column = true := by
    rw [← Option.isNone_iff_eq_none, Piece.strayOperand?_isNone]
    simp [Schema.selectPieces, Schema.all_conditionPieces]
  have hsprawls : textFault? ⟨s, .selectRows k⟩ = none →
      (sprawls ⟨s, .selectRows k⟩ k = false ↔ k.terms.length ≤ maxConditions) := by
    intro hsound
    obtain ⟨htable, hcolumns⟩ := hfault.mp hsound
    have hfew : (Piece.fault? 0 (s.selectPieces
        { k with terms := k.terms.take (maxConditions + 1) })).isNone = true := by
      rw [fault?_select, htable]
      simp only [Bool.not_false, Bool.true_and, List.all_eq_true]
      intro c hc
      exact hcolumns c (List.mem_of_mem_take hc)
    simp only [sprawls, foremost, Statement.pieces, hfew, Bool.and_true, decide_eq_false_iff_not,
      Nat.not_lt]
  constructor
  · intro h
    have hcolumns := hfault.mp h.fault
    exact ⟨hcolumns.1, (hsprawls h.fault).mp h.brief, h.table, fun c hc =>
      ⟨hcolumns.2 c hc, hknown.mp h.known c hc⟩⟩
  · rintro ⟨htable, hfew, hd, hcolumns⟩
    have hsound := hfault.mpr ⟨htable, fun c hc => (hcolumns c hc).1⟩
    exact ⟨(hsprawls hsound).mpr hfew, hsound, hd, hknown.mpr fun c hc => (hcolumns c hc).2⟩

theorem Asks.eq_table {q : Statement} {t' : Table} (h : d.Asks q k t')
    (ht : d.table? q.schema.table = some t) : t' = t := by
  have htable := h.table
  rw [ht] at htable
  exact (Option.some.inj htable).symm

end Database

/-! ## Filters that are asked -/

/-- A filter can be asked about the table of a record type. -/
structure Link.Handles (s : Schema) (t : Table) (f : Filter) : Prop where
  table : Keyword.isReserved s.table = false
  few : f.predicates.length ≤ Database.maxConditions
  columns : ∀ p ∈ f.predicates, s.hasColumn p.column = true ∧ t.Admits p.column
  written : ∀ p ∈ f.predicates, p.IsWritten

namespace Link

variable {d : Database} {s : Schema} {f : Filter} {k : Clause} {t : Table}

theorem clause_of_clauseFor (h : clauseFor s f = .ok k) : f.clause = .ok k := by
  unfold clauseFor at h
  split at h
  · cases h
  · split at h
    · next hk =>
      cases h
      exact hk
    · cases h

theorem clauseFor_eq_ok (h : clauseFor s f = .ok k) :
    (∀ p ∈ f.predicates, s.hasColumn p.column = true) ∧ k.join = f.join ∧
      List.Forall₂ Predicate.Renders f.predicates k.terms := by
  obtain ⟨cs, hcs, rfl⟩ := Filter.clause_eq_ok.mp (clause_of_clauseFor h)
  refine ⟨?_, rfl, Filter.terms_render hcs⟩
  intro p hp
  unfold clauseFor at h
  split at h
  · cases h
  next hfind =>
  rw [List.find?_eq_none] at hfind
  simpa using hfind p.column (List.mem_map_of_mem hp)

/-- A filter that is accepted can be asked where its columns can. -/
theorem handles_of_clauseFor (hk : clauseFor s f = .ok k)
    (htable : Keyword.isReserved s.table = false)
    (hfew : f.predicates.length ≤ Database.maxConditions)
    (hadmits : ∀ p ∈ f.predicates, t.Admits p.column) : Handles s t f := by
  obtain ⟨hcolumns, -, hrender⟩ := clauseFor_eq_ok hk
  refine ⟨htable, hfew, fun p hp => ⟨hcolumns p hp, hadmits p hp⟩, ?_⟩
  intro p hp
  obtain ⟨c, -, hpc⟩ := Predicate.exists_term hrender hp
  exact ⟨c, hpc⟩

theorem handles_of_asks (hk : clauseFor s f = .ok k) (h : d.Asks ⟨s, .selectRows k⟩ k t) :
    Handles s t f := by
  obtain ⟨-, -, hrender⟩ := clauseFor_eq_ok hk
  obtain ⟨htable, hfew, -, hadmits⟩ := Database.asks_iff.mp h
  apply handles_of_clauseFor hk htable
  · rw [hrender.length_eq]
    exact hfew
  · intro p hp
    obtain ⟨c, hc, hpc⟩ := Predicate.exists_term hrender hp
    rw [← hpc.column]
    exact hadmits c hc

theorem exists_clauseFor (hcolumns : ∀ p ∈ f.predicates, s.hasColumn p.column = true)
    (hwritten : ∀ p ∈ f.predicates, p.IsWritten) : ∃ k, clauseFor s f = .ok k := by
  obtain ⟨cs, hcs⟩ := Filter.exists_terms hwritten []
  have hfind : f.columns.find? (fun c => !s.hasColumn c) = none := by
    rw [List.find?_eq_none]
    intro c hc
    obtain ⟨p, hp, rfl⟩ := List.mem_map.mp hc
    simp [hcolumns p hp]
  exact ⟨⟨cs, f.join⟩, by simp [clauseFor, hfind, Filter.clause, hcs]⟩

theorem asks_of_handles (h : Handles s t f) (ht : d.table? s.table = some t) :
    ∃ k, clauseFor s f = .ok k ∧ d.Asks ⟨s, .selectRows k⟩ k t := by
  obtain ⟨k, hk⟩ := exists_clauseFor (fun p hp => (h.columns p hp).1) h.written
  obtain ⟨-, -, hrender⟩ := clauseFor_eq_ok hk
  refine ⟨k, hk, Database.asks_iff.mpr ⟨h.table, ?_, ht, ?_⟩⟩
  · rw [← hrender.length_eq]
    exact h.few
  · intro c hc
    obtain ⟨p, hp, hpc⟩ := Predicate.exists_predicate hrender hc
    rw [hpc.column]
    exact (h.columns p hp).2

/-- A filter that is asked gives what the rows of its page are read as. -/
theorem selectWhere_eq_ok {l : Link} {xs : List RowImage} : (l.selectWhere s f).1 = .ok xs ↔
    l.outage l.stats.total = none ∧ ∃ k t rows, clauseFor s f = .ok k ∧
      l.database.Asks ⟨s, .selectRows k⟩ k t ∧
      t.page k (List.range t.columns.length) Database.maxPage 0 = (rows, none) ∧
      rows.map (RowImage.ofRow s t) = xs.map .ok := by
  constructor
  · intro h
    unfold selectWhere at h
    split at h
    · cases h
    next k hk =>
    have hread := read_of_query h
    have houtage : l.outage l.stats.total = none := by
      unfold query at h
      dsimp only at h
      split at h
      · cases h
      · assumption
    unfold read at hread
    split at hread
    · cases hread
    next t rows stop hquery =>
    have hasks := Database.asks_of_query hquery
    rw [Database.query_rows hasks] at hquery
    have hstop := stop_of_decodeRows hread
    subst hstop
    have hpage := (Prod.mk.inj (Except.ok.inj hquery)).2
    exact ⟨houtage, k, t, rows, hk, hasks, by simpa using hpage, decodeRows_eq_ok hread⟩
  · rintro ⟨houtage, k, t, rows, hk, hasks, hpage, hrows⟩
    have hread : read l.database ⟨s, .selectRows k⟩ k Database.maxPage 0 (RowImage.ofRow s) =
        .ok xs := by
      simp only [read, Database.query_rows hasks, Nat.min_self, Nat.zero_min, hpage]
      exact decodeRows_none hrows
    simp [selectWhere, hk, query, houtage, hread]

theorem table_of_selectWhere {l : Link} {xs : List RowImage}
    (h : (l.selectWhere s f).1 = .ok xs) : ∃ t, l.database.table? s.table = some t := by
  obtain ⟨-, k, t, rows, -, hasks, -⟩ := selectWhere_eq_ok.mp h
  exact ⟨t, hasks.table⟩

end Link

/-! ## Rows that are selected -/

/-- A row is what a filter asks for; a filter without predicates asks for every row. -/
def Filter.Selects (f : Filter) (t : Table) (r : Row) : Prop :=
  match f.join with
  | .all => ∀ p ∈ f.predicates, t.Satisfies p r
  | .any => f.predicates = [] ∨ ∃ p ∈ f.predicates, t.Satisfies p r

instance (t : Table) (p : Predicate) (r : Row) : Decidable (t.Satisfies p r) :=
  inferInstanceAs (Decidable (_ = _))

instance (f : Filter) (t : Table) (r : Row) : Decidable (f.Selects t r) := by
  unfold Filter.Selects
  cases f.join <;> infer_instance

/-- A table in which rows of a record type are kept, whoever wrote them. -/
structure Table.Keeps (t : Table) (s : Schema) : Prop where
  columns : ∀ n, s.hasColumn n = true → t.hasColumn n = true
  plain : t.Plain
  exact : t.Exact
  sorted : t.rows.Pairwise fun a b => a.number < b.number
  keys : ∀ a ∈ t.rows, ∀ b ∈ t.rows, t.cell a keyColumn = t.cell b keyColumn → a = b
  kept : ∀ r ∈ t.rows, t.Kept r
  few : t.rows.length < Database.maxPage

namespace Table

variable {t : Table} {s : Schema} {f : Filter} {k : Clause} {r : Row} {rows : List Row}

theorem Keeps.picks (h : t.Keeps s) : t.Picks t.rows where
  mem _ hr := hr
  distinct := by
    have hsorted : (t.rows.map (·.number)).Pairwise (· < ·) := List.pairwise_map.mpr h.sorted
    exact hsorted.imp Int.ne_of_lt

/-- A column that is there is not the number of a row. -/
theorem place?_ne_number {name : String} (h : t.hasColumn name = true) :
    t.place? name ≠ some .number := by
  intro hp
  have hcolumn := column?_of_columnIndex?_none (place?_number hp).2.1
  rw [hasColumn, hcolumn] at h
  cases h

theorem place?_ne_number_of_meansNumber {name : String} (h : t.meansNumber name = false) :
    t.place? name ≠ some .number := by
  intro hp
  obtain ⟨-, hindex, hname⟩ := place?_number hp
  simp [meansNumber, hasColumn, column?_of_columnIndex?_none hindex, hname] at h

/-- What a filter asks about is not the number of a row, if none of its predicates is. -/
theorem asked_of (ht : t.Plain) (hk : Link.clauseFor s f = .ok k)
    (hf : ∀ p ∈ f.predicates, t.place? p.column ≠ some .number) : t.Asked k where
  plain := ht
  unnumbered := by
    obtain ⟨-, -, hrender⟩ := Link.clauseFor_eq_ok hk
    intro c hc d hd
    have hterm : d ∈ k.terms := by
      cases c with
      | one e =>
        obtain rfl : d = e := by simpa [Plan.Conjunct.terms] using hd
        unfold Clause.conjuncts at hc
        split at hc
        · simp at hc
        · simpa using hc
      | any cs =>
        rw [terms_of_any hc]
        exact hd
    obtain ⟨p, hp, hpd⟩ := Predicate.exists_predicate hrender hterm
    rw [hpd.column]
    exact hf p hp

theorem Keeps.asked (h : t.Keeps s) (hk : Link.clauseFor s f = .ok k) : t.Asked k :=
  asked_of h.plain hk fun p hp =>
    place?_ne_number (h.columns _ ((Link.clauseFor_eq_ok hk).1 p hp))

/-- A filter selects the rows in which its conjuncts are true. -/
theorem passes_iff (hk : Link.clauseFor s f = .ok k) (hsure : Sure (t.scope r) k.terms) :
    t.Passes k.conjuncts r ↔ f.Selects t r := by
  obtain ⟨-, hjoin, hrender⟩ := Link.clauseFor_eq_ok hk
  obtain ⟨cs, j⟩ := k
  dsimp only at hjoin hrender hsure
  subst hjoin
  unfold Filter.Selects
  cases f.join with
  | all => exact passes_all hrender
  | any =>
    dsimp only
    constructor
    · intro hr
      by_cases hne : f.predicates = []
      · exact .inl hne
      · exact .inr (satisfies_of_passes_any hne hrender hr)
    · rintro (hnil | ⟨p, hp, htrue⟩)
      · rw [hnil] at hrender
        cases hrender
        simp [Passes, Clause.conjuncts]
      · exact passes_any_of_satisfies hrender hsure hp htrue

end Table

/-- No pattern is tried on a number that is written in another way in the row than in
the value that all rows are asked to hold. -/
def Filter.Sharp (f : Filter) (t : Table) (r : Row) : Prop :=
  f.join = .all → ∀ c v d u, .compare c .equals v ∈ f.predicates →
    .compare d .like u ∈ f.predicates → t.place? c = t.place? d →
    ¬(t.cell r c).Twofold ((t.affinity c).store (.ofValue v))

theorem Predicate.Renders.compare {p : Predicate} {column param : String} {op : Comparison}
    {v : Value} (h : p.Renders (.compare column op param v)) : p = .compare column op v := by
  obtain ⟨used, named, h⟩ := h
  obtain ⟨-, ⟨n, -, hc⟩ | ⟨n, -, hc⟩ | ⟨n, op, v, param, -, rfl, hc⟩ |
    ⟨n, lo, hi, low, high, -, -, -, hc⟩⟩ := term_cases h
  · cases hc
  · cases hc
  · cases hc
    rfl
  · cases hc

namespace Table

variable {t : Table} {s : Schema} {f : Filter} {k : Clause} {r : Row} {rows : List Row}

theorem one_mem_conjuncts {c : Term} (h : .one c ∈ k.conjuncts) :
    c ∈ k.terms ∧ (k.join = .any → k.terms = [c]) := by
  obtain ⟨cs, j⟩ := k
  cases j with
  | all => simpa [conjuncts_all] using h
  | any =>
    cases cs with
    | nil => simp [Clause.conjuncts] at h
    | cons d cs =>
      rw [conjuncts_any] at h
      split at h
      · next hnil => simp_all
      · simp at h

theorem sharp_conjuncts (hk : Link.clauseFor s f = .ok k) (h : f.Sharp t r) :
    t.Sharp k.conjuncts r := by
  obtain ⟨-, hjoin, hrender⟩ := Link.clauseFor_eq_ok hk
  intro c param v d param' u hc hd hplace
  obtain ⟨hcmem, hcall⟩ := one_mem_conjuncts hc
  obtain ⟨hdmem, -⟩ := one_mem_conjuncts hd
  obtain ⟨p, hp, hpc⟩ := Predicate.exists_predicate hrender hcmem
  obtain ⟨q, hq, hqd⟩ := Predicate.exists_predicate hrender hdmem
  rw [hpc.compare] at hp
  rw [hqd.compare] at hq
  apply h ?_ c v d u hp hq hplace
  cases hf : f.join with
  | all => rfl
  | any =>
    rw [hcall (hjoin.trans hf)] at hdmem
    cases List.mem_singleton.mp hdmem

/-- A page that all rows fit in holds the rows that a filter selects, as far as they are kept
and sharp. Some of its conditions may be refused in other rows that they are not tried in. -/
theorem mem_page_iff_selects (hk : Link.clauseFor s f = .ok k) (hasked : t.Asked k)
    (ht : t.Picks t.rows) (he : t.Exact) {columns : List Nat} {n : Nat}
    (h : t.page k columns n 0 = (rows, none)) (hn : t.rows.length < n) (hkept : t.Kept r)
    (hr : r ∈ t.rows) (hs : f.Sharp t r) : r ∈ rows ↔ f.Selects t r := by
  have hpasses : r ∈ rows ↔ r ∈ t.rows ∧ t.Passes k.conjuncts r :=
    mem_page hasked ht he h hn hkept (sharp_conjuncts hk hs)
  obtain ⟨-, hjoin, hrender⟩ := Link.clauseFor_eq_ok hk
  obtain ⟨cs, j⟩ := k
  dsimp only at hjoin hrender
  subst hjoin
  unfold Filter.Selects
  cases hf : f.join with
  | all =>
    rw [hf] at hpasses
    rw [hpasses, passes_all hrender]
    exact ⟨And.right, fun h => ⟨hr, h⟩⟩
  | any =>
    rw [hf] at hpasses h hasked
    dsimp only
    constructor
    · intro hmem
      by_cases hne : f.predicates = []
      · exact .inl hne
      · exact .inr (satisfies_of_passes_any hne hrender (hpasses.mp hmem).2)
    · rintro (hnil | ⟨p, hp, htrue⟩)
      · rw [hnil] at hrender
        cases hrender
        exact hpasses.mpr ⟨hr, by simp [Passes, Clause.conjuncts]⟩
      · obtain ⟨d, hd, hpd⟩ := Predicate.exists_term hrender hp
        rw [Satisfies, ← hpd.condition] at htrue
        cases cs with
        | nil => simp at hd
        | cons c cs =>
          have hconjuncts : (⟨c :: cs, .any⟩ : Clause).conjuncts = _ := conjuncts_any
          split at hconjuncts
          · next hempty =>
            obtain rfl : d = c := by simpa [List.isEmpty_iff.mp hempty] using hd
            refine hpasses.mpr ⟨hr, fun k hmem => ?_⟩
            rw [hconjuncts, List.mem_singleton] at hmem
            rw [hmem]
            exact holdsConjunct_one_iff.mpr htrue
          · have hchoice : .any (c :: cs) ∈ (⟨c :: cs, .any⟩ : Clause).conjuncts := by
              rw [hconjuncts]
              exact List.mem_singleton_self _
            exact mem_page_of_choice hasked ht he h hn hkept hr hchoice hd htrue

end Table

namespace Link

variable {l : Link} {s : Schema} {f : Filter} {t : Table} {xs : List RowImage}

/-- The rows to which a filter leads: those of the table in which its conjuncts are
true, as far as they are sharp. -/
structure Leads (s : Schema) (f : Filter) (t : Table) (k : Clause) (rows : List Row) : Prop where
  clause : clauseFor s f = .ok k
  picks : t.Picks rows
  mem : ∀ {r}, t.Sharp k.conjuncts r → (r ∈ rows ↔ r ∈ t.rows ∧ t.Passes k.conjuncts r)

/-- What a filter gives is what the rows are read as to which it leads. -/
structure Gives (s : Schema) (f : Filter) (t : Table) (k : Clause) (rows : List Row)
    (xs : List RowImage) : Prop extends Leads s f t k rows where
  read : rows.map (RowImage.ofRow s t) = xs.map .ok

theorem leads_of_page {rows : List Row} (hkeeps : t.Keeps s) (hk : clauseFor s f = .ok k)
    (hpage : t.page k (List.range t.columns.length) Database.maxPage 0 = (rows, none)) :
    Leads s f t k rows := by
  have hpicks := Table.picks_page hkeeps.picks k (List.range t.columns.length) Database.maxPage 0
  rw [hpage] at hpicks
  refine ⟨hk, hpicks, ?_⟩
  intro r hsharp
  by_cases hr : r ∈ t.rows
  · exact Table.mem_page (hkeeps.asked hk) hkeeps.picks hkeeps.exact hpage hkeeps.few
      (hkeeps.kept r hr) hsharp
  · constructor
    · exact fun hmem => absurd (hpicks.mem r hmem) hr
    · exact fun hmem => absurd hmem.1 hr

theorem gives_of_selectWhere (ht : l.database.table? s.table = some t) (hkeeps : t.Keeps s)
    (h : (l.selectWhere s f).1 = .ok xs) : ∃ k rows, Gives s f t k rows xs := by
  obtain ⟨-, k, t', rows, hk, hasks, hpage, hrows⟩ := selectWhere_eq_ok.mp h
  obtain rfl : t' = t := hasks.eq_table ht
  exact ⟨k, rows, leads_of_page hkeeps hk hpage, hrows⟩

end Link

/-! ## Images of the rows that are selected -/

namespace RowImage

variable {s : Schema} {t : Table} {r q : Row} {rows : List Row} {xs : List RowImage}
  {x : RowImage}

/-- What rows are read as, without those that cannot be read. -/
def images (s : Schema) (t : Table) (rows : List Row) : List RowImage :=
  rows.filterMap fun r => (ofRow s t r).toOption

theorem mem_images : x ∈ images s t rows ↔ ∃ r ∈ rows, ofRow s t r = .ok x := by
  have hread : ∀ r, (ofRow s t r).toOption = some x ↔ ofRow s t r = .ok x := by
    intro r
    cases ofRow s t r <;> simp [Except.toOption]
  simp [images, hread]

theorem images_eq (h : rows.map (ofRow s t) = xs.map .ok) : images s t rows = xs := by
  have hmap : images s t rows = (rows.map (ofRow s t)).filterMap (·.toOption) := by
    rw [List.filterMap_map]
    rfl
  rw [hmap, h, List.filterMap_map]
  exact List.filterMap_some

theorem read_of_exists (h : ∀ r ∈ rows, ∃ x, ofRow s t r = .ok x) :
    ∃ xs : List RowImage, rows.map (ofRow s t) = xs.map .ok := by
  induction rows with
  | nil => exact ⟨[], rfl⟩
  | cons r rows ih =>
    obtain ⟨x, hx⟩ := h r (by simp)
    obtain ⟨xs, hxs⟩ := ih fun q hq => h q (by simp [hq])
    exact ⟨x :: xs, by simp [hx, hxs]⟩

theorem exists_of_read (h : rows.map (ofRow s t) = xs.map .ok) :
    ∀ r ∈ rows, ∃ x, ofRow s t r = .ok x := by
  intro r hr
  have hmem : ofRow s t r ∈ xs.map Except.ok := by
    rw [← h]
    exact List.mem_map_of_mem hr
  obtain ⟨x, -, hx⟩ := List.mem_map.mp hmem
  exact ⟨x, hx.symm⟩

theorem cell_of_ofRow (h : ofRow s t r = .ok x) : t.cell r keyColumn = .blob x.id.bytes := by
  have hid := idOfRow_of_ofRow h
  generalize x.id = id at hid ⊢
  unfold idOfRow idOfCell at hid
  split at hid
  · next bs hcell =>
    split at hid
    · next id' hbytes =>
      cases hid
      unfold RecordId.ofBytes at hbytes
      split at hbytes
      · cases hbytes
        exact hcell
      · split at hbytes <;> cases hbytes
    · cases hid
  · cases hid

/-- No two rows are read as one image. -/
theorem row_unique (hkeeps : t.Keeps s) (hr : r ∈ t.rows) (hq : q ∈ t.rows)
    (hx : ofRow s t r = .ok x) (hx' : ofRow s t q = .ok x) : r = q := by
  apply hkeeps.keys r hr q hq
  rw [cell_of_ofRow hx, cell_of_ofRow hx']

end RowImage

namespace Link

variable {l : Link} {s : Schema} {f : Filter} {k : Clause} {t : Table} {rows : List Row}
  {xs : List RowImage}

theorem nodup_rows (hkeeps : t.Keeps s) : t.rows.Nodup := .of_map _ hkeeps.picks.distinct

/-- The rows to which a filter leads, told by predicates. -/
theorem Leads.perm (h : Leads s f t k rows) (hkeeps : t.Keeps s) (hf : f.isBrief = true)
    (hsharp : ∀ r ∈ t.rows, f.Sharp t r) :
    rows.Perm (t.rows.filter fun r => decide (f.Selects t r)) := by
  have hsure := Table.sure_of_refusesNone (refusesNone_of_clauseFor h.clause hf)
  apply (List.perm_ext_iff_of_nodup (.of_map _ h.picks.distinct)
    ((nodup_rows hkeeps).filter _)).mpr
  intro r
  rw [List.mem_filter, decide_eq_true_iff, ← Table.passes_iff h.clause (hsure (t.scope r))]
  by_cases hr : r ∈ t.rows
  · exact h.mem (Table.sharp_conjuncts h.clause (hsharp r hr))
  · constructor
    · exact fun hmem => absurd (h.picks.mem r hmem) hr
    · exact fun hmem => absurd hmem.1 hr

theorem selectWhere_perm (ht : l.database.table? s.table = some t) (hkeeps : t.Keeps s)
    (hf : f.isBrief = true) (hsharp : ∀ r ∈ t.rows, f.Sharp t r)
    (h : (l.selectWhere s f).1 = .ok xs) :
    xs.Perm (RowImage.images s t (t.rows.filter fun r => decide (f.Selects t r))) := by
  obtain ⟨k, rows, hgives⟩ := gives_of_selectWhere ht hkeeps h
  rw [← RowImage.images_eq hgives.read]
  exact (hgives.perm hkeeps hf hsharp).filterMap _

theorem handles_of_selectWhere (ht : l.database.table? s.table = some t)
    (h : (l.selectWhere s f).1 = .ok xs) :
    l.outage l.stats.total = none ∧ Handles s t f := by
  obtain ⟨hl, k, t', rows, hk, hasks, -⟩ := selectWhere_eq_ok.mp h
  obtain rfl : t' = t := hasks.eq_table ht
  exact ⟨hl, handles_of_asks hk hasks⟩

/-- A filter without overlong patterns that can be asked is answered if the rows can be
read to which it leads. -/
theorem exists_leads (ht : l.database.table? s.table = some t) (hkeeps : t.Keeps s)
    (hl : l.outage l.stats.total = none) (hf : f.isBrief = true) (h : Handles s t f) :
    ∃ k rows, Leads s f t k rows ∧
      ((∀ r ∈ rows, ∃ x, RowImage.ofRow s t r = .ok x) →
        ∃ xs, (l.selectWhere s f).1 = .ok xs) := by
  obtain ⟨k, hk, hasks⟩ := asks_of_handles h ht
  obtain ⟨rows, hpage⟩ := Table.exists_page (t := t) (refusesNone_of_clauseFor hk hf)
    (List.range t.columns.length) Database.maxPage 0
  refine ⟨k, rows, leads_of_page hkeeps hk hpage, ?_⟩
  intro hread
  obtain ⟨xs, hxs⟩ := RowImage.read_of_exists hread
  exact ⟨xs, selectWhere_eq_ok.mpr ⟨hl, k, t, rows, hk, hasks, hpage, hxs⟩⟩

/-- Where all rows can be read, a filter without overlong patterns that can be asked is
answered. -/
theorem answered_of_read (ht : l.database.table? s.table = some t) (hkeeps : t.Keeps s)
    (hread : ∀ r ∈ t.rows, ∃ x, RowImage.ofRow s t r = .ok x)
    (hl : l.outage l.stats.total = none) (hf : f.isBrief = true) (h : Handles s t f) :
    ∃ xs, (l.selectWhere s f).1 = .ok xs := by
  obtain ⟨k, rows, hleads, hanswered⟩ := exists_leads ht hkeeps hl hf h
  exact hanswered fun r hr => hread r (hleads.picks.mem r hr)

end Link

/-! ## Tables of record types -/

section Tables

variable {s : Schema} {es : List Shelved} {e : Shelved}

/-- A cell as its column stores it, and not null where none may be. -/
def Table.Suits (c : Column) (x : Cell) : Prop :=
  c.affinity.store x = x ∧ (c.notNull.isSome = true → x.isNull = false)

theorem suits_cells (hn : s.Named) {x : RowImage} (hf : x.Fits s) :
    List.Forall₂ Table.Suits (Column.ofSchema s) (x.cells s) := by
  rw [ofSchema_of_named hn, RowImage.cells]
  refine .cons ⟨rfl, fun _ => rfl⟩ (List.rel_append ?_ ?_)
  · rw [List.forall₂_map_left_iff, List.forall₂_map_right_iff, List.forall₂_same]
    intro p _
    exact ⟨rfl, fun h => by cases h⟩
  · rw [List.forall₂_map_left_iff, List.forall₂_map_right_iff, List.forall₂_iff_get]
    refine ⟨hf.length.symm, ?_⟩
    intro i hi hv
    have hfits := hf.values (List.getElem?_eq_getElem hi) (List.getElem?_eq_getElem hv)
    refine ⟨Table.Affinity.store_ofValue_of_fits hfits, ?_⟩
    intro hnull
    simp only [List.get_eq_getElem] at hnull ⊢
    cases hvalue : x.values[i] with
    | null =>
      rw [hvalue] at hfits
      simp_all [Value.fits, Column.ofField]
    | _ => rfl

theorem columns_tableOf (hp : s.Proper) (hn : s.Named) {n : String} (h : s.hasColumn n = true) :
    (tableOf s es).hasColumn n = true := by
  simp only [Schema.hasColumn, Bool.or_eq_true, beq_iff_eq] at h
  rcases h with (rfl | h) | h
  · exact hasColumn_key
  · exact hasColumn_columnNames hp hn (by simp [Schema.columnNames, h])
  · obtain ⟨f, hf⟩ := Option.isSome_iff_exists.mp h
    have hname : f.name = n := by simpa using List.find?_some hf
    have hmem : f.name ∈ s.fieldNames := List.mem_map_of_mem (List.mem_of_find?_eq_some hf)
    rw [← hname]
    exact hasColumn_columnNames hp hn (List.mem_append_left _ hmem)

/-- A row of a record type is kept as a database keeps it. -/
theorem kept_tableOf (hn : s.Named) (hf : e.image.Fits s) : (tableOf s es).Kept (e.row s) := by
  have hsuits := suits_cells hn hf
  have hcell : ∀ {name : String} {c : Column}, (tableOf s es).column? name = some c →
      Table.Suits c ((tableOf s es).cell (e.row s) name) := by
    intro name c hc
    obtain ⟨i, hi⟩ : ∃ i, (tableOf s es).columnIndex? name = some i :=
      Table.columnIndex?_of_hasColumn (by rw [Table.hasColumn, hc]; rfl)
    have hget : (Column.ofSchema s)[i]? = some c :=
      (Table.column?_of_columnIndex? hi).trans hc
    obtain ⟨hlt, rfl⟩ := List.getElem?_eq_some_iff.mp hget
    have hlt' : i < (e.image.cells s).length := by
      rw [← hsuits.length_eq]
      exact hlt
    have hread : (tableOf s es).cell (e.row s) name = (e.image.cells s)[i] := by
      simp [Table.cell, hi, Shelved.row, hlt']
    rw [hread]
    exact hsuits.get hlt hlt'
  constructor
  · intro name hname
    obtain ⟨c, hc⟩ := Option.isSome_iff_exists.mp hname
    have haffinity : (tableOf s es).affinity name = c.affinity := by
      rw [Table.affinity, hc]
    rw [haffinity]
    exact (hcell hc).1
  · intro name c hc hnull
    exact (hcell hc).2 hnull

/-- The table of a record type keeps its rows. -/
theorem keeps_tableOf (h : Shelf s es) (hp : s.Proper) (hn : s.Named)
    (hfew : es.length < Database.maxPage) : (tableOf s es).Keeps s where
  columns n hcolumn := columns_tableOf hp hn hcolumn
  plain := by
    intro k hk part hpart
    obtain rfl : k = .primary := List.mem_singleton.mp hk
    obtain rfl : part = (keyColumn, .binary) := List.mem_singleton.mp hpart
    simp
  exact := by
    intro c hc
    have hcolumn : c ∈ Column.ofSchema s := hc
    rw [ofSchema_of_named hn, List.mem_cons, List.mem_append, List.mem_map, List.mem_map] at hcolumn
    rcases hcolumn with rfl | ⟨p, -, rfl⟩ | ⟨f, -, rfl⟩
    · simp [Column.key]
    · simp [Column.ofParent]
    · cases hf : f.type <;> simp [Column.ofField, hf, Table.Affinity.ofField]
  sorted := List.pairwise_map.mpr h.sorted
  keys := by
    intro a ha b hb hcell
    obtain ⟨x, hx, rfl⟩ := List.mem_map.mp ha
    obtain ⟨y, hy, rfl⟩ := List.mem_map.mp hb
    rw [cell_key, cell_key] at hcell
    have hid : x.image.id = y.image.id := RecordId.bytes_inj (Cell.blob.inj hcell)
    rw [List.inj_on_of_nodup_map h.ids hx hy hid]
  kept := by
    intro r hr
    obtain ⟨x, hx, rfl⟩ := List.mem_map.mp hr
    exact kept_tableOf hn (h.fits x hx)
  few := by
    rw [show (tableOf s es).rows = es.map (Shelved.row s) from rfl, List.length_map]
    exact hfew

/-- A record type with a rank that may be missing. -/
def tasks : Schema where
  table := "TASKS"
  fields := [⟨"TITLE", .text, true⟩, ⟨"RANK", .integer, false⟩]
  parentColumn := none

def threeTasks : List Shelved :=
  [⟨1, .ofOrdinal 1, none, [.text "milk", .integer 1]⟩,
    ⟨2, .ofOrdinal 2, none, [.text "bread", .null]⟩,
    ⟨3, .ofOrdinal 3, none, [.text "jam", .integer 3]⟩]

/-- A link to a database with a table of three tasks. -/
def overTasks : Link := { database := { tables := [tableOf tasks threeTasks] } }

theorem proper_tasks : tasks.Proper :=
  Schema.proper_of_build (d := ⟨tasks.table, tasks.fields, tasks.parentColumn⟩) rfl

theorem named_tasks : tasks.Named := by
  unfold Schema.Named
  decide

theorem shelf_threeTasks : Shelf tasks threeTasks :=
  ⟨by decide, by decide, by decide, by decide, fun _ => named_tasks⟩

theorem keeps_threeTasks : (tableOf tasks threeTasks).Keeps tasks :=
  keeps_tableOf shelf_threeTasks proper_tasks named_tasks (by decide)

theorem read_threeTasks : ∀ r ∈ (tableOf tasks threeTasks).rows,
    ∃ x, RowImage.ofRow tasks (tableOf tasks threeTasks) r = .ok x := by
  intro r hr
  obtain ⟨e, he, rfl⟩ := List.mem_map.mp hr
  exact ⟨e.image, ofRow_row proper_tasks named_tasks (shelf_threeTasks.fits e he)⟩

end Tables
end LiveRecords
