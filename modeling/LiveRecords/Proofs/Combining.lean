import LiveRecords.Proofs.Answering
import LiveRecords.Proofs.Placeholders

/-!
# Filters of several predicates

Where `rowid` means the number of a row, a filter gives its rows in the order of their
numbers. They are those that each of its predicates gives by itself, or one of them,
and pages of keys are stretches of their keys.
-/

namespace LiveRecords

open Table (Cell Row)

/-! ## Rows in order -/

namespace RowImage

variable {s : Schema} {t : Table} {r : Row} {rows : List Row} {x : RowImage}

theorem images_cons_ok (h : ofRow s t r = .ok x) :
    images s t (r :: rows) = x :: images s t rows := by
  simp [images, h, Except.toOption]

theorem images_cons_error {e : StoreError} (h : ofRow s t r = .error e) :
    images s t (r :: rows) = images s t rows := by
  simp [images, h, Except.toOption]

/-- The images of the rows that pass a test are those that pass one that says the same. -/
theorem images_filter {P : Row → Bool} {q : RowImage → Bool}
    (h : ∀ r ∈ rows, ∀ x, ofRow s t r = .ok x → P r = q x) :
    images s t (rows.filter P) = (images s t rows).filter q := by
  induction rows with
  | nil => rfl
  | cons r rows ih =>
    have hrest := ih fun a ha => h a (by simp [ha])
    cases hr : ofRow s t r with
    | error e =>
      rw [images_cons_error hr, List.filter_cons, ← hrest]
      split
      · exact images_cons_error hr
      · rfl
    | ok x =>
      rw [images_cons_ok hr, List.filter_cons, List.filter_cons, h r (by simp) x hr, ← hrest]
      split
      · exact images_cons_ok hr
      · rfl

theorem nodup_images_of {rows : List Row} (hkeeps : t.Keeps s) (hnodup : rows.Nodup)
    (hmem : ∀ r ∈ rows, r ∈ t.rows) : (images s t rows).Nodup := by
  induction rows with
  | nil => exact .nil
  | cons r rows ih =>
    rw [List.nodup_cons] at hnodup
    have hrest := ih hnodup.2 fun a ha => hmem a (by simp [ha])
    cases hr : ofRow s t r with
    | error e =>
      rw [images_cons_error hr]
      exact hrest
    | ok x =>
      rw [images_cons_ok hr, List.nodup_cons]
      refine ⟨fun hx => hnodup.1 ?_, hrest⟩
      obtain ⟨a, ha, hax⟩ := mem_images.mp hx
      rw [row_unique hkeeps (hmem r (by simp)) (hmem a (by simp [ha])) hr hax]
      exact ha

theorem nodup_images (hkeeps : t.Keeps s) : (images s t t.rows).Nodup :=
  nodup_images_of hkeeps (Link.nodup_rows hkeeps) fun _ hr => hr

end RowImage

namespace Link

variable {l : Link} {s : Schema} {f : Filter} {t : Table} {xs : List RowImage}

/-- Where `rowid` means the number of a row, a filter gives its rows in their order. -/
theorem selectWhere_eq (ht : l.database.table? s.table = some t) (hkeeps : t.Keeps s)
    (hnumber : t.meansNumber "rowid" = true) (hf : f.isBrief = true)
    (hsharp : ∀ r ∈ t.rows, f.Sharp t r) (h : (l.selectWhere s f).1 = .ok xs) :
    xs = RowImage.images s t (t.rows.filter fun r => decide (f.Selects t r)) := by
  obtain ⟨-, k, t', rows, hk, hasks, hpage, hrows⟩ := selectWhere_eq_ok.mp h
  obtain rfl : t' = t := hasks.eq_table ht
  have hbrief := refusesNone_of_clauseFor hk hf
  rw [Table.page_eq hnumber hbrief, List.drop_zero, List.take_of_length_le] at hpage
  · obtain ⟨rfl, -⟩ := Prod.mk.inj hpage
    rw [← RowImage.images_eq hrows, Table.selection]
    congr 1
    apply List.filter_congr
    intro r hr
    rw [Bool.eq_iff_iff, decide_eq_true_iff,
      ← Table.passes_iff hk (Table.sure_of_refusesNone hbrief _)]
    exact Table.selects_iff hkeeps.exact (hkeeps.kept r hr)
      (Table.sharp_conjuncts hk (hsharp r hr))
  · exact (List.length_filter_le _ _).trans hkeeps.few.le

/-- A filter gives the images that pass a test which says what the filter says of rows. -/
theorem selectWhere_eq_filter (ht : l.database.table? s.table = some t) (hkeeps : t.Keeps s)
    (hnumber : t.meansNumber "rowid" = true) (hf : f.isBrief = true)
    (hsharp : ∀ r ∈ t.rows, f.Sharp t r) (h : (l.selectWhere s f).1 = .ok xs)
    {q : RowImage → Bool}
    (hq : ∀ r ∈ t.rows, ∀ x, RowImage.ofRow s t r = .ok x → (f.Selects t r ↔ q x = true)) :
    xs = (RowImage.images s t t.rows).filter q := by
  rw [selectWhere_eq ht hkeeps hnumber hf hsharp h]
  apply RowImage.images_filter
  intro r hr x hx
  rw [Bool.eq_iff_iff, decide_eq_true_iff]
  exact hq r hr x hx

/-! ## Predicates one by one -/

/-- What one predicate gives by itself; nothing if it is not answered. -/
def found (l : Link) (s : Schema) (p : Predicate) : List RowImage :=
  (l.selectWhere s (.all [p])).1.toOption.getD []

theorem handles_iff {ps : List Predicate} {j : Join} (hne : ps ≠ [])
    (hfew : ps.length ≤ Database.maxConditions) :
    Handles s t ⟨ps, j⟩ ↔ ∀ p ∈ ps, Handles s t (.all [p]) := by
  constructor
  · intro h p hp
    refine ⟨h.table, by simp [Filter.all, Database.maxConditions], ?_, ?_⟩
    · intro q hq
      rw [List.mem_singleton.mp hq]
      exact h.columns p hp
    · intro q hq
      rw [List.mem_singleton.mp hq]
      exact h.written p hp
  · intro h
    obtain ⟨p, hp⟩ := List.exists_mem_of_ne_nil _ hne
    exact ⟨(h p hp).table, hfew, fun q hq => (h q hq).columns q (by simp [Filter.all]),
      fun q hq => (h q hq).written q (by simp [Filter.all])⟩

theorem isBrief_single {ps : List Predicate} {j : Join} (h : (Filter.mk ps j).isBrief = true)
    {p : Predicate} (hp : p ∈ ps) : (Filter.all [p]).isBrief = true := by
  have hone := List.all_eq_true.mp h p hp
  simpa [Filter.isBrief, Filter.all] using hone

theorem sharp_single (p : Predicate) (t : Table) (r : Row) : (Filter.all [p]).Sharp t r := by
  intro _ c v d u hc hd
  obtain rfl := List.mem_singleton.mp hc
  cases List.mem_singleton.mp hd

/-- A row that can be read is among those that a predicate gives if it satisfies it. -/
theorem mem_found (ht : l.database.table? s.table = some t) (hkeeps : t.Keeps s)
    {p : Predicate} (hp : (Filter.all [p]).isBrief = true)
    (h : ∃ xs, (l.selectWhere s (.all [p])).1 = .ok xs) {r : Row} (hr : r ∈ t.rows)
    {x : RowImage} (hx : RowImage.ofRow s t r = .ok x) :
    x ∈ l.found s p ↔ t.Satisfies p r := by
  obtain ⟨xs, h⟩ := h
  have hfound : l.found s p = xs := by rw [found, h]; rfl
  have hperm := selectWhere_perm ht hkeeps hp (fun r _ => sharp_single p t r) h
  rw [hfound, hperm.mem_iff, RowImage.mem_images]
  simp only [List.mem_filter, decide_eq_true_iff, Filter.all, Filter.Selects,
    List.forall_mem_singleton]
  constructor
  · rintro ⟨q, ⟨hq, htrue⟩, hqx⟩
    rw [RowImage.row_unique hkeeps hr hq hx hqx]
    exact htrue
  · exact fun htrue => ⟨r, ⟨hr, htrue⟩, hx⟩

/-- What filters of some predicates give, told by what each predicate gives by itself. -/
structure Combines (l : Link) (s : Schema) (t : Table) (ps : List Predicate) : Prop where
  answered : ∀ j, (∃ xs, (l.selectWhere s ⟨ps, j⟩).1 = .ok xs) ↔
    ∀ p ∈ ps, ∃ xs, (l.selectWhere s (.all [p])).1 = .ok xs
  accepted : ∀ {j k}, clauseFor s ⟨ps, j⟩ = .ok k → Keyword.isReserved s.table = false →
    (∀ p ∈ ps, t.Admits p.column) → l.outage l.stats.total = none →
      ∃ xs, (l.selectWhere s ⟨ps, j⟩).1 = .ok xs
  all : (∀ r ∈ t.rows, (Filter.all ps).Sharp t r) →
    ∀ {xs}, (l.selectWhere s (.all ps)).1 = .ok xs →
      xs = (RowImage.images s t t.rows).filter fun x => decide (∀ p ∈ ps, x ∈ l.found s p)
  any : ∀ {xs}, (l.selectWhere s (.any ps)).1 = .ok xs →
    xs = (RowImage.images s t t.rows).filter fun x => decide (∃ p ∈ ps, x ∈ l.found s p)

/-- A filter is answered exactly if each of its predicates is by itself. -/
theorem answered_iff_singles (ht : l.database.table? s.table = some t) (hkeeps : t.Keeps s)
    (hread : ∀ r ∈ t.rows, ∃ x, RowImage.ofRow s t r = .ok x) {ps : List Predicate}
    {j : Join} (hne : ps ≠ []) (hfew : ps.length ≤ Database.maxConditions)
    (hps : (Filter.mk ps j).isBrief = true) :
    (∃ xs, (l.selectWhere s ⟨ps, j⟩).1 = .ok xs) ↔
      ∀ p ∈ ps, ∃ xs, (l.selectWhere s (.all [p])).1 = .ok xs := by
  constructor
  · rintro ⟨xs, h⟩ p hp
    obtain ⟨hl, hhandles⟩ := handles_of_selectWhere ht h
    have hsingle := (handles_iff hne hfew).mp hhandles p hp
    exact answered_of_read ht hkeeps hread hl (isBrief_single hps hp) hsingle
  · intro h
    obtain ⟨p, hp⟩ := List.exists_mem_of_ne_nil _ hne
    obtain ⟨xs, hx⟩ := h p hp
    obtain ⟨hl, -⟩ := handles_of_selectWhere ht hx
    apply answered_of_read ht hkeeps hread hl hps
    apply (handles_iff hne hfew).mpr
    intro q hq
    obtain ⟨ys, hy⟩ := h q hq
    exact (handles_of_selectWhere ht hy).2

theorem combines (ht : l.database.table? s.table = some t) (hkeeps : t.Keeps s)
    (hnumber : t.meansNumber "rowid" = true)
    (hread : ∀ r ∈ t.rows, ∃ x, RowImage.ofRow s t r = .ok x) {ps : List Predicate}
    (hne : ps ≠ []) (hfew : ps.length ≤ Database.maxConditions)
    (hps : (Filter.all ps).isBrief = true) : l.Combines s t ps := by
  have hanswered : ∀ j, (∃ xs, (l.selectWhere s ⟨ps, j⟩).1 = .ok xs) ↔
      ∀ p ∈ ps, ∃ xs, (l.selectWhere s (.all [p])).1 = .ok xs :=
    fun j => answered_iff_singles ht hkeeps hread hne hfew hps
  -- A row is found by a predicate exactly if it satisfies it.
  have hfound : ∀ {j xs}, (l.selectWhere s ⟨ps, j⟩).1 = .ok xs → ∀ r ∈ t.rows, ∀ x,
      RowImage.ofRow s t r = .ok x → ∀ p ∈ ps, (t.Satisfies p r ↔ x ∈ l.found s p) := by
    intro j xs h r hr x hx p hp
    have hsingle := (hanswered j).mp ⟨xs, h⟩ p hp
    exact (mem_found ht hkeeps (isBrief_single hps hp) hsingle hr hx).symm
  constructor
  · exact hanswered
  · intro j k hk htable hadmits hl
    exact answered_of_read ht hkeeps hread hl hps (handles_of_clauseFor hk htable hfew hadmits)
  · intro hsharp xs h
    apply selectWhere_eq_filter ht hkeeps hnumber hps hsharp h
    intro r hr x hx
    rw [decide_eq_true_iff]
    exact forall₂_congr fun p hp => hfound h r hr x hx p hp
  · intro xs h
    have hsharp : ∀ r ∈ t.rows, (Filter.any ps).Sharp t r := by
      intro r _ hall
      cases hall
    apply selectWhere_eq_filter (f := .any ps) ht hkeeps hnumber hps hsharp h
    intro r hr x hx
    rw [decide_eq_true_iff]
    show (ps = [] ∨ ∃ p ∈ ps, t.Satisfies p r) ↔ _
    rw [or_iff_right hne]
    exact exists_congr fun p => and_congr_right fun hp => hfound h r hr x hx p hp

/-! ## Pages of keys -/

theorem asks_rows {d : Database} {k : Clause} {limit offset : Nat}
    (h : d.Asks ⟨s, .selectKeys k limit offset⟩ k t) : d.Asks ⟨s, .selectRows k⟩ k t where
  brief := by
    rw [← Database.sprawls_keys s k limit offset]
    exact h.brief
  fault := by
    have hfault := Database.textFault?_keys s k limit offset
    rw [h.fault] at hfault
    simpa using hfault.symm
  table := h.table
  known := by
    have hknown := Database.strayOperand?_keys t.knows s k
    have hkeys : Piece.strayOperand? t.knows 0 (s.keysPieces k) = none := h.known
    rw [hkeys] at hknown
    show Piece.strayOperand? t.knows 0 (s.selectPieces k) = none
    simpa using hknown.symm

/-- The keys that a filter gives are those of its rows, page by page. -/
structure Pages (l : Link) (s : Schema) (f : Filter) : Prop where
  cut : ∀ {xs}, (l.selectWhere s f).1 = .ok xs → ∀ offset limit,
    (l.selectKeys s f offset limit).1 = .ok (((xs.map (·.id)).drop offset).take limit)
  answered : ∀ {offset limit ids}, (l.selectKeys s f offset limit).1 = .ok ids →
    ∃ xs, (l.selectWhere s f).1 = .ok xs

theorem asks_of_selectKeys {offset limit : Nat} {ids : List RecordId}
    (h : (l.selectKeys s f offset limit).1 = .ok ids) :
    l.outage l.stats.total = none ∧ ∃ k t, clauseFor s f = .ok k ∧
      l.database.Asks ⟨s, .selectRows k⟩ k t := by
  unfold selectKeys at h
  split at h
  · cases h
  next k hk =>
  have hread := read_of_query h
  have houtage : l.outage l.stats.total = none := by
    unfold query at h
    dsimp only at h
    split at h
    · cases h
    · assumption
  unfold read at hread
  split at hread
  · cases hread
  next t rows stop hquery =>
  exact ⟨houtage, k, t, hk, asks_rows (Database.asks_of_query hquery)⟩

theorem pages (ht : l.database.table? s.table = some t) (hkeeps : t.Keeps s)
    (hnumber : t.meansNumber "rowid" = true)
    (hread : ∀ r ∈ t.rows, ∃ x, RowImage.ofRow s t r = .ok x) (hf : f.isBrief = true) :
    l.Pages s f where
  cut := by
    intro xs h offset limit
    have hkeys := allKeys_of_selectWhere h hf fun t' ht' => by
      rw [ht, Option.some.injEq] at ht'
      rw [← ht']
      exact hnumber
    apply selectKeys_of_unrefused hkeys
    · obtain ⟨k, rows, hgives⟩ := gives_of_selectWhere ht hkeeps h
      have hlength : rows.length = xs.length := by simpa using congrArg List.length hgives.read
      rw [List.length_map, ← hlength]
      exact Nat.lt_of_le_of_lt hgives.picks.length_le hkeeps.few
    · exact (handles_of_selectWhere ht h).1
  answered := by
    intro offset limit ids h
    obtain ⟨hl, k, t', hk, hasks⟩ := asks_of_selectKeys h
    obtain rfl : t' = t := hasks.eq_table ht
    exact answered_of_read ht hkeeps hread hl hf (handles_of_asks hk hasks)

/-! ## Filters and their predicates -/

/-- Where `rowid` means the number of a row and all rows can be read, a filter gives the
rows, in order and each once, that all or some of its predicates give by themselves, and
pages of keys are stretches of theirs. Operands may as well be bound by name. -/
theorem filters_combine (ht : l.database.table? s.table = some t) (hkeeps : t.Keeps s)
    (hnumber : t.meansNumber "rowid" = true)
    (hread : ∀ r ∈ t.rows, ∃ x, RowImage.ofRow s t r = .ok x) :
    (RowImage.images s t t.rows).Nodup ∧
      (∀ ps : List Predicate, ps ≠ [] → ps.length ≤ Database.maxConditions →
        (Filter.all ps).isBrief = true → l.Combines s t ps) ∧
      (∀ f : Filter, f.isBrief = true → l.Pages s f) ∧
      ∀ (f : Filter) (k : Clause), clauseFor s f = .ok k → k.rebound = k := by
  refine ⟨RowImage.nodup_images hkeeps, ?_, ?_, ?_⟩
  · intro ps hne hfew hps
    exact combines ht hkeeps hnumber hread hne hfew hps
  · intro f hf
    exact pages ht hkeeps hnumber hread hf
  · intro f k hk
    exact Clause.rebound_eq (clause_of_clauseFor hk)

/-- Predicates that repeat a column and an operator and mix bounds with tests for a null
combine, and pages of their keys are stretches. -/
theorem combines_of_ranks :
    overTasks.database.table? tasks.table = some (tableOf tasks threeTasks) ∧
      (tableOf tasks threeTasks).Keeps tasks ∧
      (tableOf tasks threeTasks).meansNumber "rowid" = true ∧
      (∀ r ∈ (tableOf tasks threeTasks).rows,
        ∃ x, RowImage.ofRow tasks (tableOf tasks threeTasks) r = .ok x) ∧
      overTasks.Combines tasks (tableOf tasks threeTasks)
        [.between "RANK" (.integer 0) (.integer 2), .between "RANK" (.integer 1) (.integer 3),
          .compare "RANK" .notEquals .null] ∧
      overTasks.Pages tasks (.any [.compare "RANK" .equals .null,
        .between "RANK" (.integer 0) (.integer 2)]) := by
  have htable : overTasks.database.table? tasks.table = some (tableOf tasks threeTasks) := rfl
  have hnumber : (tableOf tasks threeTasks).meansNumber "rowid" = true := by decide +kernel
  obtain ⟨-, hcombines, hpages, -⟩ :=
    filters_combine (l := overTasks) htable keeps_threeTasks hnumber read_threeTasks
  refine ⟨htable, keeps_threeTasks, hnumber, read_threeTasks, ?_, ?_⟩
  · apply hcombines
    · simp
    · simp [Database.maxConditions]
    · rfl
  · apply hpages
    rfl

/-! ## Filters that miss rows -/

/-- What a filter gives that tries an overlong pattern in each row before anything else. -/
theorem nil_of_overlong (ht : l.database.table? s.table = some t) (hkeeps : t.Keeps s)
    {n : String} {v : Value} {p : Predicate} {ps : List Predicate}
    (hv : Table.Pattern.maxOctets < (Cell.ofValue v).toOctets.length)
    (h : (l.selectWhere s (.any (.compare n .like v :: p :: ps))).1 = .ok xs) : xs = [] := by
  obtain ⟨⟨cs, j⟩, rows, hgives⟩ := gives_of_selectWhere ht hkeeps h
  obtain ⟨-, hjoin, hrender⟩ := clauseFor_eq_ok hgives.clause
  obtain rfl : j = .any := hjoin
  cases hrender with
  | @cons _ c _ _ hlike hrest =>
  cases hrest with
  | @cons _ d _ ds hp hps =>
  have hnone : rows = [] := by
    apply List.eq_nil_iff_forall_not_mem.mpr
    intro r hr
    have hpasses := ((hgives.mem (by simp [Table.conjuncts_any, Table.Sharp])).mp hr).2
    have hany : Table.holdsAny (t.scope r) (c :: d :: ds) = .ok true :=
      hpasses (.any (c :: d :: ds)) (by simp [Table.conjuncts_any])
    obtain ⟨b, hb, -⟩ := bind_eq_ok.mp hany
    rw [hlike.condition, Predicate.condition, Table.truth_like, Table.Function.like,
      if_pos hv] at hb
    cases hb
  have hread := hgives.read
  rw [hnone] at hread
  simpa using hread.symm

def firstRank : Predicate := .compare "RANK" .equals (.integer 1)

/-- The task of the first rank. -/
def milk : RowImage := ⟨.ofOrdinal 1, none, [.text "milk", .integer 1]⟩

/-- A pattern of one sign more than is tried. -/
def overlong : Value := .text (String.ofList (List.replicate (Table.Pattern.maxOctets + 1) 'a'))

theorem length_overlong :
    (Cell.ofValue overlong).toOctets.length = Table.Pattern.maxOctets + 1 := by
  have hlength : ∀ n, (Text.Utf8.encode (List.replicate n 'a')).length = n := by
    intro n
    induction n with
    | zero => rfl
    | succ n ih =>
      rw [List.replicate_succ, Text.Utf8.encode_cons, List.length_append, ih]
      exact Nat.add_comm 1 n
  have hbytes : (Cell.ofValue overlong).toOctets =
      Text.Utf8.encode (List.replicate (Table.Pattern.maxOctets + 1) 'a') := by
    simp [overlong, Cell.ofValue, Cell.toOctets, Cell.octets?, Text.Utf8.bytes]
  rw [hbytes, hlength]

/-- The task of the lowest rank that there is. -/
def lowest : RowImage := ⟨.ofOrdinal 1, none, [.text "milk", .integer Int64.minValue]⟩

/-- A link to a database with a table of that task. -/
def overLowest : Link :=
  { database := { tables := [tableOf tasks [⟨1, lowest.id, lowest.parent, lowest.values⟩]] } }

/-- A text that is read as the double that the lowest integer is. -/
def atLowest : Predicate := .compare "RANK" .equals (.text "-9223372036854775808.1")

def looksLowest : Predicate := .compare "RANK" .like (.text "-9223%")

/-- Predicates that each give a task by themselves do not give it together: where there
are too many of them, where a pattern is too long, and where a rank is asked to be a
double that is written in another way. -/
theorem combinations_miss :
    ((overTasks.selectWhere tasks (.all [firstRank])).1 = .ok [milk] ∧
      (∃ k, clauseFor tasks (.all (List.replicate (Database.maxConditions + 1) firstRank)) =
        .ok k) ∧
      (∀ xs, (overTasks.selectWhere tasks
        (.all (List.replicate (Database.maxConditions + 1) firstRank))).1 ≠ .ok xs) ∧
      (∃ k, clauseFor tasks (.any [.compare "TITLE" .like overlong, firstRank]) = .ok k) ∧
      ∀ xs, (overTasks.selectWhere tasks
        (.any [.compare "TITLE" .like overlong, firstRank])).1 = .ok xs → milk ∉ xs) ∧
    (overLowest.selectWhere tasks (.all [atLowest])).1 = .ok [lowest] ∧
      (overLowest.selectWhere tasks (.all [looksLowest])).1 = .ok [lowest] ∧
      (overLowest.selectWhere tasks (.all [atLowest, looksLowest])).1 = .ok [] := by
  have htable : overTasks.database.table? tasks.table = some (tableOf tasks threeTasks) := rfl
  refine ⟨⟨by decide +kernel, ?_, ?_, ⟨_, rfl⟩, ?_⟩, by decide +kernel, by decide +kernel,
    by decide +kernel⟩
  · apply exists_clauseFor
    · intro p hp
      rw [List.eq_of_mem_replicate hp]
      rfl
    · intro p hp
      rw [List.eq_of_mem_replicate hp]
      exact ⟨_, [], _, rfl⟩
  · intro xs h
    have hfew := (handles_of_selectWhere htable h).2.few
    rw [Filter.all, List.length_replicate] at hfew
    omega
  · intro xs h
    rw [nil_of_overlong htable keeps_threeTasks (by simp [length_overlong]) h]
    simp

end Link

end LiveRecords
