import LiveRecords.Proofs.Emitting

/-!
# Events within events

Whatever is done with a list of listeners, and whatever the listeners do when they
are called, the record of it is right at every place. One thing that is done adds to
the record and leaves it right; what takes its time is put between its beginning and
its end; the rest is induction on the conduct and on how deep events are nested.
-/

namespace LiveRecords.Observers

variable {L E σ : Type}

/-! ## The list and the record -/

/-- The list is what the record makes of it. -/
structure Scene.Sound (x : Scene L E σ) : Prop where
  present : present x.log = x.observers.listeners
  ordered : x.observers.listeners.Pairwise (·.1 < ·.1)
  fresh : x.observers.Fresh
  given : ∀ i ∈ givenOut x.log, i < x.observers.next
  increasing : (givenOut x.log).Pairwise (· < ·)
  size : x.observers.size + removals x.log = (givenOut x.log).length

/-- From one moment to a later one, one who acts under a number noted this. -/
structure Scene.Leads (a : Nat) (x y : Scene L E σ) (notes : List (Note L E)) : Prop where
  log : y.log = x.log ++ notes
  sound : y.Sound
  tidy : Tidy a x.begun y.begun x.log notes

/-- What changes nobody's subscription. -/
def Deed.Idle : Deed L E → Prop
  | .subscribes _ _ | .unsubscribes _ _ => False
  | .counts _ | .emits _ _ | .emitsAll _ _ | .calls _ _ _ | .ends => True

theorem Deed.idle_of_begins {d : Deed L E} {k : Nat} (h : d.begins? = some k) : d.Idle := by
  cases d with
  | subscribes | unsubscribes | counts | ends => cases h
  | emits | emitsAll | calls => trivial

section Record

variable {a k : Nat} {x y z : Scene L E σ} {notes notes' : List (Note L E)}

theorem present_concat (log : List (Note L E)) (n : Note L E) :
    present (log ++ [n]) = n.alter (present log) := present_append log [n]

theorem givenOut_concat (log : List (Note L E)) (n : Note L E) :
    givenOut (log ++ [n]) = givenOut log ++ n.subscribed?.toList := by
  rw [givenOut_append]
  cases h : n.subscribed? <;> simp [givenOut, h]

theorem removals_concat (log : List (Note L E)) (n : Note L E) :
    removals (log ++ [n]) = removals log + n.removes.toNat := by
  rw [removals_append]
  cases h : n.removes <;> simp [removals, h]

theorem Scene.Sound.write (h : x.Sound) {d : Deed L E} (hd : d.Idle) : (x.write a d).Sound := by
  have hn : (∀ ls, Note.alter ls (⟨a, d⟩ : Note L E) = ls) ∧
      (⟨a, d⟩ : Note L E).subscribed? = none ∧ (⟨a, d⟩ : Note L E).removes = false := by
    cases d with
    | subscribes | unsubscribes => exact hd.elim
    | counts | emits | emitsAll | calls | ends => exact ⟨fun _ => rfl, rfl, rfl⟩
  obtain ⟨halter, hsub, hrem⟩ := hn
  have hgiven : givenOut (x.write a d).log = givenOut x.log := by
    rw [Scene.write, givenOut_concat, hsub, Option.toList_none, List.append_nil]
  have hremovals : removals (x.write a d).log = removals x.log := by
    rw [Scene.write, removals_concat, hrem, Bool.toNat_false, Nat.add_zero]
  constructor
  · rw [Scene.write, present_concat, halter]
    exact h.present
  · exact h.ordered
  · exact h.fresh
  · rw [hgiven]
    exact h.given
  · rw [hgiven]
    exact h.increasing
  · rw [hgiven, hremovals]
    exact h.size

theorem Scene.Sound.start (h : x.Sound) {d : Nat → Deed L E}
    (hd : (d (x.begun + 1)).Idle) : (x.start a d).Sound :=
  Scene.Sound.write (x := { x with begun := x.begun + 1 })
    ⟨h.present, h.ordered, h.fresh, h.given, h.increasing, h.size⟩ hd

theorem Scene.Sound.subscribe (h : x.Sound) (l : L) :
    ({ x with observers := (x.observers.subscribe l).2 }.write a
      (.subscribes x.observers.next l)).Sound := by
  constructor
  · rw [Scene.write, present_concat, h.present]
    rfl
  · refine List.pairwise_append.mpr ⟨h.ordered, List.pairwise_singleton _ _, fun m hm n hn => ?_⟩
    obtain rfl := List.mem_singleton.mp hn
    exact h.fresh m hm
  · exact h.fresh.subscribe l
  · intro i hi
    rw [Scene.write, givenOut_concat] at hi
    rcases List.mem_append.mp hi with hi | hi
    · exact Nat.lt_succ_of_lt (h.given i hi)
    · obtain rfl := List.mem_singleton.mp hi
      exact Nat.lt_succ_self _
  · rw [Scene.write, givenOut_concat]
    refine List.pairwise_append.mpr ⟨h.increasing, List.pairwise_singleton _ _, fun i hi j hj => ?_⟩
    obtain rfl := List.mem_singleton.mp hj
    exact h.given i hi
  · have hsize := h.size
    have hadded := size_subscribe x.observers l
    simp only [Scene.write, givenOut_concat, removals_concat, Note.subscribed?, Note.removes,
      Option.toList_some, List.length_append, List.length_singleton, Bool.toNat_false]
    omega

/-- At most one listener goes by an id. -/
theorem length_filter_ne {ls : List (Nat × L)} (h : ls.Pairwise (·.1 < ·.1)) (id : Nat) :
    (ls.filter (·.1 != id)).length + (ls.any (·.1 == id)).toNat = ls.length := by
  induction ls with
  | nil => rfl
  | cons l ls ih =>
    obtain ⟨hl, hls⟩ := List.pairwise_cons.mp h
    by_cases hid : l.1 = id
    · have hall : ls.filter (·.1 != id) = ls :=
        List.filter_eq_self.mpr fun m hm => bne_iff_ne.mpr (hid ▸ Nat.ne_of_gt (hl m hm))
      simp [hid, hall]
    · have := ih hls
      simp only [List.filter_cons, List.any_cons, bne_iff_ne, ne_eq, hid, not_false_eq_true,
        if_true, beq_eq_false_iff_ne.mpr hid, Bool.false_or, List.length_cons]
      omega

theorem Scene.Sound.unsubscribe (h : x.Sound) (id : Nat) :
    ({ x with observers := (x.observers.unsubscribe id).2 }.write a
      (.unsubscribes id (x.observers.unsubscribe id).1)).Sound := by
  have hgiven : givenOut (x.log ++ [⟨a, .unsubscribes id (x.observers.unsubscribe id).1⟩]) =
      givenOut x.log := by
    rw [givenOut_concat]
    exact List.append_nil _
  constructor
  · rw [Scene.write, present_concat, h.present]
    refine List.filter_congr fun l _ => ?_
    by_cases hl : l.1 = id <;> simp [hl]
  · exact h.ordered.filter _
  · exact h.fresh.unsubscribe id
  · intro i hi
    rw [Scene.write, hgiven] at hi
    exact h.given i hi
  · rw [Scene.write, hgiven]
    exact h.increasing
  · have hsize := h.size
    have hremoved := length_filter_ne h.ordered id
    rw [Scene.write, hgiven, removals_concat]
    simp only [Note.removes, Observers.unsubscribe, Observers.size] at hsize ⊢
    omega

theorem Scene.sound_start (s : σ) : Scene.Sound ({ world := s } : Scene L E σ) where
  present := rfl
  ordered := List.Pairwise.nil
  fresh := fresh_empty
  given := by simp [givenOut]
  increasing := List.Pairwise.nil
  size := rfl

theorem Scene.Leads.refl (a : Nat) (h : x.Sound) : x.Leads a x [] :=
  ⟨(List.append_nil _).symm, h, .nil a x.begun x.log⟩

theorem Scene.Leads.trans (ha : a ≤ x.begun) (h : x.Leads a y notes) (h' : y.Leads a z notes') :
    x.Leads a z (notes ++ notes') where
  log := by rw [h'.log, h.log, List.append_assoc]
  sound := h'.sound
  tidy := h.tidy.append ha (h.log ▸ h'.tidy)

theorem Scene.Leads.of_world {s : σ} (h : { x with world := s }.Leads a y notes) :
    x.Leads a y notes := ⟨h.log, h.sound, h.tidy⟩

theorem Scene.leads_subscribe (h : x.Sound) (a : Nat) (l : L) :
    x.Leads a ({ x with observers := (x.observers.subscribe l).2 }.write a
      (.subscribes x.observers.next l)) [⟨a, .subscribes x.observers.next l⟩] where
  log := rfl
  sound := h.subscribe l
  tidy := .single rfl nofun h.given

theorem Scene.leads_unsubscribe (h : x.Sound) (a id : Nat) :
    x.Leads a ({ x with observers := (x.observers.unsubscribe id).2 }.write a
      (.unsubscribes id (x.observers.unsubscribe id).1))
      [⟨a, .unsubscribes id (x.observers.unsubscribe id).1⟩] where
  log := rfl
  sound := h.unsubscribe id
  tidy := .single rfl nofun <| by
    simp only [Fits, h.present, Observers.unsubscribe, List.any_eq_true, List.mem_map, beq_iff_eq]

theorem Scene.leads_count (h : x.Sound) (a : Nat) :
    x.Leads a (x.write a (.counts x.observers.size)) [⟨a, .counts x.observers.size⟩] where
  log := rfl
  sound := h.write trivial
  tidy := .single rfl nofun h.size

/-- What takes its time, from its beginning to its end. -/
theorem Scene.Leads.enclose {d : Nat → Deed L E} (ha : a ≤ x.begun)
    (hd : (d (x.begun + 1)).begins? = some (x.begun + 1))
    (h : (x.start a d).Leads (x.begun + 1) y notes)
    (hfits : Within (x.begun + 1) (notes ++ [⟨x.begun + 1, .ends⟩]) →
      Fits x.log ⟨a, d (x.begun + 1)⟩ (notes ++ [⟨x.begun + 1, .ends⟩])) :
    x.Leads a (y.write (x.begun + 1) .ends)
      (⟨a, d (x.begun + 1)⟩ :: (notes ++ [⟨x.begun + 1, .ends⟩])) where
  log := by
    rw [Scene.write, h.log]
    simp [Scene.start, Scene.write]
  sound := h.sound.write trivial
  tidy := .enclose ha hd h.tidy hfits

/-- While it lasts, who began it does nothing. -/
theorem Scene.Leads.others {d : Nat → Deed L E} (ha : a ≤ x.begun)
    (h : (x.start a d).Leads (x.begun + 1) y notes) :
    ∀ n ∈ notes ++ [(⟨x.begun + 1, .ends⟩ : Note L E)], n.actor ≠ a := by
  intro n hn
  rcases List.mem_append.mp hn with hn | hn
  · have hactor := h.tidy.actors n hn
    have hbegun : (x.start a d).begun = x.begun + 1 := rfl
    omega
  · obtain rfl := List.mem_singleton.mp hn
    exact Nat.ne_of_gt (Nat.lt_succ_of_le ha)

/-- One thing after another, each of which is noted once. -/
theorem Scene.Leads.fold {A B : Type} {f : Scene L E σ → A → Option (Scene L E σ)}
    {g : Note L E → Option B} {tell : A → B} {base : List (Note L E)}
    (hstep : ∀ x i y, base <+: x.log → x.Sound → a ≤ x.begun → f x i = some y →
      ∃ notes, x.Leads a y notes ∧ notes.filterMap g = [tell i])
    (is : List A) (hbase : base <+: x.log) (hx : x.Sound) (ha : a ≤ x.begun)
    (h : is.foldlM f x = some y) :
    ∃ notes, x.Leads a y notes ∧ notes.filterMap g = is.map tell := by
  induction is generalizing x with
  | nil =>
    obtain rfl := Option.some.inj h
    exact ⟨[], .refl a hx, rfl⟩
  | cons i is ih =>
    rw [List.foldlM_cons] at h
    obtain ⟨z, hz, hy⟩ := Option.bind_eq_some_iff.mp h
    obtain ⟨notes, hnotes, htold⟩ := hstep x i z hbase hx ha hz
    have hlog : base <+: z.log := hnotes.log ▸ hbase.trans (List.prefix_append _ _)
    obtain ⟨notes', hnotes', htold'⟩ :=
      ih hlog hnotes.sound (Nat.le_trans ha hnotes.tidy.le) hy
    refine ⟨notes ++ notes', hnotes.trans ha hnotes', ?_⟩
    rw [List.filterMap_append, htold, htold']
    rfl

end Record

/-! ## Runs -/

namespace Scene

/-- A way to send that leaves the record right. -/
def Obeys (send : Send L E σ) : Prop :=
  ∀ a e x y, x.Sound → a ≤ x.begun → send a e x = some y →
    ∃ notes, x.Leads a y notes ∧ emittedBy a notes = [e]

section Obeys

variable {a k : Nat} {x y : Scene L E σ} {via : Send L E σ}

theorem leads_sendAll (hvia : Obeys via) (es : List E) (hx : x.Sound) (ha : a ≤ x.begun)
    (h : sendAll via a es x = some y) : ∃ notes, x.Leads a y notes := by
  obtain ⟨z, hz, rfl⟩ := Option.map_eq_some_iff.mp h
  obtain ⟨notes, hnotes, hemitted⟩ := Leads.fold (fun x e y _ => hvia (_ + 1) e x y) es
    (List.prefix_refl _) (hx.start (Deed.idle_of_begins rfl)) (Nat.le_refl _) hz
  refine ⟨_, hnotes.enclose ha rfl fun hwithin => ⟨hwithin, ?_⟩⟩
  rw [emittedBy_append, emittedBy, hemitted]
  simp [emittedBy, Note.emitted?]

/-- What anyone does leaves the record right, if sending does. -/
theorem leads_act (hvia : Obeys via) (p : Conduct L E σ) (hx : x.Sound) (ha : a ≤ x.begun)
    (h : act via a p x = some y) : ∃ notes, x.Leads a y notes := by
  induction p generalizing x with
  | done =>
    obtain rfl := Option.some.inj h
    exact ⟨[], .refl a hx⟩
  | look next ih => exact ih _ hx ha h
  | update s next ih =>
    obtain ⟨notes, hnotes⟩ := ih (x := { x with world := s })
      ⟨hx.present, hx.ordered, hx.fresh, hx.given, hx.increasing, hx.size⟩ ha h
    exact ⟨notes, hnotes.of_world⟩
  | subscribe l next ih =>
    have hstep := leads_subscribe hx a l
    obtain ⟨notes, hnotes⟩ := ih _ hstep.sound ha h
    exact ⟨_, hstep.trans ha hnotes⟩
  | unsubscribe id next ih =>
    have hstep := leads_unsubscribe hx a id
    obtain ⟨notes, hnotes⟩ := ih _ hstep.sound ha h
    exact ⟨_, hstep.trans ha hnotes⟩
  | count next ih =>
    have hstep := leads_count hx a
    obtain ⟨notes, hnotes⟩ := ih _ hstep.sound ha h
    exact ⟨_, hstep.trans ha hnotes⟩
  | emit e next ih =>
    obtain ⟨z, hz, hy⟩ := Option.bind_eq_some_iff.mp h
    obtain ⟨notes, hnotes, -⟩ := hvia a e x z hx ha hz
    obtain ⟨notes', hnotes'⟩ := ih hnotes.sound (Nat.le_trans ha hnotes.tidy.le) hy
    exact ⟨_, hnotes.trans ha hnotes'⟩
  | emitAll es next ih =>
    obtain ⟨z, hz, hy⟩ := Option.bind_eq_some_iff.mp h
    obtain ⟨notes, hnotes⟩ := leads_sendAll hvia es hx ha hz
    obtain ⟨notes', hnotes'⟩ := ih hnotes.sound (Nat.le_trans ha hnotes.tidy.le) hy
    exact ⟨_, hnotes.trans ha hnotes'⟩

theorem leads_call (hvia : Obeys via) {react : Nat × L → E → Conduct L E σ} {e : E}
    {l : Nat × L} (hemits : ∃ a, ⟨a, .emits k e⟩ ∈ x.log) (hx : x.Sound) (hk : k ≤ x.begun)
    (h : call react via k e l x = some y) :
    ∃ notes, x.Leads k y notes ∧ calledBy k notes = [(l, e)] := by
  obtain ⟨z, hz, rfl⟩ := Option.map_eq_some_iff.mp h
  obtain ⟨notes, hnotes⟩ := leads_act hvia _ (hx.start (Deed.idle_of_begins rfl)) (Nat.le_refl _) hz
  refine ⟨_, hnotes.enclose hk rfl fun hwithin => ⟨hwithin, hemits⟩, ?_⟩
  rw [calledBy, List.filterMap_cons, ← calledBy, calledBy_of_ne (hnotes.others hk)]
  simp [Note.called?]

/-- A delivery stops where a call does not come to an end. -/
theorem deliver_eq_foldlM (o : Observers L) (f : Nat × L → Scene L E σ → Option (Scene L E σ))
    (x : Scene L E σ) :
    o.deliver (fun l y => y.bind (f l)) (some x) = o.listeners.foldlM (fun y l => f l y) x := by
  unfold Observers.deliver
  have hnone (ls : List (Nat × L)) :
      ls.foldl (fun y l => y.bind (f l)) (none : Option (Scene L E σ)) = none := by
    induction ls with
    | nil => rfl
    | cons l ls ih => exact ih
  induction o.listeners generalizing x with
  | nil => rfl
  | cons l ls ih =>
    rw [List.foldl_cons, List.foldlM_cons]
    change ls.foldl (fun y l => y.bind (f l)) (f l x) = (f l x).bind _
    cases f l x with
    | none => exact hnone ls
    | some y => exact ih y

theorem obeys_send (react : Nat × L → E → Conduct L E σ) (depth : Nat) :
    Obeys (send react depth) := by
  induction depth with
  | zero => exact fun _ _ _ _ _ _ h => nomatch h
  | succ depth ih =>
    intro a e x y hx ha h
    obtain ⟨z, hz, rfl⟩ := Option.map_eq_some_iff.mp h
    rw [deliver_eq_foldlM] at hz
    have hcall (z : Scene L E σ) (l : Nat × L) (y : Scene L E σ)
        (hlog : (x.start a (.emits · e)).log <+: z.log) :
        z.Sound → x.begun + 1 ≤ z.begun →
          call react (send react depth) (x.begun + 1) e l z = some y →
          ∃ notes, z.Leads (x.begun + 1) y notes ∧ calledBy (x.begun + 1) notes = [(l, e)] :=
      leads_call ih ⟨a, hlog.subset (List.mem_append_right _ (by simp))⟩
    obtain ⟨notes, hnotes, hcalled⟩ := Leads.fold hcall x.observers.listeners
      (List.prefix_refl _) (hx.start (Deed.idle_of_begins rfl)) (Nat.le_refl _) hz
    refine ⟨_, hnotes.enclose ha rfl fun hwithin => ⟨hwithin, ?_, ?_⟩, ?_⟩
    · rw [calledBy_append, calledBy, hcalled, hx.present]
      simp [calledBy, Note.called?]
    · rw [hx.present]
      exact hx.ordered
    · rw [emittedBy, List.filterMap_cons, ← emittedBy, emittedBy_of_ne (hnotes.others ha)]
      simp [Note.emitted?]

end Obeys

/-! ## Depth -/

/-- What one way to send brings to an end, the other does too, with the same outcome. -/
def Send.Follows (via more : Send L E σ) : Prop :=
  ∀ a e x y, via a e x = some y → more a e x = some y

section Follows

variable {via more : Send L E σ} {x y : Scene L E σ}

theorem Send.Follows.foldlM {A : Type} {f g : Scene L E σ → A → Option (Scene L E σ)}
    (h : ∀ x i y, f x i = some y → g x i = some y) (is : List A)
    (hf : is.foldlM f x = some y) : is.foldlM g x = some y := by
  induction is generalizing x with
  | nil => exact hf
  | cons i is ih =>
    rw [List.foldlM_cons] at hf ⊢
    obtain ⟨z, hz, hy⟩ := Option.bind_eq_some_iff.mp hf
    exact Option.bind_eq_some_iff.mpr ⟨z, h x i z hz, ih hy⟩

theorem Send.Follows.sendAll (h : via.Follows more) (a : Nat) (es : List E)
    (hs : Scene.sendAll via a es x = some y) : Scene.sendAll more a es x = some y := by
  obtain ⟨z, hz, rfl⟩ := Option.map_eq_some_iff.mp hs
  exact Option.map_eq_some_iff.mpr ⟨z, foldlM (fun y e => h _ e y) es hz, rfl⟩

theorem Send.Follows.act (h : via.Follows more) (a : Nat) (p : Conduct L E σ)
    (hs : Scene.act via a p x = some y) : Scene.act more a p x = some y := by
  induction p generalizing x with
  | done => exact hs
  | look next ih | subscribe l next ih | unsubscribe id next ih | count next ih => exact ih _ hs
  | update s next ih => exact ih hs
  | emit e next ih =>
    obtain ⟨z, hz, hy⟩ := Option.bind_eq_some_iff.mp hs
    exact Option.bind_eq_some_iff.mpr ⟨z, h a e x z hz, ih hy⟩
  | emitAll es next ih =>
    obtain ⟨z, hz, hy⟩ := Option.bind_eq_some_iff.mp hs
    exact Option.bind_eq_some_iff.mpr ⟨z, h.sendAll a es hz, ih hy⟩

theorem Send.Follows.call (h : via.Follows more) (react : Nat × L → E → Conduct L E σ)
    (k : Nat) (e : E) (l : Nat × L) (hs : Scene.call react via k e l x = some y) :
    Scene.call react more k e l x = some y := by
  obtain ⟨z, hz, rfl⟩ := Option.map_eq_some_iff.mp hs
  exact Option.map_eq_some_iff.mpr ⟨z, h.act _ _ hz, rfl⟩

theorem Send.Follows.send {react : Nat × L → E → Conduct L E σ} (depth : Nat) :
    (send react depth).Follows (send react (depth + 1)) := by
  induction depth with
  | zero => exact fun _ _ _ _ h => nomatch h
  | succ depth ih =>
    intro a e x y h
    obtain ⟨z, hz, rfl⟩ := Option.map_eq_some_iff.mp h
    refine Option.map_eq_some_iff.mpr ⟨z, ?_, rfl⟩
    rw [deliver_eq_foldlM] at hz ⊢
    exact foldlM (fun _ l _ => ih.call react _ e l) _ hz

end Follows

/-- Someone uses a list of listeners from its beginning, with events nested up to a
depth; none if that does not come to an end. -/
def run (react : Nat × L → E → Conduct L E σ) (depth : Nat) (p : Conduct L E σ) (s : σ) :
    Option (Scene L E σ) := act (send react depth) 0 p { world := s }

theorem run_deeper {react : Nat × L → E → Conduct L E σ} {depth more : Nat}
    {p : Conduct L E σ} {s : σ} {y : Scene L E σ} (h : run react depth p s = some y)
    (hmore : depth ≤ more) : run react more p s = some y := by
  induction hmore with
  | refl => exact h
  | step _ ih => exact (Send.Follows.send _).act 0 p ih

/-- What happened to a list from its beginning. Every note fits where it stands, what
began has a number of its own, and the list is what the record makes of it. -/
structure Told (y : Scene L E σ) : Prop where
  fits : ∀ before n after, y.log = before ++ n :: after → Fits before n after
  numbers : y.log.filterMap (·.deed.begins?) = List.range' 1 y.begun
  present : Observers.present y.log = y.observers.listeners
  increasing : (givenOut y.log).Pairwise (· < ·)
  size : y.observers.size + removals y.log = (givenOut y.log).length

/-- Whatever is done with a list of listeners, and whatever they do when they are
called, if it all comes to an end then each event was heard by those who were
subscribed when it was sent, once each and in their order, and each was delivered
before what contains it went on. -/
theorem told_of_run (react : Nat × L → E → Conduct L E σ) (depth : Nat) (p : Conduct L E σ)
    (s : σ) {y : Scene L E σ} (h : run react depth p s = some y) :
    y.Told ∧ ∀ more, depth ≤ more → run react more p s = some y := by
  obtain ⟨notes, hnotes⟩ := leads_act (obeys_send react depth) p (sound_start s) (Nat.le_refl 0) h
  have hlog : y.log = notes := hnotes.log
  refine ⟨⟨?_, ?_, hnotes.sound.present, hnotes.sound.increasing, hnotes.sound.size⟩,
    fun more => run_deeper h⟩
  · rw [hlog]
    exact hnotes.tidy.fits
  · rw [hlog]
    exact hnotes.tidy.numbers

/-- A listener that passes the event 1 on, once: it subscribes another, leaves, and
sends 2. -/
def relay : Nat × Bool → Nat → Conduct Bool Nat Unit
  | (id, true), 1 => .subscribe false fun _ => .unsubscribe id fun _ => .emit 2 .done
  | _, _ => .done

theorem told_of_relay :
    ∃ y, run relay 2 (.subscribe true fun _ => .subscribe false fun _ => .emit 1 (.emit 2 .done)) ()
        = some y ∧
      calledBy 1 y.log = [((1, true), 1), ((2, false), 1)] ∧
      y.observers.listeners = [(2, false), (3, false)] ∧
      y.Told ∧ ∀ more, 2 ≤ more → run relay more
        (.subscribe true fun _ => .subscribe false fun _ => .emit 1 (.emit 2 .done)) () = some y :=
  ⟨_, rfl, rfl, rfl, told_of_run relay 2 _ () rfl⟩

end Scene

/-! ## Scripts

A scripted listener is one of these, and a script plays as its conduct says. -/

open Script

/-- What scripted listeners share besides the list. -/
structure Ledger where
  names : List (String × Nat) := []
  log : List Entry := []

/-- One reaction of the named listener, and what comes after it. -/
def reply (name : String) (rest : Conduct Listener Int Ledger) :
    Reaction → Conduct Listener Int Ledger
  | .unsubscribe who => .look fun w =>
    match w.names.lookup who with
    | none => .update { w with log := w.log ++ [.unsubscribed name none] } rest
    | some id => .unsubscribe id fun found =>
      .update { w with log := w.log ++ [.unsubscribed name (some found)] } rest
  | .subscribe as => .subscribe { name := as } fun id =>
    .look fun w => .update { w with names := (as, id) :: w.names } rest
  | .send event => .emit event rest

def scripted (l : Nat × Listener) (e : Int) : Conduct Listener Int Ledger :=
  .look fun w => .update { w with log := w.log ++ [.heard l.2.name e] }
    ((l.2.reactions.filter (·.1 == e)).foldr (fun r rest => reply l.2.name rest r.2) .done)

def Scene.stage (x : Scene Listener Int Ledger) : Stage :=
  { observers := x.observers, names := x.world.names, log := x.world.log }

section Script

variable {via : Scene.Send Listener Int Ledger} {f : Int → Stage → Stage} {a k : Nat}
  {x y : Scene Listener Int Ledger}

theorem act_reply (hvia : ∀ a e x y, via a e x = some y → f e x.stage = y.stage) (name : String)
    (rest : Conduct Listener Int Ledger) (r : Reaction)
    (h : Scene.act via a (reply name rest r) x = some y) :
    ∃ z, Scene.act via a rest z = some y ∧ z.stage = Stage.react f name x.stage r := by
  cases r with
  | unsubscribe who =>
    simp only [reply, Scene.act] at h
    cases hid : x.world.names.lookup who with
    | none =>
      rw [hid] at h
      exact ⟨_, h, by simp [Stage.react, Stage.unsubscribe, Scene.stage, Stage.write, hid]⟩
    | some id =>
      rw [hid] at h
      refine ⟨_, h, ?_⟩
      simp only [Stage.react, Stage.unsubscribe, Scene.stage, Scene.write, Stage.write, hid]
      rfl
  | subscribe as => exact ⟨_, h, rfl⟩
  | send event =>
    obtain ⟨z, hz, hy⟩ := Option.bind_eq_some_iff.mp h
    exact ⟨z, hy, (hvia a event x z hz).symm⟩

theorem act_replies (hvia : ∀ a e x y, via a e x = some y → f e x.stage = y.stage) (name : String)
    (rs : List (Int × Reaction))
    (h : Scene.act via a (rs.foldr (fun r rest => reply name rest r.2) .done) x = some y) :
    rs.foldl (fun s r => Stage.react f name s r.2) x.stage = y.stage := by
  induction rs generalizing x with
  | nil =>
    obtain rfl := Option.some.inj h
    rfl
  | cons r rs ih =>
    obtain ⟨z, hz, hreact⟩ := act_reply hvia _ _ _ h
    rw [List.foldl_cons, ← hreact]
    exact ih hz

theorem call_scripted (hvia : ∀ a e x y, via a e x = some y → f e x.stage = y.stage) {e : Int}
    {l : Nat × Listener} (h : Scene.call scripted via k e l x = some y) :
    Stage.hear f e l x.stage = y.stage := by
  obtain ⟨z, hz, rfl⟩ := Option.map_eq_some_iff.mp h
  exact act_replies hvia l.2.name (l.2.reactions.filter (·.1 == e)) hz

theorem foldl_stage {A : Type}
    {g : Scene Listener Int Ledger → A → Option (Scene Listener Int Ledger)}
    {g' : Stage → A → Stage} (hg : ∀ x i y, g x i = some y → g' x.stage i = y.stage) (is : List A)
    (h : is.foldlM g x = some y) : is.foldl g' x.stage = y.stage := by
  induction is generalizing x with
  | nil =>
    obtain rfl := Option.some.inj h
    rfl
  | cons i is ih =>
    rw [List.foldlM_cons] at h
    obtain ⟨z, hz, hy⟩ := Option.bind_eq_some_iff.mp h
    rw [List.foldl_cons, hg x i z hz]
    exact ih hy

/-- A scripted event goes as the conduct of the listeners says. -/
theorem deliver_of_send (depth : Nat) {e : Int} (h : Scene.send scripted depth a e x = some y) :
    Stage.deliver depth e x.stage = y.stage := by
  induction depth generalizing a e x y with
  | zero => cases h
  | succ depth ih =>
    obtain ⟨z, hz, rfl⟩ := Option.map_eq_some_iff.mp h
    rw [Scene.deliver_eq_foldlM] at hz
    have hhear (x' : Scene Listener Int Ledger) (l : Nat × Listener)
        (y' : Scene Listener Int Ledger) :
        Scene.call scripted (Scene.send scripted depth) (x.begun + 1) e l x' = some y' →
          Stage.hear (Stage.deliver depth) e l x'.stage = y'.stage :=
      call_scripted fun a e x y h => ih h
    have hplayed : x.observers.listeners.foldl (fun s l => Stage.hear (Stage.deliver depth) e l s)
        (x.start a (.emits · e)).stage = z.stage := foldl_stage hhear _ hz
    exact hplayed

end Script

end LiveRecords.Observers
