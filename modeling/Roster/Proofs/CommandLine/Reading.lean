import Roster.Proofs.CommandLine.Given

namespace Roster.CommandLine

variable {scope : Scope} {p q : Progress}

-- What one argument that is read changes.
inductive Takes (scope : Scope) (p : Progress) : Bytes → Progress → Prop
  | dashes : Takes scope p dashes { p with isTrailing := true }
  | start {f : Flag} {s : Settings} :
    f.isKnownIn scope = true → p.settle = .ok s →
    Takes scope p f.argument { p with settings := s, pending := some (f, none) }
  | attached {f : Flag} {v : Bytes} {s s' : Settings} :
    f.isKnownIn scope = true → p.settle = .ok s → s.give f (some v) = .ok s' →
    Takes scope p (f.argument ++ equalsSign :: v) { p with settings := s', pending := none }
  | value {f : Flag} {v : Bytes} :
    p.awaits = some f → StandsAlone v →
    Takes scope p v { p with pending := some (f, some v) }

theorem find?_eq_some_iff {w : String} {f : Flag} :
    Flag.find? scope w = some f ↔ w = f.word ∧ f.isKnownIn scope = true := by
  constructor
  · intro h
    have hf := List.find?_some h
    simp only [decide_eq_true_eq] at hf
    exact ⟨hf.1.symm, hf.2⟩
  · rintro ⟨rfl, hk⟩
    cases f <;> cases scope <;> first | rfl | exact absurd hk (by decide)

theorem find?_eq_none {f : Flag} (hf : f.isKnownIn scope = false) :
    Flag.find? scope f.word = none := by
  cases h : Flag.find? scope f.word with
  | none => rfl
  | some g =>
    obtain ⟨hw, hg⟩ := find?_eq_some_iff.1 h
    rw [← word_injective hw, hf] at hg
    cases hg

theorem liftUsage_eq_ok_iff {α : Type} {r : Except UsageError α} {a : α} :
    liftUsage r = .ok a ↔ r = .ok a := Except.mapError_eq_ok_iff

theorem usage_ne_ok {α : Type} {e : UsageError} {a : α} : usage e ≠ .ok a := nofun

theorem interrupt_ne_ok {α : Type} {what : Interruption} {a : α} :
    interrupt p what ≠ .ok a := by
  intro h
  obtain ⟨s, -, hs⟩ := Except.bind_eq_ok_iff.1 h
  cases hs

theorem readShort_ne_ok {letters : Bytes} :
    readShort scope p letters ≠ .ok q := by
  unfold readShort
  split
  · split_ifs
    · exact interrupt_ne_ok
    · exact interrupt_ne_ok
    · exact usage_ne_ok
  · exact usage_ne_ok

theorem readLong_known {f : Flag} {v : Option Bytes}
    (hf : f.isKnownIn scope = true) :
    readLong scope p (Bytes.ofString f.word) v = (liftUsage p.settle).bind fun s =>
      match v with
      | some _ => (liftUsage (s.give f v)).bind fun s' =>
        .ok { p with settings := s', pending := none }
      | none => .ok { p with settings := s, pending := some (f, none) } := by
  rw [readLong, Bytes.text?_ofString]
  simp only [find?_eq_some_iff.2 ⟨rfl, hf⟩]
  rfl

theorem readLong_unknown {f : Flag} {v : Option Bytes}
    (hf : f.isKnownIn scope = false) :
    ∃ e, readLong scope p (Bytes.ofString f.word) v = usage e := by
  have hword : ¬(f.word = "help" ∨ f.word = "version" ∧ scope = .top) := by
    rintro (h | ⟨h, -⟩) <;> cases f <;> exact absurd h (by decide)
  rw [readLong, Bytes.text?_ofString]
  simp only [find?_eq_none hf, if_neg hword]
  exact ⟨_, rfl⟩

theorem exists_flag_of_readLong {w : Bytes} {v : Option Bytes}
    (h : readLong scope p w v = .ok q) :
    ∃ f : Flag, w = Bytes.ofString f.word ∧ f.isKnownIn scope = true := by
  unfold readLong at h
  split at h
  · exact absurd h usage_ne_ok
  · rename_i t ht
    split at h
    · rename_i f hf
      obtain ⟨rfl, hk⟩ := find?_eq_some_iff.1 hf
      exact ⟨f, Bytes.text?_eq_some_iff.1 ht, hk⟩
    · split at h
      · split at h
        · exact absurd h usage_ne_ok
        · exact absurd h interrupt_ne_ok
      · exact absurd h usage_ne_ok

theorem takes_of_readLong {a w : Bytes} {v : Option Bytes}
    (ha : shape a = .long w v) (h : readLong scope p w v = .ok q) : Takes scope p a q := by
  obtain ⟨f, rfl, hf⟩ := exists_flag_of_readLong h
  rw [readLong_known hf] at h
  obtain ⟨s, hs, hv⟩ := Except.bind_eq_ok_iff.1 h
  have hsettle := liftUsage_eq_ok_iff.1 hs
  rw [eq_of_shape_eq_long ha]
  cases v with
  | none =>
    cases hv
    have htake := Takes.start hf hsettle
    rwa [← List.append_nil f.argument] at htake
  | some u =>
    obtain ⟨s', hgive, hq⟩ := Except.bind_eq_ok_iff.1 hv
    cases hq
    exact .attached hf hsettle (liftUsage_eq_ok_iff.1 hgive)

theorem takes_of_readArgument {a : Bytes} (hp : p.isTrailing = false)
    (h : readArgument scope p a = .ok q) : Takes scope p a q := by
  have hopen : ¬p.isTrailing = true := by simp [hp]
  rw [readArgument, if_neg hopen] at h
  split at h
  · rename_i ha
    cases h
    rw [shape_eq_dashes_iff.1 ha]
    exact .dashes
  · rename_i w v ha
    exact takes_of_readLong ha h
  · exact absurd h readShort_ne_ok
  · rename_i ha
    split at h
    · rename_i f hf
      cases h
      exact .value hf (shape_eq_plain_iff.1 ha)
    · exact absurd h usage_ne_ok

theorem readArgument_of_takes {a : Bytes} (hp : p.isTrailing = false)
    (h : Takes scope p a q) : readArgument scope p a = .ok q := by
  have hopen : ¬p.isTrailing = true := by simp [hp]
  rw [readArgument, if_neg hopen]
  cases h with
  | dashes => rw [shape_eq_dashes_iff.2 rfl]
  | start hf hs =>
    simp only [shape_argument, readLong_known hf, liftUsage_eq_ok_iff.2 hs]
    rfl
  | attached hf hs hg =>
    simp only [shape_attached, readLong_known hf, liftUsage_eq_ok_iff.2 hs, Except.bind,
      liftUsage_eq_ok_iff.2 hg]
  | value hf hv => simp only [shape_eq_plain_iff.2 hv, hf]

theorem readArgument_eq_ok_iff {a : Bytes} (hp : p.isTrailing = false) :
    readArgument scope p a = .ok q ↔ Takes scope p a q :=
  ⟨takes_of_readArgument hp, readArgument_of_takes hp⟩

namespace Progress

-- The argument that has been read of a flag whose value is still to come.
def started (p : Progress) : List Bytes := (p.awaits.map Flag.argument).toList

-- The settings without the flag that still awaits its value.
def complete (p : Progress) : Except UsageError Settings :=
  if p.awaits = none then p.settle else .ok p.settings

def ending (p : Progress) : List Bytes := if p.isTrailing then [dashes] else []

end Progress

-- A flag without its value cannot be taken in.
theorem awaits_of_settle {s : Settings} (h : p.settle = .ok s) :
    p.awaits = none := by
  unfold Progress.awaits
  split
  · rename_i f hf
    rw [Progress.settle, hf] at h
    cases h
  · rfl

theorem complete_of_settle {s : Settings} (h : p.settle = .ok s) :
    p.complete = .ok s := by
  rw [Progress.complete, if_pos (awaits_of_settle h), h]

theorem started_of_settle {s : Settings} (h : p.settle = .ok s) :
    p.started = [] := by
  rw [Progress.started, awaits_of_settle h]
  rfl

theorem readArguments_cons_eq_ok_iff {a : Bytes} {args : List Bytes} :
    readArguments scope p (a :: args) = .ok q ↔
      ∃ p', readArgument scope p a = .ok p' ∧ readArguments scope p' args = .ok q := by
  rw [readArguments, List.foldlM_cons]
  exact Except.bind_eq_ok_iff

theorem eq_nil_of_isTrailing {args : List Bytes} (hp : p.isTrailing = true)
    (h : readArguments scope p args = .ok q) : args = [] ∧ q = p := by
  cases args with
  | nil =>
    cases h
    exact ⟨rfl, rfl⟩
  | cons a args =>
    obtain ⟨p', hp', -⟩ := readArguments_cons_eq_ok_iff.1 h
    rw [readArgument, if_pos hp] at hp'
    exact absurd hp' usage_ne_ok

-- The induction is on the arguments. A flag that has been started counts as the first argument,
-- so the two arguments of a flag fall into two steps.
theorem written_of_readArguments {s : Settings} {args : List Bytes} (hp : p.isTrailing = false)
    (hknown : ∀ f, p.awaits = some f → f.isKnownIn scope = true)
    (h : readArguments scope p args = .ok q) (hs : q.settle = .ok s) :
    ∃ xs s₀, p.started ++ args = written xs ++ q.ending ∧
      (∀ x ∈ xs, x.flag.isKnownIn scope = true) ∧ p.complete = .ok s₀ ∧ giveAll s₀ xs = .ok s := by
  induction args generalizing p with
  | nil =>
    obtain rfl : p = q := Except.ok.inj h
    refine ⟨[], s, ?_, by simp, complete_of_settle hs, rfl⟩
    rw [started_of_settle hs, Progress.ending, hp]
    rfl
  | cons a args ih =>
    obtain ⟨p', hp', hrest⟩ := readArguments_cons_eq_ok_iff.1 h
    cases (readArgument_eq_ok_iff hp).1 hp' with
    | dashes =>
      obtain ⟨rfl, rfl⟩ := eq_nil_of_isTrailing rfl hrest
      have hsettle : p.settle = .ok s := hs
      refine ⟨[], s, ?_, by simp, complete_of_settle hsettle, rfl⟩
      rw [started_of_settle hsettle]
      rfl
    | @start f t hf ht =>
      have hstarted (g : Flag) (hg : some f = some g) : g.isKnownIn scope = true := by
        cases hg
        exact hf
      obtain ⟨xs, s₀, hargs, hxs, hs₀, hgive⟩ :=
        ih (p := { p with settings := t, pending := some (f, none) }) hp hstarted hrest
      refine ⟨xs, t, ?_, hxs, complete_of_settle ht, ?_⟩
      · rw [started_of_settle ht]
        exact hargs
      · cases hs₀
        exact hgive
    | @attached f v t t' hf ht hg =>
      obtain ⟨xs, s₀, hargs, hxs, hs₀, hgive⟩ :=
        ih (p := { p with settings := t', pending := none }) hp nofun hrest
      cases hs₀
      refine ⟨.attached f v :: xs, t, ?_, ?_, complete_of_settle ht, ?_⟩
      · rw [started_of_settle ht]
        exact congrArg (_ :: ·) hargs
      · exact List.forall_mem_cons.2 ⟨hf, hxs⟩
      · exact giveAll_cons_eq_ok_iff.2 ⟨t', hg, hgive⟩
    | @value f _ hf ha =>
      obtain ⟨xs, s₀, hargs, hxs, hs₀, hgive⟩ :=
        ih (p := { p with pending := some (f, some a) }) hp nofun hrest
      refine ⟨.separate f a ha :: xs, p.settings, ?_, ?_, ?_, ?_⟩
      · rw [Progress.started, hf]
        exact congrArg (f.argument :: a :: ·) hargs
      · exact List.forall_mem_cons.2 ⟨hknown f hf, hxs⟩
      · rw [Progress.complete, hf]
        rfl
      · exact giveAll_cons_eq_ok_iff.2 ⟨s₀, hs₀, hgive⟩

-- The reader may be in the middle of a flag, so a run is described together with the flag that it
-- has started.
theorem exists_written_of_readArguments {s : Settings} {args : List Bytes}
    (h : readArguments scope {} args = .ok q) (hs : q.settle = .ok s) :
    ∃ xs, args = written xs ++ q.ending ∧ (∀ x ∈ xs, x.flag.isKnownIn scope = true) ∧
      giveAll {} xs = .ok s := by
  have hknown (f : Flag) (hf : (none : Option Flag) = some f) : f.isKnownIn scope = true := by
    cases hf
  obtain ⟨xs, s₀, hargs, hxs, hs₀, hgive⟩ := written_of_readArguments (p := {}) rfl hknown h hs
  cases hs₀
  exact ⟨xs, hargs, hxs, hgive⟩

-- Between two flags, and not behind the two dashes.
def Progress.IsReady (p : Progress) : Prop := p.isTrailing = false ∧ p.awaits = none

-- A value that is attached is read at once; one that is separate waits.
def Choice.take (x : Choice) (s : Settings) : Except UsageError Progress :=
  match x with
  | .attached f v => (s.give f (some v)).map fun s' => { settings := s' }
  | .separate f v _ => .ok { settings := s, pending := some (f, some v) }

theorem readArguments_append (args args' : List Bytes) :
    readArguments scope p (args ++ args') =
      (readArguments scope p args).bind fun q => readArguments scope q args' :=
  List.foldlM_append

theorem readArguments_singleton (a : Bytes) :
    readArguments scope p [a] = readArgument scope p a := by
  rw [readArguments, List.foldlM_cons]
  exact bind_pure _

theorem readArgument_long {a w : Bytes} {v : Option Bytes} (hp : p.isTrailing = false)
    (ha : shape a = .long w v) : readArgument scope p a = readLong scope p w v := by
  simp only [readArgument, hp, ha, Bool.false_eq_true, if_false]

theorem readArguments_choice {x : Choice} (hp : p.IsReady)
    (hx : x.flag.isKnownIn scope = true) :
    readArguments scope p x.arguments =
      (liftUsage p.settle).bind fun s => liftUsage (x.take s) := by
  obtain ⟨hopen, -⟩ := hp
  cases x with
  | attached f v =>
    rw [Choice.arguments, readArguments_singleton, readArgument_long hopen (shape_attached f v),
      readLong_known (f := f) hx]
    congr 1
    funext s
    simp only [Choice.take, hopen]
    cases s.give f (some v) <;> rfl
  | separate f v hv =>
    rw [Choice.arguments, ← List.singleton_append, readArguments_append, readArguments_singleton,
      readArgument_long hopen (shape_argument f), readLong_known (f := f) hx]
    cases p.settle with
    | error e => rfl
    | ok s =>
      have hread : readArgument scope { settings := s, pending := some (f, none) } v =
          .ok { settings := s, pending := some (f, some v) } :=
        (readArgument_eq_ok_iff rfl).2 (.value rfl hv)
      rw [← readArguments_singleton] at hread
      rw [hopen]
      exact hread

theorem exists_take {x : Choice} {s s' : Settings} (h : s.give x.flag (some x.value) = .ok s') :
    ∃ q, x.take s = .ok q ∧ q.settle = .ok s' := by
  cases x with
  | attached f v => exact ⟨_, Except.map_eq_ok_iff.2 ⟨s', h, rfl⟩, rfl⟩
  | separate f v hv => exact ⟨_, rfl, h⟩

theorem isReady_of_take {x : Choice} {s : Settings} (h : x.take s = .ok q) :
    q.IsReady := by
  cases x with
  | attached f v =>
    obtain ⟨s', -, rfl⟩ := Except.map_eq_ok_iff.1 h
    exact ⟨rfl, rfl⟩
  | separate f v hv =>
    cases h
    exact ⟨rfl, rfl⟩

theorem readArguments_written {xs : List Choice} {s₀ s : Settings} (hp : p.IsReady)
    (hknown : ∀ x ∈ xs, x.flag.isKnownIn scope = true) (hs₀ : p.settle = .ok s₀)
    (hgive : giveAll s₀ xs = .ok s) :
    ∃ q, readArguments scope p (written xs) = .ok q ∧ q.IsReady ∧ q.settle = .ok s := by
  induction xs generalizing p s₀ with
  | nil =>
    cases hgive
    exact ⟨p, rfl, hp, hs₀⟩
  | cons x xs ih =>
    obtain ⟨hx, hxs⟩ := List.forall_mem_cons.1 hknown
    obtain ⟨t, ht, hrest⟩ := giveAll_cons_eq_ok_iff.1 hgive
    obtain ⟨p', htake, hsettle⟩ := exists_take ht
    obtain ⟨q, hq, hready, hqs⟩ := ih (isReady_of_take htake) hxs hsettle hrest
    refine ⟨q, ?_, hready, hqs⟩
    have hread : readArguments scope p x.arguments = .ok p' := by
      rw [readArguments_choice hp hx, hs₀]
      exact liftUsage_eq_ok_iff.2 htake
    rw [written, List.flatMap_cons, readArguments_append, hread]
    exact hq

theorem readArguments_unknown {x : Choice} (hp : p.IsReady)
    (hx : x.flag.isKnownIn scope = false) :
    ∃ e, readArguments scope p x.arguments = .error (.usage e) := by
  obtain ⟨hopen, -⟩ := hp
  cases x with
  | attached f v =>
    obtain ⟨e, he⟩ := readLong_unknown (p := p) (v := some v) hx
    refine ⟨e, ?_⟩
    rw [Choice.arguments, readArguments_singleton, readArgument_long hopen (shape_attached f v)]
    exact he
  | separate f v hv =>
    obtain ⟨e, he⟩ := readLong_unknown (p := p) (v := none) hx
    refine ⟨e, ?_⟩
    rw [Choice.arguments, ← List.singleton_append, readArguments_append, readArguments_singleton,
      readArgument_long hopen (shape_argument f)]
    exact congrArg (Except.bind · _) he

-- An item is read to its end, or it is a mistake in the usage.
theorem readArguments_item (hp : p.IsReady) (x : Item) :
    (∃ e, readArguments scope p x.arguments = .error (.usage e)) ∨
      ∃ q, readArguments scope p x.arguments = .ok q ∧ q.IsReady := by
  cases x with
  | word c =>
    left
    refine ⟨misplaced scope p c.word, ?_⟩
    rw [Item.arguments, readArguments_singleton]
    simp only [readArgument, hp.1, shape_word, hp.2, Bool.false_eq_true, if_false]
    rfl
  | choice x =>
    rw [Item.arguments]
    by_cases hx : x.flag.isKnownIn scope = true
    · rw [readArguments_choice hp hx]
      cases p.settle with
      | error e => exact .inl ⟨e, rfl⟩
      | ok s =>
        cases ht : x.take s with
        | error e =>
          have hlift : liftUsage (x.take s) = .error (.usage e) := by
            rw [ht]
            rfl
          exact .inl ⟨e, hlift⟩
        | ok q =>
          have hlift : liftUsage (x.take s) = .ok q := liftUsage_eq_ok_iff.2 ht
          exact .inr ⟨q, hlift, isReady_of_take ht⟩
    · exact .inl (readArguments_unknown hp (eq_false_of_ne_true hx))

theorem exists_usage_of_readArguments {items : List Item} {i : Interruption} (hp : p.IsReady)
    (h : readArguments scope p (arguments items) = .error i) : ∃ e, i = .usage e := by
  induction items generalizing p with
  | nil => cases h
  | cons x items ih =>
    rw [arguments, List.flatMap_cons, readArguments_append] at h
    rcases readArguments_item hp x with ⟨e, he⟩ | ⟨q, hq, hready⟩
    · rw [he] at h
      cases h
      exact ⟨e, rfl⟩
    · rw [hq] at h
      exact ih hready h

end Roster.CommandLine
