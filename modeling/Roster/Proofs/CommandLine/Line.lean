import Roster.Proofs.CommandLine.Accepted

namespace Roster.CommandLine

-- A command line by its parts. Two dashes may stand at its end.
structure Line where
  front : List Choice
  command : Subcommand
  behind : List Choice
  isEnded : Bool

namespace Line

def arguments (l : Line) : List Bytes :=
  written l.front ++ l.command.word :: (written l.behind ++ if l.isEnded then [dashes] else [])

def IsAccepted (l : Line) : Prop := Accepted l.front l.command l.behind

-- A part of the line takes a flag that may stand there and is not given there yet.
inductive Takes (x : Choice) : Line → Line → Prop
  | front {xs ys behind : List Choice} {c : Subcommand} {isEnded : Bool} :
    x.flag.isGlobal = true → given x.flag (xs ++ ys) = [] →
    Takes x ⟨xs ++ ys, c, behind, isEnded⟩ ⟨xs ++ x :: ys, c, behind, isEnded⟩
  | behind {front xs ys : List Choice} {c : Subcommand} {isEnded : Bool} :
    x.flag.isGlobal = true ∨ c = .demo → given x.flag (xs ++ ys) = [] →
    Takes x ⟨front, c, xs ++ ys, isEnded⟩ ⟨front, c, xs ++ x :: ys, isEnded⟩

end Line

variable {scope : Scope} {l l' : Line} {x : Choice} {xs ys : List Choice} {f g : Flag} {v : Bytes}

section Dashes

theorem readArguments_written_cases (scope : Scope) {p : Progress} (hp : p.IsReady)
    (xs : List Choice) :
    (∃ e, readArguments scope p (written xs) = .error (.usage e)) ∨
      ∃ q, readArguments scope p (written xs) = .ok q ∧ q.IsReady := by
  induction xs generalizing p with
  | nil => exact .inr ⟨p, rfl, hp⟩
  | cons x xs ih =>
    rw [written, List.flatMap_cons, readArguments_append]
    have hitem : (∃ e, readArguments scope p x.arguments = .error (.usage e)) ∨
        ∃ q, readArguments scope p x.arguments = .ok q ∧ q.IsReady :=
      readArguments_item hp (.choice x)
    rcases hitem with ⟨e, he⟩ | ⟨q, hq, hready⟩
    · exact .inl ⟨e, by rw [he]; rfl⟩
    · rw [hq]
      exact ih hready

theorem readArguments_dashes {p : Progress} (hp : p.IsReady) :
    readArguments scope p [dashes] = .ok { p with isTrailing := true } := by
  rw [readArguments_singleton]
  exact (readArgument_eq_ok_iff hp.1).2 .dashes

-- The settings that the arguments behind a subcommand come to.
def settled (scope : Scope) (args : List Bytes) : Except Interruption Settings :=
  (readArguments scope {} args).bind fun q => liftUsage q.settle

theorem readDemo_eq (args : List Bytes) :
    readDemo args = (settled .demo args).bind fun s =>
      match s.email, s.name with
      | some email, some name => .ok (s, ⟨name, email, s.age.getD 0⟩)
      | _, _ => usage .requiredMissing := by
  rw [readDemo, settled]
  cases readArguments .demo {} args <;> rfl

theorem readCommand_congr {p : Progress} {c : Subcommand} {args args' : List Bytes}
    (h : settled c.scope args = settled c.scope args') :
    readCommand p c.page args = readCommand p c.page args' := by
  cases c with
  | demo =>
    have hdemo : readDemo args = readDemo args' := by
      rw [readDemo_eq, readDemo_eq]
      exact congrArg (Except.bind · _) h
    simp only [Subcommand.page, readCommand, hdemo]
  | info =>
    have hinfo : readInfo args = readInfo args' := h
    simp only [Subcommand.page, readCommand, hinfo]

theorem readCommand_of_error {p : Progress} {c : Subcommand} {args : List Bytes} {i : Interruption}
    (h : settled c.scope args = .error i) : readCommand p c.page args = .error i := by
  cases c with
  | demo =>
    have hdemo : readDemo args = .error i := by
      rw [readDemo_eq]
      exact congrArg (Except.bind · _) h
    exact Except.bind_eq_error_iff.2 (.inl hdemo)
  | info => exact Except.bind_eq_error_iff.2 (.inl h)

theorem settled_dashes (scope : Scope) (xs : List Choice) :
    settled scope (written xs ++ [dashes]) = settled scope (written xs) := by
  have hready : Progress.IsReady {} := ⟨rfl, rfl⟩
  rw [settled, settled, readArguments_append]
  rcases readArguments_written_cases scope hready xs with ⟨e, he⟩ | ⟨q, hq, hq'⟩
  · rw [he]
    rfl
  · rw [hq, Except.bind, readArguments_dashes hq']
    rfl

theorem parse_written (front : List Choice) (rest : List Bytes) :
    parse (written front ++ rest) =
      (readArguments .top {} (written front)).bind fun q => readTop q rest :=
  readTop_written ⟨rfl, rfl⟩ front rest

theorem parse_arguments (l : Line) :
    parse l.arguments = parse (written l.front ++ l.command.word :: written l.behind) := by
  cases hend : l.isEnded with
  | false => rw [Line.arguments, hend, if_neg Bool.false_ne_true, List.append_nil]
  | true =>
    rw [Line.arguments, hend, if_pos rfl, parse_written, parse_written]
    rcases readArguments_written_cases .top (p := {}) ⟨rfl, rfl⟩ l.front with
      ⟨e, he⟩ | ⟨q, hq, hready⟩
    · rw [he]
      rfl
    · rw [hq]
      have hcommand := readCommand_congr (p := q) (settled_dashes l.command.scope l.behind)
      exact ((readTop_word hready l.command _).trans hcommand).trans
        (readTop_word hready l.command _).symm

end Dashes

section InOrder

theorem given_insert_self (h : given x.flag (xs ++ ys) = []) :
    given x.flag (xs ++ x :: ys) = [x.value] := by
  rw [given_append, List.append_eq_nil_iff] at h
  rw [← List.singleton_append, given_append, given_append, given_singleton_self, h.1, h.2]
  rfl

theorem given_insert_of_ne (h : f ≠ x.flag) : given f (xs ++ x :: ys) = given f (xs ++ ys) := by
  rw [← List.singleton_append, given_append, given_append, given_singleton_of_ne h, given_append]
  rfl

theorem given_once_insert (hnew : given x.flag (xs ++ ys) = [])
    (h : ∀ f, (given f (xs ++ ys)).length ≤ 1) (f : Flag) :
    (given f (xs ++ x :: ys)).length ≤ 1 := by
  by_cases hf : f = x.flag
  · rw [hf, given_insert_self hnew]
    exact Nat.le_refl 1
  · rw [given_insert_of_ne hf]
    exact h f

theorem given_ne_nil_insert (h : given f (xs ++ ys) ≠ []) : given f (xs ++ x :: ys) ≠ [] := by
  by_cases hf : f = x.flag
  · have hmem : x.value ∈ given f (xs ++ x :: ys) := mem_given_iff.2 ⟨x, by simp, hf.symm, rfl⟩
    exact List.ne_nil_of_mem hmem
  · rwa [given_insert_of_ne hf]

theorem forall_insert {P : Choice → Prop} (hx : P x) (h : ∀ y ∈ xs ++ ys, P y) :
    ∀ y ∈ xs ++ x :: ys, P y := by
  intro y hy
  rcases List.mem_append.1 hy with hy | hy
  · exact h y (List.mem_append_left ys hy)
  rcases List.mem_cons.1 hy with rfl | hy
  · exact hx
  · exact h y (List.mem_append_right xs hy)

theorem Line.IsAccepted.takes (h : l.IsAccepted) (hx : l.Takes x l') (hv : x.flag.Accepts x.value) :
    l'.IsAccepted := by
  cases hx with
  | @front xs ys behind c isEnded hglobal hnew =>
    exact {
      front_global := forall_insert hglobal h.front_global
      behind_known := h.behind_known
      front_once := given_once_insert hnew h.front_once
      behind_once := h.behind_once
      required := h.required
      values := by
        rw [List.append_assoc]
        exact forall_insert hv fun y hy => h.values y (by rwa [List.append_assoc]) }
  | @behind front xs ys c isEnded hknown hnew =>
    exact {
      front_global := h.front_global
      behind_known := forall_insert hknown h.behind_known
      front_once := h.front_once
      behind_once := given_once_insert hnew h.behind_once
      required := fun hc => (h.required hc).imp given_ne_nil_insert given_ne_nil_insert
      values := by
        rw [← List.append_assoc]
        exact forall_insert hv fun y hy => h.values y (by rwa [← List.append_assoc]) }

theorem exists_parse_of_takes (h : l.IsAccepted) (hx : l.Takes x l')
    (hv : x.flag.Accepts x.value) :
    ∃ i, parse l'.arguments = .ok i ∧ Means l'.front l'.command l'.behind i := by
  rw [parse_arguments]
  exact exists_parse_of_accepted (h.takes hx hv)

end InOrder

section NotInOrder

theorem giveAll_prefix {s s' : Settings} (h : giveAll s (xs ++ ys) = .ok s') :
    ∃ t, giveAll s xs = .ok t := by
  rw [giveAll_append] at h
  obtain ⟨t, ht, -⟩ := Except.bind_eq_ok_iff.1 h
  exact ⟨t, ht⟩

-- Attached values are read at once, so nothing that comes behind them matters.
theorem readArguments_refused {s : Settings} {e : UsageError}
    (hknown : ∀ y ∈ xs, y.flag.isKnownIn scope = true) (hf : f.isKnownIn scope = true)
    (hgive : giveAll {} xs = .ok s) (hnew : given f xs = [])
    (hput : ∀ s : Settings, s.put f v = .error e) (ys : List Choice) :
    readArguments scope {} (written (xs ++ .attached f v :: ys)) = .error (.usage e) := by
  obtain ⟨q, hq, hready, hsettle⟩ := readArguments_written (p := {}) ⟨rfl, rfl⟩ hknown rfl hgive
  have hnone : s.value? f = none := by
    rcases reflects_of_giveAll hgive f with ⟨-, hnone⟩ | ⟨u, y, hu, -, -⟩
    · exact hnone
    · rw [hnew] at hu
      cases hu
  have hrefused : s.give f (some v) = .error e := by
    rw [Settings.give, Settings.has_eq, hnone]
    exact hput s
  have htake : Choice.take (.attached f v) s = .error e := by
    rw [Choice.take, hrefused]
    rfl
  have hflag : readArguments scope q (Choice.arguments (.attached f v)) = .error (.usage e) := by
    rw [readArguments_choice (x := .attached f v) hready hf, hsettle]
    exact congrArg liftUsage htake
  rw [written, List.flatMap_append, List.flatMap_cons, readArguments_append, ← written, hq]
  exact (readArguments_append _ _).trans (congrArg (Except.bind · _) hflag)

theorem parse_of_takes_refused {e : UsageError} (h : l.IsAccepted)
    (hx : l.Takes (.attached f v) l') (hput : ∀ s : Settings, s.put f v = .error e) :
    parse l'.arguments = .error (.usage e) := by
  obtain ⟨sf, hgf⟩ := exists_giveAll h.front_once
    (fun x hx => h.values x (List.mem_append_left _ hx))
  obtain ⟨sb, hgb⟩ := exists_giveAll h.behind_once
    (fun x hx => h.values x (List.mem_append_right _ hx))
  rw [parse_arguments, parse_written]
  cases hx with
  | @front xs ys behind c isEnded hglobal hnew =>
    obtain ⟨s, hgive⟩ := giveAll_prefix hgf
    have hknown : ∀ y ∈ xs, y.flag.isKnownIn .top = true := fun y hy =>
      isKnownIn_top_iff.2 (h.front_global y (List.mem_append_left ys hy))
    rw [given_append, List.append_eq_nil_iff] at hnew
    have hread := readArguments_refused (f := f) hknown (isKnownIn_top_iff.2 hglobal) hgive hnew.1
      hput ys
    exact congrArg (Except.bind · _) hread
  | @behind front xs ys c isEnded hflag hnew =>
    obtain ⟨s, hgive⟩ := giveAll_prefix hgb
    have hknown : ∀ y ∈ xs, y.flag.isKnownIn c.scope = true := fun y hy =>
      isKnownIn_scope_iff.2 (h.behind_known y (List.mem_append_left ys hy))
    rw [given_append, List.append_eq_nil_iff] at hnew
    have hread := readArguments_refused (f := f) hknown (isKnownIn_scope_iff.2 hflag) hgive hnew.1
      hput ys
    obtain ⟨q, hq, hready, -⟩ := readArguments_written (p := {}) ⟨rfl, rfl⟩
      (fun y hy => isKnownIn_top_iff.2 (h.front_global y hy)) rfl hgf
    rw [hq]
    refine (readTop_word hready c _).trans (readCommand_of_error ?_)
    rw [settled, hread]
    rfl

end NotInOrder

end Roster.CommandLine
