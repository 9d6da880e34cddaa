import Roster.Proofs.CommandLine.Reading

namespace Roster.CommandLine

def Subcommand.page : Subcommand → Page
  | .demo => .demo
  | .info => .info

-- A user needs a name and an email.
inductive Asks : Subcommand → Settings → Command → Prop
  | demo {s : Settings} {name email : String} :
    s.name = some name → s.email = some email →
    Asks .demo s (.demo ⟨name, email, s.age.getD 0⟩)
  | info {s : Settings} : Asks .info s .info

theorem subcommand?_word (c : Subcommand) : subcommand? c.word = some c.page := by
  cases c <;> rfl

theorem subcommand?_eq_none {a w : Bytes} {v : Option Bytes} (ha : shape a = .long w v) :
    subcommand? a = none := by
  have hne (s : String) (hs : shape (Bytes.ofString s) = .plain) : a ≠ Bytes.ofString s := by
    rintro rfl
    rw [hs] at ha
    cases ha
  rw [subcommand?, if_neg (hne _ (by decide)), if_neg (hne _ (by decide)),
    if_neg (hne _ (by decide))]

theorem eq_word_of_subcommand? {a : Bytes} {c : Subcommand} (h : subcommand? a = some c.page) :
    a = c.word := by
  unfold subcommand? at h
  cases c <;> split_ifs at h <;> first | assumption | cases h

theorem readDemo_eq_ok_iff {args : List Bytes} {s : Settings} {u : User} :
    readDemo args = .ok (s, u) ↔
      (∃ q, readArguments .demo {} args = .ok q ∧ q.settle = .ok s) ∧ Asks .demo s (.demo u) := by
  constructor
  · intro h
    obtain ⟨q, hq, h⟩ := Except.bind_eq_ok_iff.1 h
    obtain ⟨s', hs, h⟩ := Except.bind_eq_ok_iff.1 h
    split at h
    · rename_i email name hemail hname
      cases h
      exact ⟨⟨q, hq, liftUsage_eq_ok_iff.1 hs⟩, .demo hname hemail⟩
    · exact absurd h usage_ne_ok
  · rintro ⟨⟨q, hq, hs⟩, hask⟩
    cases hask with
    | demo hname hemail =>
      refine Except.bind_eq_ok_iff.2 ⟨q, hq, Except.bind_eq_ok_iff.2
        ⟨s, liftUsage_eq_ok_iff.2 hs, ?_⟩⟩
      simp only [hname, hemail]
      rfl

theorem readInfo_eq_ok_iff {args : List Bytes} {s : Settings} :
    readInfo args = .ok s ↔ ∃ q, readArguments .info {} args = .ok q ∧ q.settle = .ok s := by
  refine Except.bind_eq_ok_iff.trans (exists_congr fun q => ?_)
  rw [liftUsage_eq_ok_iff]

theorem readCommand_eq_ok_iff {p : Progress} {c : Subcommand} {args : List Bytes}
    {i : Invocation} : readCommand p c.page args = .ok i ↔
      ∃ front behind command, p.settle = .ok front ∧
        (∃ q, readArguments c.scope {} args = .ok q ∧ q.settle = .ok behind) ∧
        Asks c behind command ∧ i = .merge front behind command := by
  cases c with
  | demo =>
    constructor
    · intro h
      obtain ⟨⟨behind, u⟩, hb, h⟩ := Except.bind_eq_ok_iff.1 h
      obtain ⟨front, hf, h⟩ := Except.bind_eq_ok_iff.1 h
      cases h
      obtain ⟨hq, hask⟩ := readDemo_eq_ok_iff.1 hb
      exact ⟨front, behind, _, liftUsage_eq_ok_iff.1 hf, hq, hask, rfl⟩
    · rintro ⟨front, behind, command, hf, hq, hask, rfl⟩
      cases hask with
      | demo hname hemail =>
        have hb := readDemo_eq_ok_iff.2 ⟨hq, .demo hname hemail⟩
        exact Except.bind_eq_ok_iff.2 ⟨_, hb, Except.bind_eq_ok_iff.2
          ⟨front, liftUsage_eq_ok_iff.2 hf, rfl⟩⟩
  | info =>
    constructor
    · intro h
      obtain ⟨behind, hb, h⟩ := Except.bind_eq_ok_iff.1 h
      obtain ⟨front, hf, h⟩ := Except.bind_eq_ok_iff.1 h
      cases h
      exact ⟨front, behind, _, liftUsage_eq_ok_iff.1 hf, readInfo_eq_ok_iff.1 hb, .info, rfl⟩
    · rintro ⟨front, behind, command, hf, hq, hask, rfl⟩
      cases hask with
      | info =>
        exact Except.bind_eq_ok_iff.2 ⟨behind, readInfo_eq_ok_iff.2 hq, Except.bind_eq_ok_iff.2
          ⟨front, liftUsage_eq_ok_iff.2 hf, rfl⟩⟩

theorem exists_page_of_readCommand {p : Progress} {page : Page} {args : List Bytes}
    {i : Invocation} (h : readCommand p page args = .ok i) : ∃ c : Subcommand, page = c.page := by
  cases page with
  | demo => exact ⟨.demo, rfl⟩
  | info => exact ⟨.info, rfl⟩
  | program | help => cases h

theorem readTop_cons {p : Progress} {a : Bytes} {rest : List Bytes}
    (h : p.awaits.isSome = true ∨ subcommand? a = none) :
    readTop p (a :: rest) = (readArgument .top p a).bind fun q => readTop q rest := by
  have hnone : (if p.isTrailing = true ∨ p.awaits.isSome = true then none else subcommand? a) =
      none := by
    split_ifs with hp
    · rfl
    · rcases h with h | h
      · exact absurd (.inr h) hp
      · exact h
  rw [readTop, hnone]

theorem readTop_word {p : Progress} (hp : p.IsReady) (c : Subcommand) (rest : List Bytes) :
    readTop p (c.word :: rest) = readCommand p c.page rest := by
  obtain ⟨hopen, hawaits⟩ := hp
  rw [readTop, if_neg (by simp [hopen, hawaits]), subcommand?_word]

-- A word that a flag awaits is never taken for a subcommand.
theorem exists_word_of_readTop {p : Progress} {args : List Bytes} {i : Invocation}
    (h : readTop p args = .ok i) :
    ∃ front c rest q, args = front ++ Subcommand.word c :: rest ∧
      readArguments .top p front = .ok q ∧ q.IsReady ∧ readCommand q c.page rest = .ok i := by
  induction args generalizing p with
  | nil =>
    obtain ⟨s, -, hs⟩ := Except.bind_eq_ok_iff.1 h
    exact absurd hs usage_ne_ok
  | cons a rest ih =>
    rw [readTop] at h
    split at h
    · rename_i page hpage
      split_ifs at hpage with hp
      obtain ⟨c, rfl⟩ := exists_page_of_readCommand h
      refine ⟨[], c, rest, p, ?_, rfl, ?_, h⟩
      · rw [eq_word_of_subcommand? hpage, List.nil_append]
      · simpa [Progress.IsReady, Option.isNone_iff_eq_none] using hp
    · obtain ⟨q, hq, hrest⟩ := Except.bind_eq_ok_iff.1 h
      obtain ⟨front, c, rest', q', rfl, hq', hready, hi⟩ := ih hrest
      exact ⟨a :: front, c, rest', q', rfl,
        readArguments_cons_eq_ok_iff.2 ⟨q, hq, hq'⟩, hready, hi⟩

theorem readTop_choice {p : Progress} (hp : p.IsReady) (x : Choice) (rest : List Bytes) :
    readTop p (x.arguments ++ rest) =
      (readArguments .top p x.arguments).bind fun q => readTop q rest := by
  obtain ⟨hopen, -⟩ := hp
  cases x with
  | attached f v =>
    rw [Choice.arguments, readArguments_singleton]
    exact readTop_cons (.inr (subcommand?_eq_none (shape_attached f v)))
  | separate f v hv =>
    have hfirst := subcommand?_eq_none (shape_argument f)
    rw [Choice.arguments, ← List.singleton_append, readArguments_append, readArguments_singleton,
      List.append_assoc, List.singleton_append, readTop_cons (.inr hfirst),
      readArgument_long hopen (shape_argument f)]
    cases hk : f.isKnownIn .top with
    | false =>
      obtain ⟨e, he⟩ := readLong_unknown (p := p) (v := none) hk
      rw [he]
      rfl
    | true =>
      rw [readLong_known hk]
      cases p.settle with
      | error e => rfl
      | ok s =>
        have hvalue : readTop { p with settings := s, pending := some (f, none) } (v :: rest) =
            (readArgument .top _ v).bind fun q => readTop q rest := readTop_cons (.inl rfl)
        rw [← readArguments_singleton] at hvalue
        exact hvalue

theorem readTop_written {p : Progress} (hp : p.IsReady) (xs : List Choice) (rest : List Bytes) :
    readTop p (written xs ++ rest) =
      (readArguments .top p (written xs)).bind fun q => readTop q rest := by
  induction xs generalizing p with
  | nil => rfl
  | cons x xs ih =>
    rw [written, List.flatMap_cons, List.append_assoc, readTop_choice hp, readArguments_append]
    rcases readArguments_item hp (.choice x) with ⟨e, he⟩ | ⟨q, hq, hready⟩
    · rw [Item.arguments] at he
      rw [he]
      rfl
    · rw [Item.arguments] at hq
      rw [hq]
      exact ih hready

theorem exists_usage_of_liftUsage {α : Type} {r : Except UsageError α} {i : Interruption}
    (h : liftUsage r = .error i) : ∃ e, i = .usage e := by
  obtain ⟨e, -, he⟩ := Except.mapError_eq_error_iff.1 h
  exact ⟨e, he.symm⟩

theorem exists_usage_of_readCommand {p : Progress} {c : Subcommand} {items : List Item}
    {i : Interruption} (h : readCommand p c.page (arguments items) = .error i) :
    ∃ e, i = .usage e := by
  cases c with
  | demo =>
    rcases Except.bind_eq_error_iff.1 h with h | ⟨⟨s, u⟩, -, h⟩
    · rcases Except.bind_eq_error_iff.1 h with h | ⟨q, -, h⟩
      · exact exists_usage_of_readArguments ⟨rfl, rfl⟩ h
      · rcases Except.bind_eq_error_iff.1 h with h | ⟨s, -, h⟩
        · exact exists_usage_of_liftUsage h
        · split at h <;> cases h
          exact ⟨_, rfl⟩
    · rcases Except.bind_eq_error_iff.1 h with h | ⟨front, -, h⟩
      · exact exists_usage_of_liftUsage h
      · cases h
  | info =>
    rcases Except.bind_eq_error_iff.1 h with h | ⟨s, -, h⟩
    · rcases Except.bind_eq_error_iff.1 h with h | ⟨q, -, h⟩
      · exact exists_usage_of_readArguments ⟨rfl, rfl⟩ h
      · exact exists_usage_of_liftUsage h
    · rcases Except.bind_eq_error_iff.1 h with h | ⟨front, -, h⟩
      · exact exists_usage_of_liftUsage h
      · cases h

-- Words and flags never ask for help, so whatever is not accepted is a mistake.
theorem exists_usage_of_readTop {p : Progress} {items : List Item} {i : Interruption}
    (hp : p.IsReady) (h : readTop p (arguments items) = .error i) : ∃ e, i = .usage e := by
  induction items generalizing p with
  | nil =>
    rcases Except.bind_eq_error_iff.1 h with h | ⟨s, -, h⟩
    · exact exists_usage_of_liftUsage h
    · cases h
      exact ⟨_, rfl⟩
  | cons x items ih =>
    rw [arguments, List.flatMap_cons] at h
    cases x with
    | word c =>
      rw [Item.arguments, List.singleton_append, readTop_word hp] at h
      exact exists_usage_of_readCommand h
    | choice x =>
      rw [Item.arguments, readTop_choice hp] at h
      rcases readArguments_item hp (.choice x) with ⟨e, he⟩ | ⟨q, hq, hready⟩
      · rw [Item.arguments] at he
        rw [he] at h
        cases h
        exact ⟨e, rfl⟩
      · rw [Item.arguments] at hq
        rw [hq] at h
        exact ih hready h

end Roster.CommandLine
