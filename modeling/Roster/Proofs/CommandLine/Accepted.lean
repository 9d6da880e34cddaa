import Roster.Proofs.CommandLine.Parse

namespace Roster.CommandLine

-- The flags in front of a subcommand and behind it are in order.
structure Accepted (front : List Choice) (c : Subcommand) (behind : List Choice) : Prop where
  front_global : ∀ x ∈ front, x.flag.isGlobal = true
  behind_known : ∀ x ∈ behind, x.flag.isGlobal = true ∨ c = .demo
  front_once : ∀ f, (given f front).length ≤ 1
  behind_once : ∀ f, (given f behind).length ≤ 1
  required : c = .demo → given .email behind ≠ [] ∧ given .name behind ≠ []
  values : ∀ x ∈ front ++ behind, x.flag.Accepts x.value

-- The value behind the subcommand, if there is one, and else the one in front of it.
def effective (f : Flag) (front behind : List Choice) : Option Bytes :=
  (given f behind).head?.or (given f front).head?

-- An age that is not given is zero.
def IsUser (u : User) (behind : List Choice) : Prop :=
  given .email behind = [Bytes.ofString u.email] ∧
    given .name behind = [Bytes.ofString u.name] ∧
    (given .age behind = [] ∧ u.age = 0 ∨
      ∃ t, given .age behind = [Bytes.ofString t] ∧ WritesAge t.toList u.age)

-- What an accepted command line asks for.
structure Means (front : List Choice) (c : Subcommand) (behind : List Choice)
    (i : Invocation) : Prop where
  config : i.config = effective .config front behind
  basePath : i.basePath = effective .basePath front behind
  backend : ∀ k, i.backend = some k ↔
    ∃ t, effective .backend front behind = some (Bytes.ofString t) ∧ Backend.parse t = .ok k
  demo : c = .demo → ∃ u, i.command = .demo u ∧ IsUser u behind
  info : c = .info → i.command = .info

theorem Accepted.accepts_of_effective {front behind : List Choice} {c : Subcommand}
    (h : Accepted front c behind) {f : Flag} {v : Bytes} (hv : effective f front behind = some v) :
    f.Accepts v := by
  have hmem : v ∈ given f (front ++ behind) := by
    rw [given_append, List.mem_append]
    rcases Option.or_eq_some_iff.1 hv with hb | ⟨-, hf⟩
    · exact .inr (List.mem_of_mem_head? hb)
    · exact .inl (List.mem_of_mem_head? hf)
  obtain ⟨x, hx, rfl, rfl⟩ := mem_given_iff.1 hmem
  exact h.values x hx

theorem isKnownIn_top_iff {f : Flag} : f.isKnownIn .top = true ↔ f.isGlobal = true := by
  cases f <;> decide

theorem isKnownIn_scope_iff {f : Flag} {c : Subcommand} :
    f.isKnownIn c.scope = true ↔ f.isGlobal = true ∨ c = .demo := by
  cases f <;> cases c <;> decide

theorem backend_merge_iff {front behind : List Choice} {sf sb : Settings} {command : Command}
    (hf : Reflects sf front) (hb : Reflects sb behind) (k : Backend) :
    (Invocation.merge sf sb command).backend = some k ↔
      ∃ t, effective .backend front behind = some (Bytes.ofString t) ∧
        Backend.parse t = .ok k := by
  rw [Invocation.merge, Option.or_eq_some_iff]
  constructor
  · rintro (hk | ⟨hnone, hk⟩)
    · obtain ⟨t, hgiven, ht⟩ := hb.backend_eq_some_iff.1 hk
      exact ⟨t, by rw [effective, hgiven]; rfl, ht⟩
    · obtain ⟨t, hgiven, ht⟩ := hf.backend_eq_some_iff.1 hk
      have hempty := (hb.field_eq_none_iff (f := .backend) rfl).1 hnone
      exact ⟨t, by rw [effective, hempty, hgiven]; rfl, ht⟩
  · rintro ⟨t, heff, ht⟩
    rcases Option.or_eq_some_iff.1 heff with hgiven | ⟨hempty, hgiven⟩
    · exact .inl (hb.backend_eq_some_iff.2 ⟨t, hb.head?_eq_some_iff.1 hgiven, ht⟩)
    · have hnone := (hb.field_eq_none_iff (f := .backend) rfl).2 (List.head?_eq_none_iff.1 hempty)
      exact .inr ⟨hnone, hf.backend_eq_some_iff.2 ⟨t, hf.head?_eq_some_iff.1 hgiven, ht⟩⟩

theorem isUser_of_reflects {behind : List Choice} {s : Settings} {name email : String}
    (h : Reflects s behind) (hname : s.name = some name) (hemail : s.email = some email) :
    IsUser ⟨name, email, s.age.getD 0⟩ behind := by
  refine ⟨h.email_eq_some_iff.1 hemail, h.name_eq_some_iff.1 hname, ?_⟩
  cases ha : s.age with
  | none => exact .inl ⟨(h.field_eq_none_iff (f := .age) rfl).1 ha, rfl⟩
  | some a => exact .inr (h.age_eq_some_iff.1 ha)

theorem means_merge {front behind : List Choice} {c : Subcommand} {sf sb : Settings}
    {command : Command} (hf : Reflects sf front) (hb : Reflects sb behind)
    (hask : Asks c sb command) : Means front c behind (.merge sf sb command) where
  config := by rw [Invocation.merge, hf.config_eq, hb.config_eq, effective]
  basePath := by rw [Invocation.merge, hf.basePath_eq, hb.basePath_eq, effective]
  backend := backend_merge_iff hf hb
  demo := by
    rintro rfl
    cases hask with
    | demo hname hemail => exact ⟨_, rfl, isUser_of_reflects hb hname hemail⟩
  info := by
    rintro rfl
    cases hask with
    | info => rfl

theorem required_of_asks {behind : List Choice} {c : Subcommand} {s : Settings}
    {command : Command} (hb : Reflects s behind) (hask : Asks c s command) (hc : c = .demo) :
    given .email behind ≠ [] ∧ given .name behind ≠ [] := by
  subst hc
  cases hask with
  | demo hname hemail =>
    rw [hb.email_eq_some_iff.1 hemail, hb.name_eq_some_iff.1 hname]
    exact ⟨List.cons_ne_nil _ _, List.cons_ne_nil _ _⟩

theorem exists_asks {behind : List Choice} {c : Subcommand} {s : Settings} (hb : Reflects s behind)
    (hreq : c = .demo → given .email behind ≠ [] ∧ given .name behind ≠ []) :
    ∃ command, Asks c s command := by
  cases c with
  | info => exact ⟨_, .info⟩
  | demo =>
    obtain ⟨hemail, hname⟩ := hreq rfl
    have he := mt (hb.field_eq_none_iff (f := .email) rfl).1 hemail
    have hn := mt (hb.field_eq_none_iff (f := .name) rfl).1 hname
    obtain ⟨email, hemail⟩ := Option.ne_none_iff_exists'.1 he
    obtain ⟨name, hname⟩ := Option.ne_none_iff_exists'.1 hn
    exact ⟨_, .demo hname hemail⟩

theorem exists_accepted_of_parse {args : List Bytes} {i : Invocation} (h : parse args = .ok i) :
    ∃ front c behind tail,
      args = written front ++ Subcommand.word c :: (written behind ++ tail) ∧
      (tail = [] ∨ tail = [dashes]) ∧ Accepted front c behind ∧ Means front c behind i := by
  obtain ⟨pre, c, rest, q, rfl, hq, ⟨hopen, -⟩, hi⟩ := exists_word_of_readTop h
  obtain ⟨sf, sb, command, hsf, ⟨r, hr, hsb⟩, hask, rfl⟩ := readCommand_eq_ok_iff.1 hi
  obtain ⟨front, hpre, hfront, hgf⟩ := exists_written_of_readArguments hq hsf
  obtain ⟨behind, hrest, hbehind, hgb⟩ := exists_written_of_readArguments hr hsb
  have hf := reflects_of_giveAll hgf
  have hb := reflects_of_giveAll hgb
  have hend : q.ending = [] := by
    rw [Progress.ending, hopen]
    rfl
  refine ⟨front, c, behind, r.ending, ?_, ?_, ?_, means_merge hf hb hask⟩
  · rw [hpre, hend, List.append_nil, hrest]
  · unfold Progress.ending
    split_ifs
    · exact .inr rfl
    · exact .inl rfl
  · exact {
      front_global := fun x hx => isKnownIn_top_iff.1 (hfront x hx)
      behind_known := fun x hx => isKnownIn_scope_iff.1 (hbehind x hx)
      front_once := hf.length_le_one
      behind_once := hb.length_le_one
      required := required_of_asks hb hask
      values := fun x hx => (List.mem_append.1 hx).elim hf.accepts hb.accepts }

theorem exists_parse_of_accepted {front behind : List Choice} {c : Subcommand}
    (h : Accepted front c behind) :
    ∃ i, parse (written front ++ c.word :: written behind) = .ok i ∧ Means front c behind i := by
  obtain ⟨sf, hgf⟩ := exists_giveAll h.front_once
    (fun x hx => h.values x (List.mem_append_left _ hx))
  obtain ⟨sb, hgb⟩ := exists_giveAll h.behind_once
    (fun x hx => h.values x (List.mem_append_right _ hx))
  have hf := reflects_of_giveAll hgf
  have hb := reflects_of_giveAll hgb
  obtain ⟨command, hask⟩ := exists_asks hb h.required
  have hready : Progress.IsReady {} := ⟨rfl, rfl⟩
  obtain ⟨q, hq, hqready, hsf⟩ := readArguments_written hready
    (fun x hx => isKnownIn_top_iff.2 (h.front_global x hx)) rfl hgf
  obtain ⟨r, hr, -, hsb⟩ := readArguments_written hready
    (fun x hx => isKnownIn_scope_iff.2 (h.behind_known x hx)) rfl hgb
  refine ⟨.merge sf sb command, ?_, means_merge hf hb hask⟩
  rw [parse, readTop_written hready, hq]
  apply (readTop_word hqready c _).trans
  exact readCommand_eq_ok_iff.2 ⟨sf, sb, command, hsf, ⟨r, hr, hsb⟩, hask, rfl⟩

end Roster.CommandLine
