import Roster.Proofs.CommandLine.Accepted
import Roster.Run

namespace Roster.Run

open CommandLine

-- A value on the command line takes the place of the one in the config.
structure Overrides (front behind : List Choice) (base c : Config) : Prop where
  backend : (∃ t, effective .backend front behind = some (Bytes.ofString t) ∧
      Backend.parse t = .ok c.backend) ∨
    effective .backend front behind = none ∧ c.backend = base.backend
  basePath : c.basePath = (effective .basePath front behind).getD base.basePath

theorem carryOut_code_ne_two (i : Invocation) (w : Surroundings) : (carryOut i w).code ≠ 2 := by
  unfold carryOut
  split
  · exact Nat.ne_of_beq_eq_false rfl
  · exact Nat.ne_of_beq_eq_false rfl

variable {front behind : List Choice} {c : Subcommand} {i : Invocation}

theorem run_eq_carryOut {args : List Bytes} (h : parse args = .ok i) (w : Surroundings) :
    run args w = carryOut i w := by
  rw [run, h]

theorem baseConfig_of_means (h : Means front c behind i) (w : Surroundings) :
    baseConfig i w = match effective .config front behind with
      | some path => Config.ofFile w.file path
      | none => Config.ofEnvironment w.config := by
  have hbase : baseConfig i w = match i.config with
      | some path => Config.ofFile w.file path
      | none => Config.ofEnvironment w.config := rfl
  rw [hbase, h.config]

theorem overrides_of_means (hacc : Accepted front c behind) (h : Means front c behind i)
    (base : Config) : Overrides front behind base (override i base) where
  backend := by
    cases hk : i.backend with
    | some k =>
      obtain ⟨t, heff, ht⟩ := (h.backend k).1 hk
      left
      refine ⟨t, heff, ?_⟩
      rw [override, hk, ht, Option.getD_some]
    | none =>
      right
      refine ⟨?_, by rw [override, hk, Option.getD_none]⟩
      cases heff : effective .backend front behind with
      | none => rfl
      | some v =>
        obtain ⟨t, k, rfl, ht⟩ := hacc.accepts_of_effective heff
        have hsome := (h.backend k).2 ⟨t, heff, ht⟩
        rw [hk] at hsome
        cases hsome
  basePath := by rw [override, h.basePath]

-- A command line of words and flags is either in order or a mistake in the usage.
theorem code_ne_two_iff (items : List Item) (w : Surroundings) :
    ((run (arguments items) w).code ≠ 2 ↔
      ∃ front c behind, items = front.map .choice ++ .word c :: behind.map .choice ∧
        Accepted front c behind) ∧
    ∀ front c behind, items = front.map .choice ++ .word c :: behind.map .choice →
      Accepted front c behind →
      ∃ i, parse (arguments items) = .ok i ∧ Means front c behind i ∧
        run (arguments items) w = carryOut i w ∧
        (baseConfig i w = match effective .config front behind with
          | some path => Config.ofFile w.file path
          | none => Config.ofEnvironment w.config) ∧
        ∀ base, Overrides front behind base (override i base) := by
  have hline (front : List Choice) (c : Subcommand) (behind : List Choice) :
      arguments (front.map .choice ++ .word c :: behind.map .choice) =
        written front ++ c.word :: written behind := by
    rw [arguments, List.flatMap_append, List.flatMap_cons]
    exact congrArg₂ (· ++ c.word :: ·) (arguments_choices front) (arguments_choices behind)
  refine ⟨⟨fun hcode => ?_, ?_⟩, ?_⟩
  · cases hparse : parse (arguments items) with
    | error e =>
      obtain ⟨u, rfl⟩ := exists_usage_of_readTop ⟨rfl, rfl⟩ hparse
      rw [run, hparse] at hcode
      exact absurd rfl hcode
    | ok i =>
      obtain ⟨front, c, behind, tail, hargs, htail, hacc, -⟩ := exists_accepted_of_parse hparse
      refine ⟨front, c, behind, ?_, hacc⟩
      refine (eq_of_arguments_eq_append htail ?_).1
      rw [hargs, hline, List.append_assoc, List.cons_append]
  · rintro ⟨front, c, behind, rfl, hacc⟩
    obtain ⟨i, hparse, -⟩ := exists_parse_of_accepted hacc
    rw [hline, run_eq_carryOut hparse]
    exact carryOut_code_ne_two i w
  · rintro front c behind rfl hacc
    obtain ⟨i, hparse, hmeans⟩ := exists_parse_of_accepted hacc
    rw [hline]
    exact ⟨i, hparse, hmeans, run_eq_carryOut hparse w, baseConfig_of_means hmeans w,
      overrides_of_means hacc hmeans⟩

-- A path may read like a subcommand, and the backend behind the subcommand hides the other one.
def infoFront : List Choice :=
  [.attached .backend (Bytes.ofString "memory"),
    .separate .basePath (Bytes.ofString "demo") fun h => absurd h (by decide)]

def infoBehind : List Choice :=
  [.separate .backend (Bytes.ofString " FILE") fun h => absurd h (by decide)]

theorem accepted_infoFront : Accepted infoFront .info infoBehind where
  front_global := by decide
  behind_known := by decide
  front_once := by rintro (_ | _) <;> decide
  behind_once := by rintro (_ | _) <;> decide
  required := fun h => absurd h (by decide)
  values := by
    have hpath : Bytes.ofString "demo" ≠ [] := by decide
    simp only [infoFront, infoBehind, List.cons_append, List.nil_append, List.forall_mem_cons]
    exact ⟨⟨_, .memory, rfl, rfl⟩, hpath, ⟨_, .file, rfl, rfl⟩, List.forall_mem_nil _⟩

theorem code_ne_two_infoFront :
    (run (arguments (infoFront.map .choice ++ .word .info :: infoBehind.map .choice))
      { read := fun _ => .error .notFound }).code ≠ 2 ∧
    ∃ i, parse (arguments (infoFront.map .choice ++ .word .info :: infoBehind.map .choice)) =
        .ok i ∧ Means infoFront .info infoBehind i :=
  have h := code_ne_two_iff (infoFront.map .choice ++ .word .info :: infoBehind.map .choice)
    { read := fun _ => .error .notFound }
  have ⟨i, hi, hmeans, _⟩ := h.2 _ _ _ rfl accepted_infoFront
  ⟨h.1.2 ⟨_, _, _, rfl, accepted_infoFront⟩, i, hi, hmeans⟩

end Roster.Run
