import Mathlib.Tactic.SplitIfs
import Roster.Terminal

namespace Roster.Terminal

def Printable (c : Char) : Prop := 0x20 ≤ c.toNat ∧ c.toNat < 0x7F

instance : DecidablePred Printable := fun c =>
  inferInstanceAs (Decidable (0x20 ≤ c.toNat ∧ c.toNat < 0x7F))

variable {c : Char} {s t r : List Char}

theorem printable_of_all (h : t.all (fun c => decide (Printable c)) = true) :
    ∀ c ∈ t, Printable c :=
  fun c hc => of_decide_eq_true (List.all_eq_true.1 h c hc)

-- Outside of any sequence it does not matter whether the character before was kept.
theorem step_ground (c : Char) : step .ground c = (resume .ground c, keeps c) := by
  have hnext : (step .ground c).1 = resume .ground c := by
    have hwide : advanceWide .ground c = .ground := rfl
    have hbell : (if (decide (State.ground = .command) && decide (c.toNat = 0x07)) = true
        then State.ground else .ground) = .ground := ite_self _
    unfold step resume
    simp only [hwide, hbell, advance]
    split_ifs <;> rfl
  rw [keeps, ← hnext]

theorem plainFrom_ground (b : Bool) (s : List Char) : plainFrom .ground b s = plain s := by
  cases b with
  | false => rfl
  | true =>
    cases s with
    | nil => rfl
    | cons c r => simp only [plain, plainFrom, step_ground, if_true, Bool.false_eq_true, if_false]

theorem keeps_printable (hc : Printable c) : keeps c = true ∧ resume .ground c = .ground := by
  obtain ⟨hlow, hhigh⟩ := hc
  have hescape : c ≠ escapeChar := by
    rintro rfl
    exact absurd hlow (by decide)
  have hcancel : isCancel c = false := by
    simp only [isCancel, Bool.or_eq_false_iff, decide_eq_false_iff_not]
    constructor <;> rintro rfl <;> exact absurd hlow (by decide)
  have hwide : ¬0x80 ≤ c.toNat := by omega
  constructor
  · simp only [keeps, step, if_neg hescape, hcancel, Bool.false_eq_true, if_false, if_neg hwide,
      if_neg (Nat.ne_of_lt hhigh), if_neg (Nat.not_lt.2 hlow), decide_true]
  · simp only [resume, if_neg hescape, ite_self]

theorem plain_printable_append (ht : ∀ c ∈ t, Printable c) (r : List Char) :
    plain (t ++ r) = t ++ plain r := by
  induction t with
  | nil => rfl
  | cons c t ih =>
    obtain ⟨hc, ht⟩ := List.forall_mem_cons.1 ht
    obtain ⟨hkept, hnext⟩ := keeps_printable hc
    rw [List.cons_append, List.cons_append, ← ih ht, ← plainFrom_ground true (t ++ r)]
    simp only [plain, plainFrom, step_ground, hkept, hnext, Bool.false_eq_true, if_false, if_true]

theorem plain_printable (ht : ∀ c ∈ t, Printable c) : plain t = t := by
  have h := plain_printable_append ht []
  rwa [List.append_nil, show plain [] = [] from rfl, List.append_nil] at h

-- What becomes of a character does not depend on what follows it.
theorem exists_plainFrom_cons (state : State) (b : Bool) (c : Char) :
    ∃ next kept, ∀ r, plainFrom state b (c :: r) =
      if kept = true then c :: plainFrom next true r else plainFrom next false r :=
  ⟨_, _, fun _ => rfl⟩

theorem plainFrom_reset (state : State) (b : Bool) (r : List Char) :
    plainFrom state b (reset ++ r) = plain r := by
  have hescape : plainFrom state b (reset ++ r) = plainFrom .escape false ('[' :: '0' :: 'm' :: r) := by
    cases b <;> rfl
  rw [hescape]
  rfl

-- An escape character starts anew, wherever it stands.
theorem plainFrom_reset_append (state : State) (b : Bool) (s r : List Char) :
    plainFrom state b (s ++ (reset ++ r)) = plainFrom state b s ++ plain r := by
  induction s generalizing state b with
  | nil => exact plainFrom_reset state b r
  | cons c s ih =>
    obtain ⟨next, kept, hcons⟩ := exists_plainFrom_cons state b c
    rw [List.cons_append, hcons, hcons]
    cases kept with
    | true => exact congrArg (c :: ·) (ih next true)
    | false => exact ih next false

-- A reset ends whatever stands open in front of it.
theorem plain_reset_append (s r : List Char) : plain (s ++ (reset ++ r)) = plain s ++ plain r :=
  plainFrom_reset_append .ground false s r

end Roster.Terminal
