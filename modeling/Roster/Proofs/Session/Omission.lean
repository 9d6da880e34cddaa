import Mathlib
import Roster.Proofs.Session.Memory

namespace Roster.Session

def Action.isRead : Action → Bool
  | .load _ | .size | .basePath | .info => true
  | .save _ | .remove _ | .copy => false

def Step.isRead : Step → Bool
  | .opening _ => false
  | .act _ what => what.isRead

-- Nothing was opened, nobody was found, or the step did not apply.
def Answer.isFailure : Answer → Bool
  | .refused _ | .user none | .notApplicable | .noSuchStorage => true
  | .opened _ | .saved | .user (some _) | .size .. | .path _ | .info .. => false

-- A list without the entries at these places.
def without {α : Type} (gone : Finset Nat) (xs : List α) : List α :=
  (xs.zipIdx.filter fun x => x.2 ∉ gone).map Prod.fst

theorem without_concat {α : Type} (gone : Finset Nat) (xs : List α) (x : α) :
    without gone (xs ++ [x]) = without gone xs ++ if xs.length ∈ gone then [] else [x] := by
  by_cases h : xs.length ∈ gone <;> simp [without, List.zipIdx_append, h]

variable {h : Handle} {what : Action} {next : Nat}

-- A storage is left as it is where it is only read, and where nothing comes of what is asked.
theorem advance_eq_self (hw : what.isRead ∨ (Handle.act h next what).answer.isFailure) :
    advance h what = h := by
  obtain ⟨b, m | p⟩ := h
  · cases what with
    | save u => cases hw <;> contradiction
    | remove email =>
      cases b with
      | false => rfl
      | true =>
        have hnone : m.load email = none := by
          cases hm : m.load email with
          | none => rfl
          | some u => simp [Action.isRead, Handle.act, Answer.isFailure, hm] at hw
        have hsame : m.remove email = m := Memory.remove_of_load_eq_none hnone
        exact congrArg (fun m => (⟨true, .memory m⟩ : Handle)) hsame
    | _ => cases b <;> rfl
  · exact advance_file b p what

theorem copy_eq_none (hw : what.isRead ∨ (Handle.act h next what).answer.isFailure) :
    (Handle.act h next what).copy = none := by
  rw [Option.eq_none_iff_forall_ne_some]
  intro k hk
  obtain ⟨rfl, p, rfl, -⟩ := act_copy hk
  cases hw <;> contradiction

-- A step that only reads or that has failed leaves the storages as it has found them.
theorem step_eq_self {hs : List Handle} {s : Step}
    (hw : s.isRead ∨ (step hs s).2.1.isFailure) : (step hs s).1 = hs := by
  cases s with
  | opening how =>
    cases ho : openHandle how with
    | error e => rw [step_opening_error hs ho]
    | ok o =>
      rw [step_opening_ok hs ho] at hw
      cases hw <;> contradiction
  | act i what =>
    cases hi : hs[i]? with
    | none => rw [step_act_none what hi]
    | some h =>
      rw [step_act_some what hi] at hw ⊢
      obtain ⟨hlt, rfl⟩ := List.getElem?_eq_some_iff.1 hi
      rw [advance_eq_self hw, copy_eq_none hw, List.set_getElem_self, Option.toList_none,
        List.append_nil]

theorem run_without (hs : List Handle) (steps : List Step) (gone : Finset Nat)
    (hgone : ∀ k ∈ gone, ∀ s r, steps[k]? = some s → (run hs steps).2[k]? = some r →
      s.isRead ∨ r.1.isFailure) :
    run hs (without gone steps) = ((run hs steps).1, without gone (run hs steps).2) := by
  induction steps using List.reverseRecOn with
  | nil => rfl
  | append_singleton steps s ih =>
    have hlength : (run hs steps).2.length = steps.length := length_results hs steps
    have hfront := ih fun k hk t r ht hr => by
      refine hgone k hk t r ?_ ?_
      · rw [List.getElem?_append_left (List.getElem?_eq_some_iff.1 ht).1, ht]
      · rw [run_concat, List.getElem?_append_left (List.getElem?_eq_some_iff.1 hr).1, hr]
    rw [without_concat, run_concat hs, without_concat, hlength]
    by_cases hlast : steps.length ∈ gone
    · have hself : (step (run hs steps).1 s).1 = (run hs steps).1 := by
        apply step_eq_self
        refine hgone _ hlast s _ List.getElem?_concat_length ?_
        rw [run_concat, ← hlength, List.getElem?_concat_length]
      rw [if_pos hlast, if_pos hlast, List.append_nil, List.append_nil, hfront, hself]
    · rw [if_neg hlast, if_neg hlast, run_concat, hfront]

-- A text that is no document, then reads and removals, one of which finds somebody.
def mixedSteps : List Step :=
  [.opening (.toml "="), .opening .memory, .act 0 (.save ⟨"Ann", "a", 3⟩), .act 0 (.load "a"),
    .act 0 (.remove "A"), .act 0 (.remove "a"), .act 0 .size, .opening (.file []),
    .act 1 (.save ⟨"Bob", "b", 4⟩)]

theorem run_without_mixedSteps :
    (∀ k ∈ ({0, 3, 4, 6} : Finset Nat), ∀ s r, mixedSteps[k]? = some s →
      (run [] mixedSteps).2[k]? = some r → s.isRead ∨ r.1.isFailure) ∧
    without {0, 3, 4, 6} mixedSteps =
      [.opening .memory, .act 0 (.save ⟨"Ann", "a", 3⟩), .act 0 (.remove "a"),
        .opening (.file []), .act 1 (.save ⟨"Bob", "b", 4⟩)] ∧
    run [] (without {0, 3, 4, 6} mixedSteps) =
      ((run [] mixedSteps).1, without {0, 3, 4, 6} (run [] mixedSteps).2) := by
  have htext : Config.ofToml "=" = .error .notToml := by cbv
  have hopen : openHandle (.toml "=") = .error Config.Refusal.notToml.error := by
    rw [openHandle, htext]
  have hgone : ∀ k ∈ ({0, 3, 4, 6} : Finset Nat), ∀ s r, mixedSteps[k]? = some s →
      (run [] mixedSteps).2[k]? = some r → s.isRead ∨ r.1.isFailure := by
    intro k hk s r hs hr
    rw [mixedSteps, run_cons, step_opening_error [] hopen] at hr
    simp only [Finset.mem_insert, Finset.mem_singleton] at hk
    rcases hk with rfl | rfl | rfl | rfl
    · cases hr
      exact .inr rfl
    · cases hs
      exact .inl rfl
    · cases hr
      exact .inr rfl
    · cases hs
      exact .inl rfl
  exact ⟨hgone, by decide, run_without [] mixedSteps _ hgone⟩

end Roster.Session
