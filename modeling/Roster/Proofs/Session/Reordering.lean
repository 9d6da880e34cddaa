import Mathlib.Data.List.FinRange
import Mathlib.Data.List.Sort
import Mathlib.Logic.Equiv.Fin.Basic
import Roster.Proofs.Session.Memory
import Roster.Proofs.Session.Status

namespace Roster

namespace Session

-- The email that an action is about.
def Action.email? : Action → Option String
  | .save u => some u.email
  | .load email | .remove email => some email
  | .size | .basePath | .copy | .info => none

-- An action about one email, or about what never changes.
def Action.isLocal : Action → Bool
  | .save _ | .load _ | .remove _ | .info => true
  | .size | .basePath | .copy => false

-- The storage and the email that a step is about. Steps with one subject depend on each other.
def Step.subject? : Step → Option (Nat × String)
  | .opening _ => none
  | .act i what => what.email?.map fun email => (i, email)

-- A run of local actions, and the same steps in another order: step `k` has gone to place `σ k`, and
-- of two steps with one subject the first is still the first.
structure Reorders (xs ys : List Step) (σ : Fin xs.length ≃ Fin ys.length) : Prop where
  isLocal : ∀ s ∈ xs, ∃ i what, s = .act i what ∧ what.isLocal
  moved : ∀ k : Fin xs.length, ys[σ k] = xs[k]
  ordered : ∀ j k : Fin xs.length, xs[j].subject? ≠ none → xs[j].subject? = xs[k].subject? →
    j < k → σ j < σ k

section Places

variable {α : Type} {xs ys : List α}

-- The places in front of `c` where `p` holds, in ascending order.
def places (p : α → Bool) (xs : List α) (c : Nat) : List (Fin xs.length) :=
  ((List.finRange xs.length).take c).filter fun k => p xs[k]

theorem mem_places {p : α → Bool} {c : Nat} {k : Fin xs.length} :
    k ∈ places p xs c ↔ k.val < c ∧ p xs[k] := by
  have htake : k ∈ (List.finRange xs.length).take c ↔ k.val < c := by
    rw [List.mem_take_iff_getElem]
    constructor
    · rintro ⟨i, hi, rfl⟩
      simp only [List.getElem_finRange, Fin.val_cast]
      omega
    · intro hk
      refine ⟨k.val, ?_, by simp⟩
      simp only [List.length_finRange]
      omega
  simp only [places, List.mem_filter, htake]

theorem sorted_places (p : α → Bool) (xs : List α) (c : Nat) : (places p xs c).SortedLT := by
  have hsub : (places p xs c).Sublist (List.finRange xs.length) :=
    List.filter_sublist.trans (List.take_sublist c _)
  exact ((List.sortedLT_finRange xs.length).pairwise.sublist hsub).sortedLT

theorem map_places (p : α → Bool) (xs : List α) (c : Nat) :
    (places p xs c).map (fun k => xs[k]) = (xs.take c).filter p := by
  have htake : xs.take c = ((List.finRange xs.length).take c).map fun k => xs[k] := by
    rw [List.map_take]
    exact congrArg (List.take c) (List.map_getElem_finRange xs).symm
  rw [htake, List.filter_map]
  rfl

-- Places that keep their order are taken to the places of the other list.
theorem filter_take_eq {σ : Fin xs.length ≃ Fin ys.length} {p : α → Bool} {c d : Nat}
    (hmoved : ∀ k : Fin xs.length, ys[σ k] = xs[k])
    (hordered : ∀ j k : Fin xs.length, p xs[j] → p xs[k] → j < k → σ j < σ k)
    (hcut : ∀ k : Fin xs.length, p xs[k] → (k.val < c ↔ (σ k).val < d)) :
    (xs.take c).filter p = (ys.take d).filter p := by
  have hplaces : (places p xs c).map σ = places p ys d := by
    have hsorted : ((places p xs c).map σ).SortedLT := by
      apply List.Pairwise.sortedLT
      rw [List.pairwise_map]
      apply (sorted_places p xs c).pairwise.imp_of_mem
      intro j k hj hk hlt
      exact hordered j k (mem_places.1 hj).2 (mem_places.1 hk).2 hlt
    apply hsorted.eq_of_mem_iff (sorted_places p ys d)
    intro k
    obtain ⟨j, rfl⟩ := σ.surjective k
    simp only [List.mem_map, σ.injective.eq_iff, exists_eq_right, mem_places, hmoved]
    constructor
    · rintro ⟨hlt, hp⟩
      exact ⟨(hcut j hp).1 hlt, hp⟩
    · rintro ⟨hlt, hp⟩
      exact ⟨(hcut j hp).2 hlt, hp⟩
  rw [← map_places p xs c, ← map_places p ys d, ← hplaces, List.map_map]
  apply List.map_congr_left
  intro k _
  exact (hmoved k).symm

end Places

-- Storages of one sort with the same user under this email.
inductive Agree (email : String) : Handle → Handle → Prop
  | memory {b : Bool} {m m' : Memory} (h : m.load email = m'.load email) :
    Agree email ⟨b, .memory m⟩ ⟨b, .memory m'⟩
  | file {b : Bool} {p : Bytes} : Agree email ⟨b, .file p⟩ ⟨b, .file p⟩

variable {email : String} {h k : Handle} {what : Action}

theorem Agree.refl (email : String) (h : Handle) : Agree email h h := by
  obtain ⟨b, m | p⟩ := h
  · exact .memory rfl
  · exact .file

theorem Agree.symm (ha : Agree email h k) : Agree email k h := by
  cases ha with
  | memory h => exact .memory h.symm
  | file => exact .file

theorem Agree.trans {l : Handle} (ha : Agree email h k) (hb : Agree email k l) :
    Agree email h l := by
  cases ha with
  | memory h =>
    cases hb with
    | memory h' => exact .memory (h.trans h')
  | file => exact hb

theorem eq_of_agree (ha : ∀ email, Agree email h k) : h = k := by
  cases ha "" with
  | @memory b m m' _ =>
    have hload (email : String) : m.load email = m'.load email := by
      cases ha email with
      | memory h => exact h
    rw [Memory.eq_of_load_eq hload]
  | file => rfl

-- The user under an email once an action is done. Only a storage that is known by its own type can
-- have users removed.
def heldAfter (isConcrete : Bool) (email : String) (held : Option User) : Action → Option User
  | .save u => if u.email = email then some u else held
  | .remove e => if isConcrete ∧ email = e then none else held
  | _ => held

theorem exists_advance_memory (b : Bool) (m : Memory) (what : Action) :
    ∃ m', advance ⟨b, .memory m⟩ what = ⟨b, .memory m'⟩ ∧
      ∀ email, m'.load email = heldAfter b email (m.load email) what := by
  cases what with
  | save u => exact ⟨m.save u, rfl, m.load_save u⟩
  | remove e =>
    cases b with
    | true => exact ⟨m.remove e, rfl, by simp [heldAfter, Memory.load_remove]⟩
    | false => exact ⟨m, rfl, by simp [heldAfter]⟩
  | _ => cases b <;> exact ⟨m, rfl, fun _ => rfl⟩

theorem Agree.advance (ha : Agree email h k) (what : Action) :
    Agree email (advance h what) (advance k what) := by
  cases ha with
  | @memory b m m' hm =>
    obtain ⟨n, hn, hload⟩ := exists_advance_memory b m what
    obtain ⟨n', hn', hload'⟩ := exists_advance_memory b m' what
    rw [hn, hn']
    exact .memory (by rw [hload, hload', hm])
  | file =>
    rw [advance_file]
    exact .file

-- An action about another email changes nothing here.
theorem agree_advance (h : Handle) (hne : what.email? ≠ some email) :
    Agree email (advance h what) h := by
  obtain ⟨b, m | p⟩ := h
  · obtain ⟨n, hn, hload⟩ := exists_advance_memory b m what
    have hheld : heldAfter b email (m.load email) what = m.load email := by
      cases what with
      | save u =>
        have hu : u.email ≠ email := by simpa [Action.email?] using hne
        simp [heldAfter, hu]
      | remove e =>
        have he : email ≠ e := by simpa [Action.email?, eq_comm] using hne
        simp [heldAfter, he]
      | _ => rfl
    rw [hn]
    exact .memory (by rw [hload, hheld])
  · rw [advance_file]
    exact .file

theorem agree_advanceAll_filter (ha : Agree email h k) (past : List Action) :
    Agree email (advanceAll h past)
      (advanceAll k (past.filter fun what => what.email? = some email)) := by
  induction past generalizing h k with
  | nil => exact ha
  | cons what past ih =>
    by_cases hw : what.email? = some email
    · simpa [hw] using ih (ha.advance what)
    · simpa [hw] using ih ((agree_advance h hw).trans ha)

-- Of what has been done to a storage, only what was about an email tells what it keeps under it.
theorem agree_of_filter_eq (h : Handle) {past past' : List Action}
    (heq : past.filter (fun what => what.email? = some email) =
      past'.filter (fun what => what.email? = some email)) :
    Agree email (advanceAll h past) (advanceAll h past') := by
  have hpast := agree_advanceAll_filter (Agree.refl email h) past
  have hpast' := agree_advanceAll_filter (Agree.refl email h) past'
  rw [heq] at hpast
  exact hpast.trans hpast'.symm

theorem Agree.seen (ha : Agree email h k) (hw : what.email? = some email) (n n' : Nat) :
    (Handle.act h n what).seen = (Handle.act k n' what).seen := by
  cases ha with
  | @memory b m m' hm =>
    cases what with
    | save u | load e | remove e =>
      obtain rfl := Option.some.inj hw
      cases b <;> simp [Outcome.seen, Handle.act, Storage.save, Storage.load, hm]
    | _ => cases hw
  | @file b p =>
    cases what with
    | save u | load e => rfl
    | remove e => cases b <;> rfl
    | _ => cases hw

-- An action comes to the same where one email is about to be used, and about the same has been done.
theorem seen_eq_of_filter_eq (h : Handle) (hlocal : what.isLocal) {past past' : List Action}
    (heq : ∀ email, what.email? = some email →
      past.filter (fun w => w.email? = some email) = past'.filter (fun w => w.email? = some email))
    (n n' : Nat) :
    (Handle.act (advanceAll h past) n what).seen = (Handle.act (advanceAll h past') n' what).seen := by
  cases hw : what.email? with
  | some email => exact (agree_of_filter_eq h (heq email hw)).seen hw n n'
  | none =>
    cases what with
    | info => rw [seen_info, seen_info, advanceAll_kind, advanceAll_kind]
    | save u | load e | remove e => cases hw
    | _ => cases hlocal

theorem history_filter (i : Nat) (email : String) (steps : List Step) :
    history i (steps.filter fun s => s.subject? = some (i, email)) =
      (history i steps).filter fun what => what.email? = some email := by
  rw [history, history, List.filterMap_filter, List.filter_filterMap]
  apply List.filterMap_congr
  intro s _
  cases s with
  | opening how => rfl
  | act j what =>
    by_cases hj : j = i
    · cases hw : what.email? <;> simp [Step.subject?, hj, hw, Option.filter]
    · cases hw : what.email? <;> simp [Step.subject?, hj, hw]

-- Local actions make no storages.
theorem length_run_of_isLocal {steps : List Step}
    (hlocal : ∀ s ∈ steps, ∃ i what, s = .act i what ∧ what.isLocal) (hs : List Handle) :
    (run hs steps).1.length = hs.length := by
  induction steps generalizing hs with
  | nil => rfl
  | cons s rest ih =>
    have hstep : (step hs s).1.length = hs.length := by
      obtain ⟨i, what, rfl, hw⟩ := hlocal s List.mem_cons_self
      cases hi : hs[i]? with
      | none => rw [step_act_none what hi]
      | some h =>
        have hcopy : (Handle.act h hs.length what).copy = none := by
          rw [Option.eq_none_iff_forall_ne_some]
          intro k hk
          rw [(act_copy hk).1] at hw
          cases hw
        rw [step_act_some what hi, hcopy]
        simp
    rw [run_cons, ih (fun t ht => hlocal t (List.mem_cons_of_mem s ht)), hstep]

variable {xs ys : List Step} {σ : Fin xs.length ≃ Fin ys.length}

theorem Reorders.isLocal_behind (hr : Reorders xs ys σ) :
    ∀ s ∈ ys, ∃ i what, s = .act i what ∧ what.isLocal := by
  intro s hs
  obtain ⟨place, rfl⟩ := List.mem_iff_get.1 hs
  obtain ⟨k, rfl⟩ := σ.surjective place
  have hmoved : ys.get (σ k) = xs[k] := hr.moved k
  rw [hmoved]
  exact hr.isLocal xs[k] (List.getElem_mem _)

theorem Reorders.filter_history (hr : Reorders xs ys σ) (i : Nat) (email : String) {c d : Nat}
    (hcut : ∀ k : Fin xs.length, xs[k].subject? = some (i, email) →
      (k.val < c ↔ (σ k).val < d)) :
    (history i (xs.take c)).filter (fun what => what.email? = some email) =
      (history i (ys.take d)).filter fun what => what.email? = some email := by
  rw [← history_filter, ← history_filter]
  apply congrArg (history i)
  apply filter_take_eq hr.moved
  · intro j k hj hk hlt
    have hj' : xs[j].subject? = some (i, email) := by simpa using hj
    have hk' : xs[k].subject? = some (i, email) := by simpa using hk
    exact hr.ordered j k (hj' ▸ Option.some_ne_none _) (hj'.trans hk'.symm) hlt
  · intro k hk
    exact hcut k (by simpa using hk)

-- Of two steps with one subject the order is kept in both directions.
theorem Reorders.lt_iff_lt (hr : Reorders xs ys σ) {j k : Fin xs.length}
    (hsome : xs[j].subject? ≠ none) (heq : xs[j].subject? = xs[k].subject?) :
    j < k ↔ σ j < σ k := by
  constructor
  · exact hr.ordered j k hsome heq
  · intro hlt
    by_contra hnot
    have hne : k ≠ j := by
      rintro rfl
      exact lt_irrefl _ hlt
    have hkj : k < j := lt_of_le_of_ne (not_lt.1 hnot) hne
    have hback := hr.ordered k j (heq ▸ hsome) heq.symm hkj
    exact lt_asymm hlt hback

theorem Reorders.result_eq (hr : Reorders xs ys σ) (hs : List Handle) (k : Fin xs.length) :
    (step (run hs (xs.take k)).1 xs[k]).2 = (step (run hs (ys.take (σ k))).1 xs[k]).2 := by
  obtain ⟨i, what, hk, hlocal⟩ := hr.isLocal xs[k] (List.getElem_mem _)
  rw [hk]
  cases hi : hs[i]? with
  | none =>
    have habsent (steps : List Step) (hl : ∀ s ∈ steps, ∃ i what, s = .act i what ∧ what.isLocal) :
        (run hs steps).1[i]? = none := by
      rw [List.getElem?_eq_none_iff, length_run_of_isLocal hl]
      exact List.getElem?_eq_none_iff.1 hi
    have hx := habsent (xs.take k) fun s h => hr.isLocal s (List.mem_of_mem_take h)
    have hy := habsent (ys.take (σ k)) fun s h => hr.isLocal_behind s (List.mem_of_mem_take h)
    rw [step_act_none what hx, step_act_none what hy]
  | some h =>
    rw [step_act_some what (getElem?_run hi (xs.take k)),
      step_act_some what (getElem?_run hi (ys.take (σ k)))]
    apply seen_eq_of_filter_eq h hlocal
    intro email hw
    apply hr.filter_history
    intro j hj
    have hsubject : xs[k].subject? = some (i, email) := by simp [hk, Step.subject?, hw]
    exact hr.lt_iff_lt (hj ▸ Option.some_ne_none _) (hj.trans hsubject.symm)

theorem Reorders.storages_eq (hr : Reorders xs ys σ) (hs : List Handle) :
    (run hs xs).1 = (run hs ys).1 := by
  apply List.ext_getElem?
  intro i
  cases hi : hs[i]? with
  | none =>
    have hle := List.getElem?_eq_none_iff.1 hi
    rw [List.getElem?_eq_none (by rwa [length_run_of_isLocal hr.isLocal]),
      List.getElem?_eq_none (by rwa [length_run_of_isLocal hr.isLocal_behind])]
  | some h =>
    rw [getElem?_run hi, getElem?_run hi]
    apply congrArg some
    apply eq_of_agree
    intro email
    apply agree_of_filter_eq
    have hall := hr.filter_history i email (c := xs.length) (d := ys.length)
      fun k _ => iff_of_true k.isLt (σ k).isLt
    simpa using hall

-- A step on an email is decided by the steps on this email in this storage that stand in front of
-- it, so their order is all that has to stay.
theorem run_reordered (hs : List Handle) (hr : Reorders xs ys σ) :
    (∀ k : Fin xs.length, ∃ r, (run hs xs).2[k.val]? = some r ∧ (run hs ys).2[(σ k).val]? = some r) ∧
      ∀ more, (run (run hs xs).1 more).2 = (run (run hs ys).1 more).2 := by
  constructor
  · intro k
    have hx : xs[k.val]? = some xs[k] := List.getElem?_eq_getElem k.isLt
    have hy : ys[(σ k).val]? = some xs[k] := by
      rw [← hr.moved k]
      exact List.getElem?_eq_getElem (σ k).isLt
    refine ⟨_, getElem?_results_of_getElem? hs hx, ?_⟩
    rw [getElem?_results_of_getElem? hs hy, hr.result_eq hs k]
  · intro more
    rw [hr.storages_eq hs]

-- Two clients in turns, and the same steps with the first one's information and removal in front and
-- the second one's save behind.
def inTurns : List Step :=
  [.act 0 (.save ⟨"Ann", "a", 3⟩), .act 1 (.save ⟨"Cid", "a", 5⟩), .act 0 (.save ⟨"Bob", "a", 4⟩),
    .act 0 (.remove "b"), .act 1 .info, .act 0 (.load "a")]

def regrouped : List Step :=
  [.act 1 .info, .act 0 (.remove "b"), .act 0 (.save ⟨"Ann", "a", 3⟩),
    .act 0 (.save ⟨"Bob", "a", 4⟩), .act 0 (.load "a"), .act 1 (.save ⟨"Cid", "a", 5⟩)]

def regrouping : Fin 6 ≃ Fin 6 where
  toFun := ![2, 5, 3, 1, 0, 4]
  invFun := ![4, 3, 0, 2, 5, 1]
  left_inv := by intro k; revert k; decide
  right_inv := by intro k; revert k; decide

theorem run_reordered_regrouped :
    Reorders inTurns regrouped regrouping ∧
      (∀ k : Fin inTurns.length,
        ∃ r, (run [⟨true, .memory .empty⟩, ⟨false, .memory .empty⟩] inTurns).2[k.val]? = some r ∧
          (run [⟨true, .memory .empty⟩, ⟨false, .memory .empty⟩] regrouped).2[(regrouping k).val]? =
            some r) ∧
      ∀ more, (run (run [⟨true, .memory .empty⟩, ⟨false, .memory .empty⟩] inTurns).1 more).2 =
        (run (run [⟨true, .memory .empty⟩, ⟨false, .memory .empty⟩] regrouped).1 more).2 := by
  have hr : Reorders inTurns regrouped regrouping :=
    { isLocal := by simp [inTurns, Action.isLocal]
      moved := by decide
      ordered := by decide }
  exact ⟨hr, run_reordered _ hr⟩

end Session
end Roster
