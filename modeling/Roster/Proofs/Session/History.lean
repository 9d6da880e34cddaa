import Roster.Storage.Session

namespace Roster.Session

-- The actions of these steps on the storage of this number.
def history (i : Nat) (steps : List Step) : List Action :=
  steps.filterMap fun
    | .opening _ => none
    | .act j what => if j = i then some what else none

-- The number that a copy would get plays no part in what becomes of a storage.
def advance (h : Handle) (what : Action) : Handle := ⟨h.isConcrete, (Handle.act h 0 what).storage⟩

def advanceAll (h : Handle) (past : List Action) : Handle := past.foldl advance h

def answers (steps : List Step) : List Answer := (run [] steps).2.map Prod.fst

theorem history_append (i : Nat) (front behind : List Step) :
    history i (front ++ behind) = history i front ++ history i behind :=
  List.filterMap_append

@[simp] theorem advanceAll_nil (h : Handle) : advanceAll h [] = h := rfl

@[simp] theorem advanceAll_cons (h : Handle) (what : Action) (past : List Action) :
    advanceAll h (what :: past) = advanceAll (advance h what) past := rfl

theorem advanceAll_append (h : Handle) (past more : List Action) :
    advanceAll h (past ++ more) = advanceAll (advanceAll h past) more :=
  List.foldl_append

theorem act_storage (h : Handle) (next : Nat) (what : Action) :
    (Handle.act h next what).storage = (Handle.act h 0 what).storage := by
  cases what with
  | copy =>
    simp only [Handle.act]
    split <;> rfl
  | _ => rfl

@[simp] theorem advanceAll_isConcrete (h : Handle) (past : List Action) :
    (advanceAll h past).isConcrete = h.isConcrete := by
  induction past generalizing h with
  | nil => rfl
  | cons what past ih => rw [advanceAll_cons, ih]; rfl

theorem advance_kind (h : Handle) (what : Action) :
    (advance h what).storage.kind = h.storage.kind := by
  obtain ⟨_ | _, _ | _⟩ := h <;> cases what <;> rfl

-- A file storage has nothing that could change.
theorem advance_file (b : Bool) (p : Bytes) (what : Action) :
    advance ⟨b, .file p⟩ what = ⟨b, .file p⟩ := by
  cases what <;> cases b <;> rfl

-- A storage stays of the kind that it was opened as.
@[simp] theorem advanceAll_kind (h : Handle) (past : List Action) :
    (advanceAll h past).storage.kind = h.storage.kind := by
  induction past generalizing h with
  | nil => rfl
  | cons what past ih => rw [advanceAll_cons, ih, advance_kind]

-- Only a file storage that is known as one has copies.
theorem act_copy {h k : Handle} {next : Nat} {what : Action}
    (hk : (Handle.act h next what).copy = some k) :
    what = .copy ∧ ∃ p, h = ⟨true, .file p⟩ ∧ k = h := by
  cases what with
  | copy =>
    obtain ⟨_ | _, _ | p⟩ := h
    · cases hk
    · cases hk
    · cases hk
    · exact ⟨rfl, p, rfl, (Option.some.inj hk).symm⟩
  | save u => cases hk
  | load email => cases hk
  | info => cases hk
  | _ =>
    simp only [Handle.act] at hk
    split at hk <;> cases hk

theorem step_opening_ok {how : Opening} {h : Handle} {events : List Event} (hs : List Handle)
    (ho : openHandle how = .ok (h, events)) :
    step hs (.opening how) = (hs ++ [h], .opened hs.length, events) := by
  simp only [step, ho]

theorem step_opening_error {how : Opening} {e : StorageError} (hs : List Handle)
    (ho : openHandle how = .error e) : step hs (.opening how) = (hs, .refused e, []) := by
  simp only [step, ho]

theorem step_act_none {hs : List Handle} {i : Nat} (what : Action) (hi : hs[i]? = none) :
    step hs (.act i what) = (hs, .noSuchStorage, []) := by
  simp only [step, hi]

theorem step_act_some {hs : List Handle} {i : Nat} {h : Handle} (what : Action)
    (hi : hs[i]? = some h) :
    step hs (.act i what) =
      (hs.set i (advance h what) ++ (Handle.act h hs.length what).copy.toList,
        (Handle.act h hs.length what).answer, (Handle.act h hs.length what).events) := by
  simp only [step, hi, advance, act_storage h hs.length what]

-- A step on one storage leaves every other one alone.
theorem getElem?_step {hs : List Handle} {i : Nat} {h : Handle} (hi : hs[i]? = some h)
    (s : Step) : (step hs s).1[i]? = some (advanceAll h (history i [s])) := by
  obtain ⟨hlt, -⟩ := List.getElem?_eq_some_iff.1 hi
  cases s with
  | opening how =>
    cases ho : openHandle how with
    | error e => rw [step_opening_error hs ho]; exact hi
    | ok o =>
      rw [step_opening_ok hs ho, List.getElem?_append_left hlt]
      exact hi
  | act j what =>
    cases hj : hs[j]? with
    | none =>
      have hne : j ≠ i := by rintro rfl; rw [hi] at hj; cases hj
      rw [step_act_none what hj, hi]
      simp [history, hne]
    | some k =>
      rw [step_act_some what hj, List.getElem?_append_left (by simpa using hlt)]
      by_cases hji : j = i
      · subst hji
        have hk : k = h := Option.some.inj (hj.symm.trans hi)
        simp [history, hk, hlt]
      · rw [List.getElem?_set_ne hji, hi]
        simp [history, hji]

theorem run_cons (hs : List Handle) (s : Step) (rest : List Step) :
    run hs (s :: rest) =
      ((run (step hs s).1 rest).1, (step hs s).2 :: (run (step hs s).1 rest).2) := rfl

theorem run_append (hs : List Handle) (front behind : List Step) :
    run hs (front ++ behind) =
      ((run (run hs front).1 behind).1, (run hs front).2 ++ (run (run hs front).1 behind).2) := by
  induction front generalizing hs with
  | nil => rfl
  | cons s front ih => simp only [List.cons_append, run_cons, ih]

theorem run_concat (hs : List Handle) (steps : List Step) (s : Step) :
    run hs (steps ++ [s]) = ((step (run hs steps).1 s).1,
      (run hs steps).2 ++ [(step (run hs steps).1 s).2]) := by
  rw [run_append]
  rfl

theorem length_results (hs : List Handle) (steps : List Step) :
    (run hs steps).2.length = steps.length := by
  induction steps generalizing hs with
  | nil => rfl
  | cons s rest ih => simp only [run_cons, List.length_cons, ih]

-- What becomes of a storage is decided by the actions on it, in their order, whatever happens to
-- other storages in between.
theorem getElem?_run {hs : List Handle} {i : Nat} {h : Handle} (hi : hs[i]? = some h)
    (steps : List Step) : (run hs steps).1[i]? = some (advanceAll h (history i steps)) := by
  induction steps generalizing hs h with
  | nil => exact hi
  | cons s rest ih =>
    rw [run_cons, ih (getElem?_step hi s), ← advanceAll_append, ← history_append]
    rfl

-- What a step comes to in the middle of a run.
theorem getElem?_results (hs : List Handle) (front : List Step) (s : Step) (rest : List Step) :
    (run hs (front ++ s :: rest)).2[front.length]? = some (step (run hs front).1 s).2 := by
  rw [run_append, ← length_results hs front, List.getElem?_append_right (Nat.le_refl _),
    Nat.sub_self]
  rfl

theorem getElem?_results_of_getElem? (hs : List Handle) {steps : List Step} {m : Nat} {s : Step}
    (h : steps[m]? = some s) :
    (run hs steps).2[m]? = some (step (run hs (steps.take m)).1 s).2 := by
  obtain ⟨hlt, hget⟩ := List.getElem?_eq_some_iff.1 h
  have hsplit : steps = steps.take m ++ s :: steps.drop (m + 1) := by
    rw [← hget, ← List.drop_eq_getElem_cons hlt, List.take_append_drop]
  have hlen : (steps.take m).length = m := List.length_take_of_le (Nat.le_of_lt hlt)
  have hres := getElem?_results hs (steps.take m) s (steps.drop (m + 1))
  rw [hlen, ← hsplit] at hres
  exact hres

-- The storages of a run are numbered in the order in which they come to be, one at a time.
theorem length_step_le (hs : List Handle) (s : Step) :
    (step hs s).1.length ≤ hs.length + 1 := by
  cases s with
  | opening how =>
    cases ho : openHandle how with
    | error e => simp [step_opening_error hs ho]
    | ok o => simp [step_opening_ok hs ho]
  | act j what =>
    cases hj : hs[j]? with
    | none => simp [step_act_none what hj]
    | some k =>
      simp only [step_act_some what hj, List.length_append, List.length_set]
      cases (Handle.act k hs.length what).copy <;> simp

theorem length_le_length_step (hs : List Handle) (s : Step) :
    hs.length ≤ (step hs s).1.length := by
  cases s with
  | opening how =>
    cases ho : openHandle how with
    | error e => simp [step_opening_error hs ho]
    | ok o => simp [step_opening_ok hs ho]
  | act i what =>
    cases hi : hs[i]? with
    | none => simp [step_act_none what hi]
    | some h => simp [step_act_some what hi]

-- A storage was opened at the step that gave it its number.
theorem exists_creation {hs : List Handle} {i : Nat} (steps : List Step) (hlow : hs.length ≤ i)
    (hhigh : i < (run hs steps).1.length) :
    ∃ before s after, steps = before ++ s :: after ∧ (run hs before).1.length = i ∧
      i < (step (run hs before).1 s).1.length := by
  induction steps generalizing hs with
  | nil => exact absurd hhigh (Nat.not_lt.2 hlow)
  | cons s rest ih =>
    by_cases hs' : (step hs s).1.length ≤ i
    · obtain ⟨before, t, after, rfl, hb, ht⟩ := ih hs' hhigh
      exact ⟨s :: before, t, after, rfl, hb, ht⟩
    · have hl := length_step_le hs s
      exact ⟨[], s, rest, rfl, by simp only [run]; omega, by simpa only [run] using by omega⟩

-- What a step that makes the storages more has done.
theorem creation_cases {hs : List Handle} {s : Step} (h : hs.length < (step hs s).1.length) :
    (∃ how k events, s = .opening how ∧ openHandle how = .ok (k, events) ∧
      step hs s = (hs ++ [k], .opened hs.length, events)) ∨
    (∃ j p, s = .act j .copy ∧ hs[j]? = some ⟨true, .file p⟩ ∧
      step hs s = (hs ++ [⟨true, .file p⟩], .opened hs.length, [])) := by
  cases s with
  | opening how =>
    cases ho : openHandle how with
    | error e => simp [step_opening_error hs ho] at h
    | ok o => exact .inl ⟨how, o.1, o.2, rfl, ho, step_opening_ok hs ho⟩
  | act j what =>
    cases hj : hs[j]? with
    | none => simp [step_act_none what hj] at h
    | some k =>
      cases hc : (Handle.act k hs.length what).copy with
      | none => simp [step_act_some what hj, hc] at h
      | some c =>
        obtain ⟨rfl, p, rfl, rfl⟩ := act_copy hc
        refine .inr ⟨j, p, rfl, hj, ?_⟩
        obtain ⟨hlt, hget⟩ := List.getElem?_eq_some_iff.1 hj
        rw [step_act_some _ hj, hc]
        have hset : hs.set j ⟨true, .file p⟩ = hs := by rw [← hget, List.set_getElem_self]
        simp only [advance, Handle.act, hset, Option.toList_some]

-- The step that a storage of a run comes from, and what became of the storage since.
theorem exists_opening {steps : List Step} {i : Nat} {h : Handle}
    (hi : (run [] steps).1[i]? = some h) :
    ∃ before s after k events, steps = before ++ s :: after ∧ (run [] before).1.length = i ∧
      step (run [] before).1 s = ((run [] before).1 ++ [k], .opened i, events) ∧
      h = advanceAll k (history i after) ∧
      ((∃ how, s = .opening how ∧ openHandle how = .ok (k, events)) ∨
        (∃ j p, s = .act j .copy ∧ (run [] before).1[j]? = some k ∧ k = ⟨true, .file p⟩ ∧
          events = [])) := by
  obtain ⟨hlt, -⟩ := List.getElem?_eq_some_iff.1 hi
  obtain ⟨before, s, after, rfl, rfl, hs⟩ := exists_creation steps (Nat.zero_le i) hlt
  rw [run_append, run_cons] at hi
  have behind (k : Handle) :
      (run ((run [] before).1 ++ [k]) after).1[(run [] before).1.length]? =
        some (advanceAll k (history (run [] before).1.length after)) :=
    getElem?_run List.getElem?_concat_length after
  rcases creation_cases hs with ⟨how, k, events, rfl, ho, hstep⟩ | ⟨j, p, rfl, hj, hstep⟩
  · rw [hstep, behind] at hi
    exact ⟨before, _, after, k, events, rfl, rfl, hstep, (Option.some.inj hi).symm,
      .inl ⟨how, rfl, ho⟩⟩
  · rw [hstep, behind] at hi
    exact ⟨before, _, after, _, [], rfl, rfl, hstep, (Option.some.inj hi).symm,
      .inr ⟨j, p, rfl, hj, rfl, rfl⟩⟩

end Roster.Session
