import Roster.Proofs.Session.Status

namespace Roster.Session

-- How the storage that a config asks for is opened by its own type.
def direct (c : Config) : Opening :=
  match c.backend with
  | .memory => .memory
  | .file => .file c.basePath

-- What every storage has.
def Action.isGeneral : Action → Bool
  | .save _ | .load _ | .info => true
  | .remove _ | .size | .basePath | .copy => false

-- Any step on other storages, and on storage `n` only what every storage has.
def Step.isGeneralOn (n : Nat) : Step → Bool
  | .opening _ => true
  | .act i what => i ≠ n || what.isGeneral

-- The same storages, number `n` of them known by its own type.
def known (n : Nat) (hs : List Handle) : List Handle :=
  hs.modify n fun h => ⟨true, h.storage⟩

variable {hs : List Handle} {h : Handle} {i n : Nat} {what : Action}

@[simp] theorem length_known (n : Nat) (hs : List Handle) : (known n hs).length = hs.length :=
  List.length_modify ..

theorem getElem?_known_self (hn : hs[n]? = some h) : (known n hs)[n]? = some ⟨true, h.storage⟩ := by
  simp [known, hn]

theorem getElem?_known_ne (hne : i ≠ n) (hs : List Handle) : (known n hs)[i]? = hs[i]? := by
  simp [known, hne.symm]

theorem known_append (hn : n < hs.length) (new : List Handle) :
    known n (hs ++ new) = known n hs ++ new := by
  apply List.ext_getElem?
  intro j
  by_cases hj : j < hs.length
  · simp [known, List.getElem?_append, List.getElem?_modify, List.getElem_modify, hj]
  · have hne : n ≠ j := by omega
    simp [known, List.getElem?_append, hj, hne]

theorem known_concat (hs : List Handle) (h : Handle) :
    known hs.length (hs ++ [h]) = hs ++ [⟨true, h.storage⟩] := by
  induction hs with
  | nil => rfl
  | cons k hs ih => simpa [known] using ih

theorem known_set_self (n : Nat) (hs : List Handle) (h : Handle) :
    known n (hs.set n h) = (known n hs).set n ⟨true, h.storage⟩ := by
  apply List.ext_getElem?
  intro j
  by_cases hj : n = j
  · subst hj
    by_cases hn : n < hs.length <;> simp [known, hn]
  · simp [known, hj]

theorem known_set_ne (hne : i ≠ n) (hs : List Handle) (h : Handle) :
    known n (hs.set i h) = (known n hs).set i h := by
  apply List.ext_getElem?
  intro j
  by_cases hj : n = j
  · subst hj
    simp [known, hne]
  · simp [known, List.getElem?_set, hj]

theorem act_known (h : Handle) (next : Nat) (hw : what.isGeneral) :
    Handle.act ⟨true, h.storage⟩ next what = Handle.act h next what := by
  cases what with
  | save u | load email | info => rfl
  | _ => cases hw

-- Knowing its type makes no difference to a step that asks only for what every storage has.
theorem step_known (hn : n < hs.length) {s : Step} (hgeneral : s.isGeneralOn n) :
    step (known n hs) s = (known n (step hs s).1, (step hs s).2) := by
  cases s with
  | opening how =>
    cases ho : openHandle how with
    | error e => rw [step_opening_error _ ho, step_opening_error _ ho]
    | ok o => rw [step_opening_ok _ ho, step_opening_ok _ ho, known_append hn, length_known]
  | act i what =>
    by_cases hi : i = n
    · subst hi
      have hw : what.isGeneral := by simpa [Step.isGeneralOn] using hgeneral
      have hget : hs[i]? = some hs[i] := List.getElem?_eq_getElem hn
      have hset : i < (hs.set i (advance hs[i] what)).length := by simpa using hn
      rw [step_act_some what (getElem?_known_self hget), step_act_some what hget,
        known_append hset, known_set_self, length_known, act_known _ _ hw, advance,
        act_known _ _ hw]
      rfl
    · cases hget : hs[i]? with
      | none =>
        have hknown : (known n hs)[i]? = none := by rw [getElem?_known_ne hi, hget]
        rw [step_act_none what hknown, step_act_none what hget]
      | some h =>
        have hknown : (known n hs)[i]? = some h := by rw [getElem?_known_ne hi, hget]
        have hset : n < (hs.set i (advance h what)).length := by simpa using hn
        rw [step_act_some what hknown, step_act_some what hget, known_append hset,
          known_set_ne hi, length_known]

theorem run_known {steps : List Step} (hn : n < hs.length)
    (hgeneral : ∀ s ∈ steps, s.isGeneralOn n) :
    run (known n hs) steps = (known n (run hs steps).1, (run hs steps).2) := by
  induction steps generalizing hs with
  | nil => rfl
  | cons s rest ih =>
    have hstep := step_known hn (hgeneral s List.mem_cons_self)
    have hrest := ih (Nat.lt_of_lt_of_le hn (length_le_length_step hs s))
      fun t ht => hgeneral t (List.mem_cons_of_mem s ht)
    rw [run_cons, run_cons, hstep, hrest]

theorem kind_ofConfig (c : Config) : (Storage.ofConfig c).kind = c.backend := by
  cases hc : c.backend <;> simp [Storage.ofConfig, Storage.kind, hc]

theorem step_config (hs : List Handle) (c : Config) :
    step hs (.opening (.config c)) =
      (hs ++ [⟨false, .ofConfig c⟩], .opened hs.length, [.opened c.backend c.backend.status]) := by
  rw [step_opening_ok hs rfl, Storage.openConfig]
  simp only [status_eq, kind_ofConfig]

theorem step_direct (hs : List Handle) (c : Config) :
    step hs (.opening (direct c)) = (hs ++ [⟨true, .ofConfig c⟩], .opened hs.length, []) := by
  cases hc : c.backend with
  | memory => simp [direct, hc, Storage.ofConfig, step, openHandle]
  | file => simp [direct, hc, Storage.ofConfig, step, openHandle]

-- Behind its opening a storage reports the kind and the status that it was opened with.
theorem result_info (hs : List Handle) (c : Config) {steps : List Step} {m : Nat}
    (hm : steps[m]? = some (.act hs.length .info)) :
    (run (hs ++ [⟨false, .ofConfig c⟩]) steps).2[m]? =
      some (.info c.backend.name c.backend c.backend.status, []) := by
  have hopened : (hs ++ [⟨false, .ofConfig c⟩])[hs.length]? = some ⟨false, .ofConfig c⟩ :=
    List.getElem?_concat_length
  rw [getElem?_results_of_getElem? _ hm, step_act_some _ (getElem?_run hopened _)]
  have hseen := seen_info (advanceAll ⟨false, .ofConfig c⟩ (history hs.length (steps.take m)))
    (run (hs ++ [⟨false, .ofConfig c⟩]) (steps.take m)).1.length
  rw [advanceAll_kind, kind_ofConfig] at hseen
  exact congrArg some hseen

-- As long as only what every storage has is asked of it, a storage opened by a config cannot be
-- told from one opened by its own type.
theorem opening_adds_nothing (hs : List Handle) (c : Config) :
    (∀ steps : List Step, (∀ s ∈ steps, s.isGeneralOn hs.length) →
      ∃ (e : Event) (name : String) (status : Status) (results : List (Answer × List Event)),
      (run hs (.opening (.config c) :: steps)).2 = (.opened hs.length, [e]) :: results ∧
      (run hs (.opening (direct c) :: steps)).2 = (.opened hs.length, []) :: results ∧
      e.level = .info ∧
      e.message = "Opened " ++ name ++ " storage (status: " ++ status.name ++ ")" ∧
      ∀ m : Nat, steps[m]? = some (.act hs.length .info) →
        results[m]? = some (.info name c.backend status, [])) ∧
    (∀ c' : Config, c.backend = .memory → c'.backend = .memory → ∀ steps,
      run hs (.opening (.config c) :: steps) = run hs (.opening (.config c') :: steps)) ∧
    ∀ text,
      (Config.ofToml text = .ok c → ∀ steps,
        run hs (.opening (.toml text) :: steps) = run hs (.opening (.config c) :: steps)) ∧
      ∀ r, Config.ofToml text = .error r → ∀ steps,
        run hs (.opening (.toml text) :: steps) =
          ((run hs steps).1, (.refused r.error, []) :: (run hs steps).2) := by
  refine ⟨?_, ?_, ?_⟩
  · intro steps hgeneral
    refine ⟨.opened c.backend c.backend.status, c.backend.name, c.backend.status,
      (run (hs ++ [⟨false, .ofConfig c⟩]) steps).2, ?_, ?_, rfl, rfl, ?_⟩
    · rw [run_cons, step_config]
    · have hopened := known_concat hs ⟨false, .ofConfig c⟩
      rw [run_cons, step_direct, ← hopened, run_known (by simp) hgeneral]
    · intro m hm
      exact result_info hs c hm
  · intro c' hc hc' steps
    have hsame : Storage.ofConfig c = Storage.ofConfig c' := by simp [Storage.ofConfig, hc, hc']
    rw [run_cons, run_cons, step_config, step_config, hsame, hc, hc']
  · intro text
    constructor
    · intro hc steps
      have hopen : openHandle (.toml text) = openHandle (.config c) := by simp [openHandle, hc]
      have hstep : step hs (.opening (.toml text)) = step hs (.opening (.config c)) := by
        simp only [step, hopen]
      rw [run_cons, run_cons, hstep]
    · intro r hr steps
      have hopen : openHandle (.toml text) = .error r.error := by simp [openHandle, hr]
      rw [run_cons, step_opening_error hs hopen]

end Roster.Session
