import Roster.Proofs.Session.History

namespace Roster

-- What a kind can do at present.
def Backend.status : Backend → Status
  | .memory => .ready
  | .file => .unimplemented

namespace Session

-- The kind and the path that a storage starts with. A text that is no config opens nothing.
def Opening.config? : Opening → Option Config
  | .memory => some { backend := .memory }
  | .file p => some { backend := .file, basePath := p }
  | .config c => some c
  | .toml text => (Config.ofToml text).toOption

-- Whether what was opened is known by its own type.
def Opening.isConcrete : Opening → Bool
  | .memory | .file _ => true
  | .config _ | .toml _ => false

def results (steps : List Step) : List (Answer × List Event) := (run [] steps).2

-- The storages that step `m` finds.
def storagesBefore (steps : List Step) (m : Nat) : List Handle := (run [] (steps.take m)).1

-- Step `n` gave a storage the number `i`: it was opened so there, or is a copy of one that was, or a
-- copy of such a copy.
inductive Descends (steps : List Step) (how : Opening) : Nat → Nat → Prop
  | opened {n i : Nat} (hs : steps[n]? = some (.opening how))
      (ha : (answers steps)[n]? = some (.opened i)) : Descends steps how n i
  | copied {n m i j : Nat} (hj : Descends steps how n j) (hlt : n < m)
      (hs : steps[m]? = some (.act j .copy)) (ha : (answers steps)[m]? = some (.opened i)) :
      Descends steps how m i

-- What a storage shows that step `n` opened with this config, or copied from one so opened: what its
-- steps come to behind that step.
structure Truthful (steps : List Step) (how : Opening) (n i : Nat) (c : Config) : Prop where
  info : ∀ m, n < m → steps[m]? = some (.act i .info) →
    (answers steps)[m]? = some (.info c.backend.name c.backend c.backend.status)
  opening : ∃ r, (results steps)[n]? = some r ∧ ∀ e ∈ r.2, e.level ≠ .warn
  quiet : c.backend.status = .ready → ∀ m what, n < m → steps[m]? = some (.act i what) →
    ∃ r, (results steps)[m]? = some r ∧ ∀ e ∈ r.2, e.level ≠ .warn
  kept : c.backend.status = .ready → ∀ m u, n < m → steps[m]? = some (.act i (.save u)) →
    steps[m + 1]? = some (.act i (.load u.email)) →
    (answers steps)[m + 1]? = some (.user (some u))
  absent : c.backend.status = .unimplemented → ∀ m email, n < m →
    steps[m]? = some (.act i (.load email)) → (answers steps)[m]? = some (.user none)
  dropped : c.backend.status = .unimplemented → ∀ m u, n < m →
    steps[m]? = some (.act i (.save u)) →
    ∃ e, (results steps)[m]? = some (.saved, [e]) ∧ e.level = .warn ∧
      e.message = "file storage is not implemented, record dropped: email=" ++ u.email ++
        ", base_path=" ++ Bytes.display c.basePath
  stays : c.backend.status = .unimplemented → ∀ m, n < m →
    (storagesBefore steps m)[i]? = some ⟨how.isConcrete, .file c.basePath⟩
  basePath : c.backend.status = .unimplemented → ∀ m, n < m →
    steps[m]? = some (.act i .basePath) →
    (answers steps)[m]? = some (if how.isConcrete then .path c.basePath else .notApplicable)
  copied : c.backend.status = .unimplemented → how.isConcrete = true → ∀ m, n < m →
    steps[m]? = some (.act i .copy) →
    ∃ j, (answers steps)[m]? = some (.opened j) ∧ Descends steps how m j

variable {steps : List Step} {how : Opening} {c : Config} {h : Handle} {m n i : Nat}

theorem storagesBefore_succ {s : Step} (hs : steps[m]? = some s) :
    storagesBefore steps (m + 1) = (step (storagesBefore steps m) s).1 := by
  rw [storagesBefore, List.take_add_one, hs, run_append]
  rfl

-- Behind the last step nothing changes.
theorem storagesBefore_succ_none (hs : steps[m]? = none) :
    storagesBefore steps (m + 1) = storagesBefore steps m := by
  rw [storagesBefore, List.take_add_one, hs, Option.toList_none, List.append_nil]
  rfl

theorem getElem?_results_of_step {s : Step} (hs : steps[m]? = some s) :
    (results steps)[m]? = some (step (storagesBefore steps m) s).2 :=
  getElem?_results_of_getElem? [] hs

theorem getElem?_answers (m : Nat) : (answers steps)[m]? = (results steps)[m]?.map Prod.fst :=
  List.getElem?_map ..

-- A storage that was opened so, whatever has been saved to it.
structure IsOf (how : Opening) (c : Config) (h : Handle) : Prop where
  isConcrete : h.isConcrete = how.isConcrete
  kind : h.storage.kind = c.backend
  file : c.backend = .file → h.storage = .file c.basePath

theorem IsOf.advance (ho : IsOf how c h) (what : Action) : IsOf how c (advance h what) where
  isConcrete := ho.isConcrete
  kind := (advance_kind h what).trans ho.kind
  file := by
    intro hc
    have hs := ho.file hc
    obtain ⟨b, s⟩ := h
    cases hs
    exact congrArg Handle.storage (advance_file b c.basePath what)

theorem IsOf.advanceAll (ho : IsOf how c h) (past : List Action) :
    IsOf how c (advanceAll h past) := by
  induction past generalizing h with
  | nil => exact ho
  | cons what past ih => exact ih (ho.advance what)

theorem isOf_openConfig (hhow : how.isConcrete = false) :
    IsOf how c ⟨false, (Storage.openConfig c).1⟩ where
  isConcrete := hhow.symm
  kind := by
    rw [Storage.openConfig, Storage.ofConfig]
    cases c.backend <;> rfl
  file := by
    intro hc
    rw [Storage.openConfig, Storage.ofConfig, hc]

theorem isOf_of_openHandle {events : List Event} (ho : openHandle how = .ok (h, events)) :
    ∃ c, how.config? = some c ∧ IsOf how c h := by
  cases how with
  | memory =>
    cases ho
    exact ⟨_, rfl, rfl, rfl, nofun⟩
  | file p =>
    cases ho
    exact ⟨_, rfl, rfl, rfl, fun _ => rfl⟩
  | config c =>
    cases ho
    exact ⟨c, rfl, isOf_openConfig rfl⟩
  | toml text =>
    simp only [openHandle] at ho
    split at ho
    · cases ho
    · rename_i c hc
      cases ho
      refine ⟨c, ?_, isOf_openConfig rfl⟩
      rw [Opening.config?, hc]
      rfl

-- A storage does not change its origin from one step to the next.
theorem IsOf.persists (ho : IsOf how c h) (hi : (storagesBefore steps n)[i]? = some h)
    (hle : n ≤ m) : ∃ k, (storagesBefore steps m)[i]? = some k ∧ IsOf how c k := by
  induction hle with
  | refl => exact ⟨h, hi, ho⟩
  | @step m _ ih =>
    obtain ⟨k, hk, hok⟩ := ih
    cases hs : steps[m]? with
    | none => exact ⟨k, by rw [storagesBefore_succ_none hs, hk], hok⟩
    | some s =>
      rw [storagesBefore_succ hs]
      exact ⟨_, getElem?_step hk s, hok.advanceAll _⟩

theorem isSome_copy_of_opened {next : Nat} {what : Action}
    (ha : (Handle.act h next what).answer = .opened i) :
    (Handle.act h next what).copy.isSome := by
  obtain ⟨b, s⟩ := h
  cases what with
  | copy =>
    cases b with
    | false => cases ha
    | true =>
      cases s with
      | memory m => cases ha
      | file p => rfl
  | save u => cases ha
  | load email => cases ha
  | info => cases ha
  | _ => cases b <;> cases s <;> cases ha

-- A step that answers with a number has put a storage under that number.
theorem created_of_opened {hs : List Handle} {s : Step} (ha : (step hs s).2.1 = .opened i) :
    hs.length < (step hs s).1.length := by
  cases s with
  | opening how =>
    cases ho : openHandle how with
    | error e =>
      rw [step_opening_error hs ho] at ha
      cases ha
    | ok o =>
      rw [step_opening_ok hs ho]
      simp
  | act j what =>
    cases hj : hs[j]? with
    | none =>
      rw [step_act_none what hj] at ha
      cases ha
    | some k =>
      rw [step_act_some what hj] at ha ⊢
      obtain ⟨d, hd⟩ := Option.isSome_iff_exists.1 (isSome_copy_of_opened ha)
      simp [hd]

theorem answer_of_getElem? {s : Step} (hs : steps[m]? = some s)
    (ha : (answers steps)[m]? = some (.opened i)) :
    (step (storagesBefore steps m) s).2.1 = .opened i := by
  rw [getElem?_answers, getElem?_results_of_step hs] at ha
  exact Option.some.inj ha

theorem Descends.exists_isOf (hd : Descends steps how n i) :
    ∃ c, how.config? = some c ∧
      ∀ m, n < m → ∃ h, (storagesBefore steps m)[i]? = some h ∧ IsOf how c h := by
  induction hd with
  | @opened n i hs ha =>
    have hstep := answer_of_getElem? hs ha
    obtain ⟨how', k, events, heq, ho, hcreated⟩ | ⟨j, p, heq, -⟩ :=
      creation_cases (created_of_opened hstep)
    · obtain rfl := Step.opening.inj heq
      obtain ⟨c, hc, hk⟩ := isOf_of_openHandle ho
      rw [hcreated] at hstep
      obtain rfl := Answer.opened.inj hstep
      have hget : (storagesBefore steps (n + 1))[(storagesBefore steps n).length]? = some k := by
        rw [storagesBefore_succ hs, hcreated]
        exact List.getElem?_concat_length
      exact ⟨c, hc, fun m hlt => hk.persists hget hlt⟩
    · cases heq
  | @copied n m i j _ hlt hs ha ih =>
    obtain ⟨c, hc, hat⟩ := ih
    obtain ⟨h, hj, hk⟩ := hat m hlt
    have hstep := answer_of_getElem? hs ha
    obtain ⟨how', k, events, heq, -⟩ | ⟨j', p, heq, hj', hcreated⟩ :=
      creation_cases (created_of_opened hstep)
    · cases heq
    · obtain rfl := (Step.act.inj heq).1
      obtain rfl := Option.some.inj (hj.symm.trans hj')
      rw [hcreated] at hstep
      obtain rfl := Answer.opened.inj hstep
      have hget : (storagesBefore steps (m + 1))[(storagesBefore steps m).length]? =
          some ⟨true, .file p⟩ := by
        rw [storagesBefore_succ hs, hcreated]
        exact List.getElem?_concat_length
      exact ⟨c, hc, fun m' hlt' => hk.persists hget hlt'⟩

-- Every storage has an origin among the openings of the run.
theorem exists_descends (steps : List Step) (m : Nat) {i : Nat}
    (hi : i < (storagesBefore steps m).length) : ∃ how n, n < m ∧ Descends steps how n i := by
  induction m generalizing i with
  | zero => exact absurd hi (Nat.not_lt_zero i)
  | succ m ih =>
    have earlier {j : Nat} (hj : j < (storagesBefore steps m).length) :
        ∃ how n, n < m + 1 ∧ Descends steps how n j := by
      obtain ⟨how, n, hlt, hd⟩ := ih hj
      exact ⟨how, n, Nat.lt_succ_of_lt hlt, hd⟩
    cases hs : steps[m]? with
    | none =>
      rw [storagesBefore_succ_none hs] at hi
      exact earlier hi
    | some s =>
      rw [storagesBefore_succ hs] at hi
      by_cases hold : i < (storagesBefore steps m).length
      · exact earlier hold
      · have hle := length_step_le (storagesBefore steps m) s
        obtain rfl : i = (storagesBefore steps m).length := by omega
        have hans := getElem?_results_of_step hs
        obtain ⟨how, k, events, rfl, -, hcreated⟩ | ⟨j, p, rfl, hj, hcreated⟩ := creation_cases hi
        · rw [hcreated] at hans
          exact ⟨how, m, Nat.lt_succ_self m, .opened hs (by rw [getElem?_answers, hans]; rfl)⟩
        · rw [hcreated] at hans
          obtain ⟨how, n, hlt, hd⟩ := ih (List.getElem?_eq_some_iff.1 hj).1
          exact ⟨how, m, Nat.lt_succ_self m,
            .copied hd hlt hs (by rw [getElem?_answers, hans]; rfl)⟩

theorem level_of_openHandle {events : List Event} (ho : openHandle how = .ok (h, events)) :
    ∀ e ∈ events, e.level ≠ .warn := by
  have opened (c : Config) : ∀ e ∈ (Storage.openConfig c).2, e.level ≠ .warn := by
    intro e he
    rw [List.mem_singleton.1 he]
    exact nofun
  cases how with
  | memory =>
    cases ho
    exact nofun
  | file p =>
    cases ho
    exact nofun
  | config c =>
    cases ho
    exact opened c
  | toml text =>
    simp only [openHandle] at ho
    split at ho
    · cases ho
    · rename_i c _
      cases ho
      exact opened c

-- The step that gives a storage its number does not warn.
theorem level_of_opened {s : Step} (hs : steps[n]? = some s)
    (ha : (answers steps)[n]? = some (.opened i)) :
    ∃ r, (results steps)[n]? = some r ∧ ∀ e ∈ r.2, e.level ≠ .warn := by
  refine ⟨_, getElem?_results_of_step hs, ?_⟩
  obtain ⟨how, k, events, rfl, ho, hcreated⟩ | ⟨j, p, rfl, -, hcreated⟩ :=
    creation_cases (created_of_opened (answer_of_getElem? hs ha))
  · rw [hcreated]
    exact level_of_openHandle ho
  · rw [hcreated]
    exact nofun

theorem Descends.level_of_opening (hd : Descends steps how n i) :
    ∃ r, (results steps)[n]? = some r ∧ ∀ e ∈ r.2, e.level ≠ .warn := by
  cases hd with
  | opened hs ha => exact level_of_opened hs ha
  | copied _ _ hs ha => exact level_of_opened hs ha

theorem IsOf.exists_memory (ho : IsOf how c h) (hc : c.backend.status = .ready) :
    ∃ m, h = ⟨how.isConcrete, .memory m⟩ := by
  obtain ⟨b, s⟩ := h
  obtain rfl : b = how.isConcrete := ho.isConcrete
  cases s with
  | memory m => exact ⟨m, rfl⟩
  | file p =>
    have hk : Backend.file = c.backend := ho.kind
    rw [← hk] at hc
    cases hc

theorem IsOf.eq_file (ho : IsOf how c h) (hc : c.backend.status = .unimplemented) :
    h = ⟨how.isConcrete, .file c.basePath⟩ := by
  have hfile : c.backend = .file := by
    cases hk : c.backend with
    | memory =>
      rw [hk] at hc
      cases hc
    | file => rfl
  obtain ⟨b, s⟩ := h
  obtain rfl : b = how.isConcrete := ho.isConcrete
  obtain rfl : s = .file c.basePath := ho.file hfile
  rfl

-- A memory storage has nothing to warn of.
theorem level_of_memory (b : Bool) (m : Memory) (next : Nat) (what : Action) :
    ∀ e ∈ (Handle.act ⟨b, .memory m⟩ next what).events, e.level ≠ .warn := by
  intro e he
  cases what with
  | save u =>
    rw [List.mem_singleton.1 he]
    intro h
    cases h
  | remove email =>
    cases b with
    | false => cases he
    | true =>
      simp only [Handle.act] at he
      split at he
      · rw [List.mem_singleton.1 he]
        intro h
        cases h
      · cases he
  | _ => cases b <;> cases he

theorem status_eq (s : Storage) : s.status = s.kind.status := by
  cases s <;> rfl

-- What can be seen of an action from outside.
def Outcome.seen (o : Outcome) : Answer × List Event := (o.answer, o.events)

theorem seen_info (h : Handle) (n : Nat) :
    (Handle.act h n .info).seen =
      (.info h.storage.kind.name h.storage.kind h.storage.kind.status, []) := by
  simp only [Outcome.seen, Handle.act, Storage.name, status_eq]

theorem IsOf.reports (ho : IsOf how c h) :
    h.storage.name = c.backend.name ∧ h.storage.kind = c.backend ∧
      h.storage.status = c.backend.status := by
  refine ⟨?_, ho.kind, ?_⟩
  · rw [Storage.name, ho.kind]
  · rw [status_eq, ho.kind]

-- What a step on a storage comes to, told from the storage that the step finds.
theorem result_of_isOf {what : Action} (hi : (storagesBefore steps m)[i]? = some h)
    (hs : steps[m]? = some (.act i what)) :
    ∃ next, (results steps)[m]? =
      some ((Handle.act h next what).answer, (Handle.act h next what).events) :=
  ⟨(storagesBefore steps m).length, by rw [getElem?_results_of_step hs, step_act_some what hi]⟩

-- The load finds the storage as the save has left it.
theorem answer_load_of_save {b : Bool} {mem : Memory} {u : User}
    (hi : (storagesBefore steps m)[i]? = some ⟨b, .memory mem⟩)
    (hsave : steps[m]? = some (.act i (.save u)))
    (hload : steps[m + 1]? = some (.act i (.load u.email))) :
    (answers steps)[m + 1]? = some (.user (some u)) := by
  have hstored : (storagesBefore steps (m + 1))[i]? = some ⟨b, .memory (mem.save u)⟩ := by
    rw [storagesBefore_succ hsave, getElem?_step hi]
    simp only [history, List.filterMap_cons, if_pos, List.filterMap_nil]
    rfl
  rw [getElem?_answers, getElem?_results_of_step hload, step_act_some _ hstored]
  exact congrArg (fun r => some (Answer.user r)) (mem.load_save_self u)

theorem status_truthful (steps : List Step) :
    (∀ i, i < (run [] steps).1.length → ∃ how n, Descends steps how n i) ∧
      ∀ how n i, Descends steps how n i →
        ∃ c, how.config? = some c ∧ Truthful steps how n i c := by
  refine ⟨?_, ?_⟩
  · intro i hi
    have hall : storagesBefore steps steps.length = (run [] steps).1 := by
      rw [storagesBefore, List.take_length]
    obtain ⟨how, n, -, hd⟩ := exists_descends steps steps.length (i := i) (by rwa [hall])
    exact ⟨how, n, hd⟩
  · intro how n i hd
    obtain ⟨c, hc, hat⟩ := hd.exists_isOf
    refine ⟨c, hc, ⟨?info, hd.level_of_opening, ?quiet, ?kept, ?absent, ?dropped, ?stays,
      ?basePath, ?copied⟩⟩
    case info =>
      intro m hlt hs
      obtain ⟨h, hi, ho⟩ := hat m hlt
      obtain ⟨next, hres⟩ := result_of_isOf hi hs
      obtain ⟨hname, hkind, hstatus⟩ := ho.reports
      rw [getElem?_answers, hres, ← hname, ← hstatus, ← hkind]
      rfl
    case quiet =>
      intro hready m what hlt hs
      obtain ⟨h, hi, ho⟩ := hat m hlt
      obtain ⟨mem, rfl⟩ := ho.exists_memory hready
      obtain ⟨next, hres⟩ := result_of_isOf hi hs
      exact ⟨_, hres, level_of_memory how.isConcrete mem next what⟩
    case kept =>
      intro hready m u hlt hsave hload
      obtain ⟨h, hi, ho⟩ := hat m hlt
      obtain ⟨mem, rfl⟩ := ho.exists_memory hready
      exact answer_load_of_save hi hsave hload
    case absent =>
      intro hun m email hlt hs
      obtain ⟨h, hi, ho⟩ := hat m hlt
      obtain rfl := ho.eq_file hun
      obtain ⟨next, hres⟩ := result_of_isOf hi hs
      rw [getElem?_answers, hres]
      rfl
    case dropped =>
      intro hun m u hlt hs
      obtain ⟨h, hi, ho⟩ := hat m hlt
      obtain rfl := ho.eq_file hun
      obtain ⟨next, hres⟩ := result_of_isOf hi hs
      exact ⟨.dropped u.email c.basePath, hres, rfl, rfl⟩
    case stays =>
      intro hun m hlt
      obtain ⟨h, hi, ho⟩ := hat m hlt
      rw [hi, ho.eq_file hun]
    case basePath =>
      intro hun m hlt hs
      obtain ⟨h, hi, ho⟩ := hat m hlt
      obtain rfl := ho.eq_file hun
      obtain ⟨next, hres⟩ := result_of_isOf hi hs
      rw [getElem?_answers, hres]
      cases how.isConcrete <;> rfl
    case copied =>
      intro hun hconcrete m hlt hs
      obtain ⟨h, hi, ho⟩ := hat m hlt
      obtain rfl := ho.eq_file hun
      obtain ⟨next, hres⟩ := result_of_isOf hi hs
      have hans : (answers steps)[m]? = some (.opened next) := by
        rw [getElem?_answers, hres, hconcrete]
        rfl
      exact ⟨next, hans, hd.copied hlt hs hans⟩

end Session
end Roster
