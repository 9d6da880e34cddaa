import Mathlib.Data.Finset.Card
import Roster.Proofs.Ordered
import Roster.Proofs.Session.History

namespace Roster

namespace Memory

def emails (m : Memory) : Finset String := (m.users.map User.email).toFinset

theorem mem_emails_iff {m : Memory} {email : String} :
    email ∈ m.emails ↔ (m.load email).isSome := by
  rw [emails, List.mem_toFinset, load, Ordered.isSome_find?_iff]

theorem card_emails (m : Memory) : m.emails.card = m.size := by
  rw [emails, List.toFinset_card_of_nodup (Ordered.nodup_keys User.email m.sorted),
    List.length_map, size]

-- What is kept under each email is all that there is to a memory.
theorem eq_of_load_eq {m m' : Memory} (h : ∀ email, m.load email = m'.load email) :
    m = m' := by
  have husers : m.users = m'.users := Ordered.eq_of_find?_eq m.sorted m'.sorted h
  obtain ⟨users, hs⟩ := m
  obtain ⟨users', hs'⟩ := m'
  subst husers
  rfl

-- Removing nobody changes nothing.
theorem remove_of_load_eq_none {m : Memory} {email : String} (h : m.load email = none) :
    m.remove email = m := by
  apply eq_of_load_eq
  intro other
  rw [load_remove]
  by_cases ho : other = email
  · rw [if_pos ho, ho, h]
  · rw [if_neg ho]

end Memory

namespace Session

-- A save or a removal of exactly this email.
def concerns (email : String) : Action → Bool
  | .save u => u.email = email
  | .remove e => e = email
  | _ => false

def saved? : Action → Option User
  | .save u => some u
  | _ => none

-- The user of the last save of an email, if no removal of the email follows.
def kept (email : String) (past : List Action) : Option User :=
  (past.reverse.find? (concerns email)).bind saved?

-- The emails whose last save or removal is a save.
def liveEmails (past : List Action) : Finset String :=
  ((past.filterMap saved?).map User.email).toFinset.filter fun email => (kept email past).isSome

-- What a memory storage with this history answers. It has no path, and no copies are made of it.
def answerAfter (past : List Action) : Action → Answer
  | .save _ => .saved
  | .load email | .remove email => .user (kept email past)
  | .size => .size (liveEmails past).card ((liveEmails past).card = 0)
  | .basePath | .copy => .notApplicable
  | .info => .info "memory" .memory .ready

theorem kept_append (email : String) (past : List Action) (a : Action) :
    kept email (past ++ [a]) = if concerns email a then saved? a else kept email past := by
  unfold kept
  rw [List.reverse_append, List.reverse_singleton, List.singleton_append, List.find?_cons]
  cases concerns email a <;> rfl

theorem kept_eq_some_iff {email : String} {past : List Action} {u : User} :
    kept email past = some u ↔ ∃ front behind, past = front ++ .save u :: behind ∧
      u.email = email ∧ ∀ a ∈ behind, concerns email a = false := by
  induction past using List.reverseRecOn with
  | nil => simp [kept]
  | append_singleton past a ih =>
    rw [kept_append]
    constructor
    · intro h
      split at h
      · rename_i hc
        cases a with
        | save v =>
          cases h
          exact ⟨past, [], rfl, by simpa [concerns] using hc, by simp⟩
        | _ => cases h
      · rename_i hc
        obtain ⟨front, behind, rfl, he, hb⟩ := ih.1 h
        refine ⟨front, behind ++ [a], by simp, he, fun b hm => ?_⟩
        rcases List.mem_append.1 hm with hm | hm
        · exact hb b hm
        · exact List.mem_singleton.1 hm ▸ Bool.eq_false_of_not_eq_true hc
    · rintro ⟨front, behind, hp, he, hb⟩
      rcases List.eq_nil_or_concat behind with rfl | ⟨behind, b, rfl⟩
      · obtain ⟨-, ha⟩ := List.append_inj' hp rfl
        obtain rfl := List.singleton_inj.1 ha
        simp [concerns, he, saved?]
      · rw [List.concat_eq_append] at hp hb
        have hp' : past ++ [a] = (front ++ .save u :: behind) ++ [b] := by simpa using hp
        obtain ⟨rfl, hab⟩ := List.append_inj' hp' rfl
        have hc : concerns email a = false := hb a (by simp [List.singleton_inj.1 hab])
        rw [hc]
        exact ih.2 ⟨front, behind, rfl, he, fun c hm => hb c (List.mem_append_left _ hm)⟩

theorem mem_liveEmails_iff {email : String} {past : List Action} :
    email ∈ liveEmails past ↔ (kept email past).isSome := by
  simp only [liveEmails, Finset.mem_filter, List.mem_toFinset, List.mem_map, List.mem_filterMap,
    and_iff_right_iff_imp]
  intro h
  obtain ⟨u, hu⟩ := Option.isSome_iff_exists.1 h
  obtain ⟨front, behind, rfl, he, -⟩ := kept_eq_some_iff.1 hu
  exact ⟨u, ⟨.save u, by simp, rfl⟩, he⟩

-- What a memory holds is what its history says.
def Matches (m : Memory) (past : List Action) : Prop := ∀ email, m.load email = kept email past

def memoryAfter (m : Memory) : Action → Memory
  | .save u => m.save u
  | .remove email => m.remove email
  | _ => m

theorem advance_memory (m : Memory) (a : Action) :
    advance ⟨true, .memory m⟩ a = ⟨true, .memory (memoryAfter m a)⟩ := by
  cases a <;> rfl

theorem Matches.step {m : Memory} {past : List Action} (h : Matches m past) (a : Action) :
    Matches (memoryAfter m a) (past ++ [a]) := by
  intro email
  rw [kept_append, ← h email]
  cases a with
  | save u => simp [memoryAfter, Memory.load_save, concerns, saved?]
  | remove e => simp [memoryAfter, Memory.load_remove, concerns, saved?, eq_comm]
  | _ => rfl

theorem Matches.run {m : Memory} {past : List Action} (h : Matches m past) (more : List Action) :
    ∃ m', advanceAll ⟨true, .memory m⟩ more = ⟨true, .memory m'⟩ ∧ Matches m' (past ++ more) := by
  induction more generalizing m past with
  | nil => exact ⟨m, rfl, by simpa using h⟩
  | cons a more ih =>
    obtain ⟨m', ha, hm⟩ := ih (h.step a)
    exact ⟨m', by rw [advanceAll_cons, advance_memory, ha], by simpa using hm⟩

theorem Matches.liveEmails_eq {m : Memory} {past : List Action} (h : Matches m past) :
    liveEmails past = m.emails := by
  ext email
  rw [mem_liveEmails_iff, Memory.mem_emails_iff, h email]

theorem Matches.size_eq {m : Memory} {past : List Action} (h : Matches m past) :
    m.size = (liveEmails past).card := by
  rw [h.liveEmails_eq, m.card_emails]

theorem Matches.answer {m : Memory} {past : List Action} (h : Matches m past) (next : Nat)
    (what : Action) :
    (Handle.act ⟨true, .memory m⟩ next what).answer = answerAfter past what := by
  cases what with
  | load email | remove email => exact congrArg Answer.user (h email)
  | size => exact congrArg (fun n => Answer.size n (decide (n = 0))) h.size_eq
  | _ => rfl

theorem opening_eq_memory {how : Opening} {k : Handle} {events : List Event}
    (ho : openHandle how = .ok (k, events)) (hc : k.isConcrete = true)
    (hk : k.storage.kind = .memory) : how = .memory ∧ k = ⟨true, .memory .empty⟩ := by
  cases how with
  | memory => cases ho; exact ⟨rfl, rfl⟩
  | file p => cases ho; cases hk
  | config c => cases ho; cases hc
  | toml text =>
    simp only [openHandle] at ho
    split at ho
    · cases ho
    · cases ho; cases hc

-- Where a memory storage of a run comes from: it was opened as one, with nobody in it.
theorem exists_opening_memory {steps : List Step} {i : Nat} {m : Memory}
    (h : (run [] steps).1[i]? = some ⟨true, .memory m⟩) :
    ∃ before after, steps = before ++ .opening .memory :: after ∧
      (run [] before).1.length = i := by
  obtain ⟨before, s, after, k, events, rfl, hi, -, hk, ho⟩ := exists_opening h
  have hc := congrArg Handle.isConcrete hk
  have hm := congrArg (fun h => h.storage.kind) hk
  simp only [advanceAll_isConcrete, advanceAll_kind] at hc hm
  rcases ho with ⟨how, rfl, ho⟩ | ⟨j, p, -, -, rfl, -⟩
  · obtain ⟨rfl, -⟩ := opening_eq_memory ho hc.symm hm.symm
    exact ⟨before, after, rfl, hi⟩
  · cases hm

theorem memory_answers (steps : List Step) (i : Nat) (m : Memory)
    (h : (run [] steps).1[i]? = some ⟨true, .memory m⟩) :
    ∃ before after, steps = before ++ .opening .memory :: after ∧
      (answers steps)[before.length]? = some (.opened i) ∧
      ∀ front what rest, after = front ++ .act i what :: rest →
        (answers steps)[before.length + 1 + front.length]? =
          some (answerAfter (history i front) what) := by
  obtain ⟨before, after, rfl, rfl⟩ := exists_opening_memory h
  refine ⟨before, after, rfl, ?_, ?_⟩
  · rw [answers, List.getElem?_map, getElem?_results]
    rfl
  · rintro front what rest rfl
    have hsplit :
        before ++ .opening .memory :: (front ++ .act (run [] before).1.length what :: rest) =
        (before ++ .opening .memory :: front) ++ .act (run [] before).1.length what :: rest := by
      simp
    have hlen : before.length + 1 + front.length =
        (before ++ Step.opening .memory :: front).length := by
      simp only [List.length_append, List.length_cons]
      omega
    have hempty : Matches .empty [] := fun _ => rfl
    obtain ⟨m', hm', hmatch⟩ := hempty.run (history (run [] before).1.length front)
    have hget : (run [] (before ++ Step.opening .memory :: front)).1[(run [] before).1.length]? =
        some ⟨true, .memory m'⟩ := by
      rw [run_append, run_cons, ← hm']
      exact getElem?_run List.getElem?_concat_length front
    rw [answers, List.getElem?_map, hsplit, hlen, getElem?_results, step_act_some what hget]
    exact congrArg some (hmatch.answer _ what)

-- Two storages in turns, with an email that is in both of them.
def twoMemories : List Step :=
  [.opening .memory, .opening .memory, .act 1 (.save ⟨"Ann", "a", 3⟩),
    .act 0 (.save ⟨"Bob", "a", 4⟩), .act 1 (.remove "A"), .act 1 .size]

theorem memory_answers_twoMemories :
    (run [] twoMemories).1[1]? =
        some ⟨true, .memory ((Memory.empty.save ⟨"Ann", "a", 3⟩).remove "A")⟩ ∧
      ∃ before after, twoMemories = before ++ .opening .memory :: after ∧
        (answers twoMemories)[before.length]? = some (.opened 1) ∧
        ∀ front what rest, after = front ++ .act 1 what :: rest →
          (answers twoMemories)[before.length + 1 + front.length]? =
            some (answerAfter (history 1 front) what) :=
  ⟨rfl, memory_answers twoMemories 1 _ rfl⟩

end Session
end Roster
