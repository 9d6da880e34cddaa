import Roster.Proofs.Session.Memory
import Roster.Proofs.Session.Status

namespace Roster

namespace Memory

theorem emails_save (m : Memory) (u : User) : (m.save u).emails = insert u.email m.emails := by
  ext email
  rw [Finset.mem_insert, mem_emails_iff, mem_emails_iff, load_save]
  by_cases h : u.email = email
  · simp [h]
  · simp [h, Ne.symm h]

theorem emails_remove (m : Memory) (email : String) :
    (m.remove email).emails = m.emails.erase email := by
  ext other
  rw [Finset.mem_erase, mem_emails_iff, mem_emails_iff, load_remove]
  by_cases h : other = email <;> simp [h]

end Memory

namespace Session

-- The words around an email in a message.
def storedWords : List Char := "user已保存到内存存储: email=".toList
def removedWords : List Char := "user已从内存存储删除: email=".toList
def flagWords (replaced : Bool) : List Char := (", replaced=" ++ toString replaced).toList

-- Reads a message. An email may hold any words, those around it included, so the words in front are
-- looked for at the start of the text only and the flag at its end only.
def readMessage (text : String) : Option Event :=
  match text.toList.dropPrefix? storedWords with
  | some rest =>
    [true, false].findSome? fun replaced =>
      (rest.dropSuffix? (flagWords replaced)).map fun email => .stored (String.ofList email) replaced
  | none =>
    (text.toList.dropPrefix? removedWords).map fun email => .removed (String.ofList email)

def replayMessage (live : Finset String) (text : String) : Finset String :=
  match readMessage text with
  | some (.stored email _) => insert email live
  | some (.removed email) => live.erase email
  | _ => live

-- The emails that are live if these messages tell all that has happened.
def replay (texts : List String) : Finset String := texts.foldl replayMessage ∅

def isFirstSave (text : String) : Bool :=
  match readMessage text with
  | some (.stored _ replaced) => !replaced
  | _ => false

def isRemoval (text : String) : Bool :=
  match readMessage text with
  | some (.removed _) => true
  | _ => false

def Step.on? : Step → Option Nat
  | .opening _ => none
  | .act i _ => some i

-- What the steps of a run on one storage have reported, as text.
def messages (i : Nat) (steps : List Step) : List String :=
  ((steps.zip (results steps)).filter fun r => r.1.on? = some i).flatMap fun r =>
    r.2.2.map Event.message

-- An email under which storage `i` finds a user.
def Live (hs : List Handle) (i : Nat) (email : String) : Prop :=
  ∃ u, (step hs (.act i (.load email))).2.1 = .user (some u)

-- What the next step on storage `i` answers and reports, against the messages so far.
structure Journal (hs : List Handle) (i : Nat) (texts : List String) : Prop where
  save : ∀ u, ∃ replaced, (step hs (.act i (.save u))).2 = (.saved, [.stored u.email replaced]) ∧
    (replaced = true ↔ Live hs i u.email)
  remove : ∀ email, ∃ u, (step hs (.act i (.remove email))).2 =
    (.user u, if u.isSome then [.removed email] else [])
  load : ∀ email, ∃ u, (step hs (.act i (.load email))).2 = (.user u, [])
  info : (step hs (.act i .info)).2.2 = []
  size : ∃ n, (step hs (.act i .size)).2 = (.size n (n = 0), []) ∧
    texts.countP isRemoval + n = texts.countP isFirstSave
  live : ∀ email, email ∈ replay texts ↔ Live hs i email

theorem toList_message_stored (email : String) (replaced : Bool) :
    (Event.stored email replaced).message.toList =
      storedWords ++ (email.toList ++ flagWords replaced) := by
  have split (a b c d : String) :
      (a ++ b ++ c ++ d).toList = a.toList ++ (b.toList ++ (c ++ d).toList) := by simp
  exact split "user已保存到内存存储: email=" email ", replaced=" (toString replaced)

theorem toList_message_removed (email : String) :
    (Event.removed email).message.toList = removedWords ++ email.toList := by
  have split (a b : String) : (a ++ b).toList = a.toList ++ b.toList := by simp
  exact split "user已从内存存储删除: email=" email

theorem dropSuffix?_flagWords (email : List Char) (replaced : Bool) :
    (email ++ flagWords replaced).dropSuffix? (flagWords replaced) = some email := by
  simp [List.dropSuffix?_eq_some_iff]

-- The two flags end in different letters.
theorem dropSuffix?_otherFlag (email : List Char) :
    (email ++ flagWords false).dropSuffix? (flagWords true) = none := by
  rw [Option.eq_none_iff_forall_ne_some]
  intro front hfront
  obtain ⟨words, happend, hwords⟩ := List.dropSuffix?_eq_some_iff.1 hfront
  rw [eq_of_beq hwords] at happend
  have hreverse := congrArg List.reverse happend
  have htrue : toString true = "true" := rfl
  have hfalse : toString false = "false" := rfl
  simp [flagWords, htrue, hfalse] at hreverse

theorem dropPrefix?_storedWords (rest : List Char) :
    (storedWords ++ rest).dropPrefix? storedWords = some rest :=
  List.dropPrefix?_append_of_beq rest (beq_self_eq_true storedWords)

-- The two kinds of message differ before the email comes.
theorem dropPrefix?_otherWords (rest : List Char) :
    (removedWords ++ rest).dropPrefix? storedWords = none := by
  rw [Option.eq_none_iff_forall_ne_some]
  intro behind hbehind
  obtain ⟨words, happend, hwords⟩ := List.dropPrefix?_eq_some_iff.1 hbehind
  rw [eq_of_beq hwords] at happend
  have hsixth := congrArg (fun text : List Char => text[5]?) happend
  have hremoved : (removedWords ++ rest)[5]? = removedWords[5]? :=
    List.getElem?_append_left (by decide)
  have hstored : (storedWords ++ behind)[5]? = storedWords[5]? :=
    List.getElem?_append_left (by decide)
  have hdiffer : removedWords[5]? ≠ storedWords[5]? := by decide
  exact hdiffer (hremoved.symm.trans (hsixth.trans hstored))

theorem readMessage_stored (email : String) (replaced : Bool) :
    readMessage (Event.stored email replaced).message = some (.stored email replaced) := by
  rw [readMessage, toList_message_stored, dropPrefix?_storedWords]
  cases replaced with
  | true => simp [dropSuffix?_flagWords]
  | false => simp [dropSuffix?_flagWords, dropSuffix?_otherFlag]

example : readMessage "user已保存到内存存储: email=a, replaced=true, replaced=false" =
    some (.stored "a, replaced=true" false) := by
  decide

theorem readMessage_removed (email : String) :
    readMessage (Event.removed email).message = some (.removed email) := by
  have hprefix : (removedWords ++ email.toList).dropPrefix? removedWords = some email.toList :=
    List.dropPrefix?_append_of_beq _ (beq_self_eq_true removedWords)
  rw [readMessage, toList_message_removed, dropPrefix?_otherWords, hprefix]
  simp

@[simp] theorem replayMessage_stored (live : Finset String) (email : String) (replaced : Bool) :
    replayMessage live (Event.stored email replaced).message = insert email live := by
  rw [replayMessage, readMessage_stored]

@[simp] theorem replayMessage_removed (live : Finset String) (email : String) :
    replayMessage live (Event.removed email).message = live.erase email := by
  rw [replayMessage, readMessage_removed]

@[simp] theorem isFirstSave_stored (email : String) (replaced : Bool) :
    isFirstSave (Event.stored email replaced).message = !replaced := by
  rw [isFirstSave, readMessage_stored]

@[simp] theorem isFirstSave_removed (email : String) :
    isFirstSave (Event.removed email).message = false := by
  rw [isFirstSave, readMessage_removed]

@[simp] theorem isRemoval_stored (email : String) (replaced : Bool) :
    isRemoval (Event.stored email replaced).message = false := by
  rw [isRemoval, readMessage_stored]

@[simp] theorem isRemoval_removed (email : String) :
    isRemoval (Event.removed email).message = true := by
  rw [isRemoval, readMessage_removed]

@[simp] theorem replay_concat (texts : List String) (text : String) :
    replay (texts ++ [text]) = replayMessage (replay texts) text := by
  rw [replay, List.foldl_append, ← replay]
  rfl

-- What a memory storage reports of an action.
def reports (m : Memory) : Action → List Event
  | .save u => [.stored u.email (m.load u.email).isSome]
  | .remove email => if (m.load email).isSome then [.removed email] else []
  | _ => []

theorem events_memory (m : Memory) (next : Nat) (what : Action) :
    (Handle.act ⟨true, .memory m⟩ next what).events = reports m what := by
  cases what <;> rfl

-- The messages tell which emails a memory has and how many they are.
structure Tells (texts : List String) (m : Memory) : Prop where
  live : replay texts = m.emails
  balance : texts.countP isRemoval + m.size = texts.countP isFirstSave

theorem tells_empty : Tells [] .empty where
  live := rfl
  balance := rfl

variable {texts : List String} {m : Memory}

theorem Tells.save (ht : Tells texts m) (u : User) :
    Tells (texts ++ (reports m (.save u)).map Event.message) (m.save u) where
  live := by simp [reports, ht.live, Memory.emails_save]
  balance := by
    have hbalance := ht.balance
    have hsize : (m.save u).size = (insert u.email m.emails).card := by
      rw [← Memory.card_emails, Memory.emails_save]
    by_cases hlive : u.email ∈ m.emails
    · have hsome : (m.load u.email).isSome = true := Memory.mem_emails_iff.1 hlive
      rw [Finset.insert_eq_of_mem hlive, Memory.card_emails] at hsize
      simp [reports, hsome, hsize, hbalance]
    · have hnone : (m.load u.email).isSome = false := by
        simpa using mt Memory.mem_emails_iff.2 hlive
      rw [Finset.card_insert_of_notMem hlive, Memory.card_emails] at hsize
      simp [reports, hnone, hsize]
      omega

theorem Tells.remove (ht : Tells texts m) (email : String) :
    Tells (texts ++ (reports m (.remove email)).map Event.message) (m.remove email) := by
  have hbalance := ht.balance
  have hsize : (m.remove email).size = (m.emails.erase email).card := by
    rw [← Memory.card_emails, Memory.emails_remove]
  by_cases hlive : email ∈ m.emails
  · have hsome : (m.load email).isSome = true := Memory.mem_emails_iff.1 hlive
    have hpos : 0 < m.size := by
      rw [← Memory.card_emails]
      exact Finset.card_pos.2 ⟨email, hlive⟩
    rw [Finset.card_erase_of_mem hlive, Memory.card_emails] at hsize
    constructor
    · simp [reports, hsome, ht.live, Memory.emails_remove]
    · simp [reports, hsome, hsize]
      omega
  · have hnone : (m.load email).isSome = false := by simpa using mt Memory.mem_emails_iff.2 hlive
    rw [Finset.erase_eq_of_notMem hlive, Memory.card_emails] at hsize
    constructor
    · simp [reports, hnone, ht.live, Memory.emails_remove, Finset.erase_eq_of_notMem hlive]
    · simp [reports, hnone, hsize, hbalance]

theorem Tells.step (ht : Tells texts m) (what : Action) :
    Tells (texts ++ (reports m what).map Event.message) (memoryAfter m what) := by
  cases what with
  | save u => exact ht.save u
  | remove email => exact ht.remove email
  | _ => simpa [reports, memoryAfter] using ht

theorem messages_concat (i : Nat) (steps : List Step) (s : Step) :
    messages i (steps ++ [s]) = messages i steps ++
      if s.on? = some i then (step (run [] steps).1 s).2.2.map Event.message else [] := by
  have hresults : results (steps ++ [s]) = results steps ++ [(step (run [] steps).1 s).2] := by
    rw [results, run_concat]
    rfl
  have hlength : steps.length = (results steps).length := (length_results [] steps).symm
  rw [messages, hresults, List.zip_append hlength, List.filter_append, List.flatMap_append]
  apply congrArg (messages i steps ++ ·)
  by_cases hon : s.on? = some i <;> simp [hon]

-- Nothing is reported of a storage that is not there yet.
theorem messages_eq_nil {i : Nat} {steps : List Step} (h : (run [] steps).1.length ≤ i) :
    messages i steps = [] := by
  induction steps using List.reverseRecOn with
  | nil => rfl
  | append_singleton steps s ih =>
    rw [run_concat] at h
    have hle := Nat.le_trans (length_le_length_step (run [] steps).1 s) h
    rw [messages_concat, ih hle]
    by_cases hon : s.on? = some i
    · cases s with
      | opening how => cases hon
      | act j what =>
        obtain rfl : j = i := Option.some.inj hon
        rw [step_act_none what (List.getElem?_eq_none hle)]
        simp
    · simp [hon]

-- Wherever a run has come to, the storage is there and its messages tell what is in it.
theorem exists_tells (before after : List Step) :
    ∃ m, (run [] (before ++ .opening .memory :: after)).1[(run [] before).1.length]? =
        some ⟨true, .memory m⟩ ∧
      Tells (messages (run [] before).1.length (before ++ .opening .memory :: after)) m := by
  induction after using List.reverseRecOn with
  | nil =>
    refine ⟨.empty, ?_, ?_⟩
    · rw [run_concat, step_opening_ok _ rfl]
      exact List.getElem?_concat_length
    · rw [messages_concat, messages_eq_nil (Nat.le_refl _)]
      exact tells_empty
  | append_singleton after s ih =>
    obtain ⟨m, hm, ht⟩ := ih
    have hsplit : before ++ Step.opening .memory :: (after ++ [s]) =
        (before ++ .opening .memory :: after) ++ [s] := by simp
    rw [hsplit, run_concat, messages_concat]
    by_cases hon : s.on? = some (run [] before).1.length
    · cases s with
      | opening how => cases hon
      | act j what =>
        obtain rfl : j = (run [] before).1.length := Option.some.inj hon
        refine ⟨memoryAfter m what, ?_, ?_⟩
        · rw [getElem?_step hm]
          simp [history, advance_memory]
        · rw [if_pos hon, step_act_some what hm, events_memory]
          exact ht.step what
    · have hother : history (run [] before).1.length [s] = [] := by
        cases s with
        | opening how => rfl
        | act j what =>
          have hj : j ≠ (run [] before).1.length := fun h => hon (congrArg some h)
          simp [history, hj]
      refine ⟨m, ?_, ?_⟩
      · rw [getElem?_step hm, hother]
        rfl
      · rw [if_neg hon, List.append_nil]
        exact ht

theorem live_iff {hs : List Handle} {i : Nat} {email : String}
    (hm : hs[i]? = some ⟨true, .memory m⟩) : Live hs i email ↔ (m.load email).isSome := by
  have hload : (step hs (.act i (.load email))).2.1 = .user (m.load email) := by
    rw [step_act_some _ hm]
    rfl
  rw [Live, hload, Option.isSome_iff_exists]
  simp

theorem journal_of_tells {hs : List Handle} {i : Nat} (hm : hs[i]? = some ⟨true, .memory m⟩)
    (ht : Tells texts m) : Journal hs i texts where
  save u := ⟨(m.load u.email).isSome, by rw [step_act_some _ hm]; rfl, (live_iff hm).symm⟩
  remove email := ⟨m.load email, by rw [step_act_some _ hm]; rfl⟩
  load email := ⟨m.load email, by rw [step_act_some _ hm]; rfl⟩
  info := by rw [step_act_some _ hm]; rfl
  size := ⟨m.size, by rw [step_act_some _ hm]; rfl, ht.balance⟩
  live email := by rw [ht.live, Memory.mem_emails_iff, live_iff hm]

-- The storage that is opened behind `before` gets the number of those that there were.
theorem journal_faithful :
    (∀ before after : List Step,
      Journal (run [] (before ++ .opening .memory :: after)).1 (run [] before).1.length
        (messages (run [] before).1.length (before ++ .opening .memory :: after))) ∧
    (∀ email replaced,
      readMessage (Event.stored email replaced).message = some (.stored email replaced)) ∧
    ∀ email, readMessage (Event.removed email).message = some (.removed email) := by
  refine ⟨?_, readMessage_stored, readMessage_removed⟩
  intro before after
  obtain ⟨m, hm, ht⟩ := exists_tells before after
  exact journal_of_tells hm ht

end Session
end Roster
