import Roster.Config.Toml
import Roster.Storage

-- Sessions: any number of storages, opened and used step by step. Each step has an answer and
-- reports events. The storages are numbered in the order in which they were opened.

namespace Roster

-- A storage that is known by its own type can do what only that type can. One that was opened
-- by a config is known as a storage only.
structure Handle where
  isConcrete : Bool
  storage : Storage

namespace Session

inductive Opening
  | memory
  | file (basePath : Bytes)
  | config (c : Config)
  | toml (text : String)
deriving DecidableEq, Repr

inductive Action
  | save (u : User)
  | load (email : String)
  | remove (email : String)
  | size
  | basePath
  | copy
  | info
deriving DecidableEq, Repr

inductive Step
  | opening (how : Opening)
  | act (on : Nat) (what : Action)
deriving DecidableEq, Repr

inductive Answer
  | opened (number : Nat)
  | refused (e : StorageError)
  | saved
  | user (u : Option User)
  | size (n : Nat) (isEmpty : Bool)
  | path (p : Bytes)
  | info (name : String) (kind : Backend) (status : Status)
  | notApplicable
  | noSuchStorage
deriving DecidableEq, Repr

def openHandle : Opening → Except StorageError (Handle × List Event)
  | .memory => .ok (⟨true, .memory .empty⟩, [])
  | .file basePath => .ok (⟨true, .file basePath⟩, [])
  | .config c => .ok (⟨false, (Storage.openConfig c).1⟩, (Storage.openConfig c).2)
  | .toml text =>
    match Config.ofToml text with
    | .error r => .error r.error
    | .ok c => .ok (⟨false, (Storage.openConfig c).1⟩, (Storage.openConfig c).2)

-- What an action comes to: the storage afterwards, a copy where one was made, the answer and
-- the events. The number is the one that a copy would get.
structure Outcome where
  storage : Storage
  copy : Option Handle := none
  answer : Answer
  events : List Event := []

def Handle.act (h : Handle) (next : Nat) : Action → Outcome
  | .save u =>
    let (s, events) := h.storage.save u
    { storage := s, answer := .saved, events }
  | .load email =>
    let (u, events) := h.storage.load email
    { storage := h.storage, answer := .user u, events }
  | .remove email =>
    match h.isConcrete, h.storage with
    | true, .memory m =>
      let u := m.load email
      { storage := .memory (m.remove email), answer := .user u
        events := if u.isSome then [.removed email] else [] }
    | _, s => { storage := s, answer := .notApplicable }
  | .size =>
    match h.isConcrete, h.storage with
    | true, .memory m => { storage := h.storage, answer := .size m.size (m.size = 0) }
    | _, s => { storage := s, answer := .notApplicable }
  | .basePath =>
    match h.isConcrete, h.storage with
    | true, .file p => { storage := h.storage, answer := .path p }
    | _, s => { storage := s, answer := .notApplicable }
  | .copy =>
    match h.isConcrete, h.storage with
    | true, .file p =>
      { storage := h.storage, copy := some ⟨true, .file p⟩, answer := .opened next }
    | _, s => { storage := s, answer := .notApplicable }
  | .info =>
    let s := h.storage
    { storage := s, answer := .info s.name s.kind s.status }

def step (handles : List Handle) : Step → List Handle × Answer × List Event
  | .opening how =>
    match openHandle how with
    | .error e => (handles, .refused e, [])
    | .ok (h, events) => (handles ++ [h], .opened handles.length, events)
  | .act on what =>
    match handles[on]? with
    | none => (handles, .noSuchStorage, [])
    | some h =>
      let o := Handle.act h handles.length what
      (handles.set on ⟨h.isConcrete, o.storage⟩ ++ o.copy.toList, o.answer, o.events)

-- The storages after a run of steps, and what each step came to.
def run (handles : List Handle) : List Step → List Handle × List (Answer × List Event)
  | [] => (handles, [])
  | s :: rest =>
    let (handles, result) := step handles s
    let (final, results) := run handles rest
    (final, result :: results)

end Session
end Roster
