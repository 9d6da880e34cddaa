import Roster.CommandLine.Usage
import Roster.Storage
import Roster.Surroundings
import Roster.User.Json

-- A run of the program: from arguments, environment and files to what it prints and its exit code.

namespace Roster

structure Outcome where
  code : Nat
  stdout : String
  stderr : String
deriving DecidableEq, Repr

namespace Run

open CommandLine

-- The config that a run starts from, before flags override its fields.
def baseConfig (i : Invocation) (w : Surroundings) : Except StorageError Config :=
  match i.config with
  | some path => Config.ofFile w.file path
  | none => Config.ofEnvironment w.config

def override (i : Invocation) (c : Config) : Config :=
  ⟨i.backend.getD c.backend, i.basePath.getD c.basePath⟩

-- What a command prints, and the events on the way.
def perform (command : Command) (s : Storage) : String × List Event :=
  match command with
  | .demo u =>
    let (s, saved) := s.save u
    let (found, loaded) := s.load u.email
    ((found.map User.toJson).getD "absent" ++ "\n",
      saved ++ [.demoSaved s.kind] ++ loaded)
  | .info => (s.name ++ " (" ++ s.status.name ++ ")\n", [])

def carryOut (i : Invocation) (w : Surroundings) : Outcome :=
  match baseConfig i w with
  | .error e => ⟨1, "", Report.text e.message w.trace (w.libraries.calls i)⟩
  | .ok c =>
    let (s, opened) := Storage.openConfig (override i c)
    let (text, events) := perform i.command s
    ⟨0, text, Log.write (Log.ofVariable w.log) (opened ++ events)⟩

def interrupted (notes : List Char) : Interruption → Outcome
  | .usage e => ⟨2, "", e.report notes⟩
  | .help page => ⟨0, page.text, ""⟩
  | .version => ⟨0, versionText, ""⟩

end Run

def run (args : List Bytes) (w : Surroundings) : Outcome :=
  match CommandLine.parse args with
  | .error i => Run.interrupted (w.libraries.notes args) i
  | .ok i => Run.carryOut i w

end Roster
