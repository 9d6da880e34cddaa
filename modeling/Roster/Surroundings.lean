import Roster.CommandLine.Parse
import Roster.Config.Environment
import Roster.Config.File
import Roster.Log
import Roster.Report

-- What a run can see of the machine that it runs on. Nothing that it writes goes to a terminal.

namespace Roster

-- What the libraries that the program is built with say in words of their own: their notes on
-- arguments that are a mistake in the usage, and the calls that have led to the error of a config.
structure Libraries where
  notes : List Bytes → List Char := fun _ => []
  calls : CommandLine.Invocation → String := fun _ => ""

-- A variable as the system shows it, where it is set.
def shownVariable (name : String) (value : Option Bytes) : Bytes :=
  (value.map fun v => Bytes.ofString name ++ Bytes.ofString "=" ++ v ++ [0]).getD []

-- The file in which the system shows a process the environment that it was started with.
def environmentFile : Bytes := Bytes.ofString "/proc/self/environ"

-- Beside the variables that a run looks at there are others, such as the one that turns colours off.
-- Links and other spellings may lead to the file with the environment too.
structure Surroundings where
  config : Config.Environment := {}
  log : Option Bytes := none
  trace : Report.Environment := {}
  others : Bytes := shownVariable "NO_COLOR" (some (Bytes.ofString "1"))
  read : Config.FileReader
  showsEnvironment : Bytes → Bool := (· = environmentFile)
  libraries : Libraries := {}

namespace Surroundings

def environment (w : Surroundings) : Bytes :=
  w.others
    ++ shownVariable Config.backendVariable w.config.backend
    ++ shownVariable Config.basePathVariable w.config.basePath
    ++ shownVariable Log.variableName w.log
    ++ shownVariable Report.libraryVariable w.trace.library
    ++ shownVariable Report.generalVariable w.trace.general

-- What reading a path gives.
def file (w : Surroundings) : Config.FileReader := fun path =>
  if w.showsEnvironment path then .ok w.environment else w.read path

end Surroundings
end Roster
