import Roster.CommandLine.Age
import Roster.Error
import Roster.Bytes

-- The options that take a value, where they may stand, and their values.

namespace Roster.CommandLine

inductive Flag
  | config
  | backend
  | basePath
  | email
  | name
  | age
deriving DecidableEq, Repr

-- The part of a command line that is being read: what stands in front of the subcommand, or
-- what stands behind it.
inductive Scope
  | top
  | demo
  | info
deriving DecidableEq, Repr

namespace Flag

def all : List Flag := [.config, .backend, .basePath, .email, .name, .age]

def word : Flag → String
  | .config => "config"
  | .backend => "backend"
  | .basePath => "base-path"
  | .email => "email"
  | .name => "name"
  | .age => "age"

-- The word with the place of the value.
def shown : Flag → String
  | .config => "--config <CONFIG>"
  | .backend => "--backend <BACKEND>"
  | .basePath => "--base-path <BASE_PATH>"
  | .email => "--email <EMAIL>"
  | .name => "--name <NAME>"
  | .age => "--age <AGE>"

def isGlobal : Flag → Bool
  | .config | .backend | .basePath => true
  | .email | .name | .age => false

def isKnownIn (f : Flag) (scope : Scope) : Bool := f.isGlobal || scope = .demo

def find? (scope : Scope) (s : String) : Option Flag :=
  all.find? fun f => f.word = s ∧ f.isKnownIn scope

end Flag

-- What is wrong with a command line. Texts are those of the arguments, as they are displayed.
inductive UsageError
  | nothingGiven
  | subcommandMissing
  | unknownSubcommand (text : String)
  | unexpectedArgument (text : String)
  | unexpectedValue (text : String) (flag : String)
  | requiredMissing
  | valueMissing (f : Flag)
  | repeated (f : Flag)
  | notUtf8
  | unknownBackend (text : String)
  | badAge (text : String) (p : AgeProblem)
deriving DecidableEq, Repr

-- The values given so far.
structure Settings where
  config : Option Bytes := none
  backend : Option Backend := none
  basePath : Option Bytes := none
  email : Option String := none
  name : Option String := none
  age : Option UInt32 := none
deriving DecidableEq, Repr

namespace Settings

def has (s : Settings) : Flag → Bool
  | .config => s.config.isSome
  | .backend => s.backend.isSome
  | .basePath => s.basePath.isSome
  | .email => s.email.isSome
  | .name => s.name.isSome
  | .age => s.age.isSome

def isEmpty (s : Settings) : Bool := Flag.all.all fun f => !s.has f

end Settings

def readText (value : Bytes) : Except UsageError String :=
  match Bytes.text? value with
  | some s => .ok s
  | none => .error .notUtf8

-- A path may be any bytes but none at all.
def readPath (f : Flag) (value : Bytes) : Except UsageError Bytes :=
  if value = [] then .error (.valueMissing f) else .ok value

def readBackend (value : Bytes) : Except UsageError Backend := do
  let s ← readText value
  match Backend.parse? s with
  | some k => return k
  | none => .error (.unknownBackend s)

def readAgeValue (value : Bytes) : Except UsageError UInt32 := do
  let s ← readText value
  match readAge s.toList with
  | .ok n => return n
  | .error p => .error (.badAge s p)

namespace Settings

-- Reads the value of a flag, whatever stood there before.
def put (s : Settings) (f : Flag) (value : Bytes) : Except UsageError Settings :=
  match f with
  | .config => (readPath f value).map fun v => { s with config := some v }
  | .backend => (readBackend value).map fun v => { s with backend := some v }
  | .basePath => (readPath f value).map fun v => { s with basePath := some v }
  | .email => (readText value).map fun v => { s with email := some v }
  | .name => (readText value).map fun v => { s with name := some v }
  | .age => (readAgeValue value).map fun v => { s with age := some v }

-- A flag has one value, and is given once.
def give (s : Settings) (f : Flag) (value : Option Bytes) : Except UsageError Settings :=
  match value with
  | none => .error (.valueMissing f)
  | some v => if s.has f then .error (.repeated f) else s.put f v

end Settings
end Roster.CommandLine
