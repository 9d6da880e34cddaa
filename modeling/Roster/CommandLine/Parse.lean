import Roster.CommandLine.Flag
import Roster.CommandLine.Help
import Roster.User

-- Command lines as byte strings, read from left to right.
--
-- A flag whose value is an argument of its own waits for that argument, and is taken in only when
-- something else needs to be: another flag, or the end. So a bad value may go unnoticed behind an
-- argument that is refused at once.

namespace Roster.CommandLine

-- What a command line asks for instead of a run.
inductive Interruption
  | usage (e : UsageError)
  | help (page : Page)
  | version
deriving DecidableEq, Repr

inductive Command
  | demo (u : User)
  | info
deriving DecidableEq, Repr

structure Invocation where
  config : Option Bytes
  backend : Option Backend
  basePath : Option Bytes
  command : Command
deriving DecidableEq, Repr

def hyphen : UInt8 := 0x2D
def equalsSign : UInt8 := 0x3D

-- What an argument looks like. A hyphen alone is plain.
inductive Shape
  | dashes
  | long (word : Bytes) (value : Option Bytes)
  | short (letters : Bytes)
  | plain
deriving DecidableEq, Repr

def shape (a : Bytes) : Shape :=
  match a with
  | h :: b :: r =>
    if h = hyphen then
      if b = hyphen then
        if r = [] then .dashes
        else .long (r.takeWhile (· ≠ equalsSign)) (r.dropWhile (· ≠ equalsSign)).tail?
      else .short (b :: r)
    else .plain
  | _ => .plain

-- Where the reading of one scope has come to. A flag that waits has no value yet or has one
-- that is not taken in yet. Behind two dashes no argument is a flag.
structure Progress where
  settings : Settings := {}
  pending : Option (Flag × Option Bytes) := none
  isTrailing : Bool := false
deriving DecidableEq, Repr

namespace Progress

-- Takes in the flag that waits.
def settle (p : Progress) : Except UsageError Settings :=
  match p.pending with
  | none => .ok p.settings
  | some (f, value) => p.settings.give f value

-- The flag that the next argument is for.
def awaits (p : Progress) : Option Flag :=
  match p.pending with
  | some (f, none) => some f
  | _ => none

end Progress

def subcommand? (a : Bytes) : Option Page :=
  if a = Bytes.ofString "demo" then some .demo
  else if a = Bytes.ofString "info" then some .info
  else if a = Bytes.ofString "help" then some .help
  else none

def pageOf : Scope → Page
  | .top => .program
  | .demo => .demo
  | .info => .info

def usage {α : Type} (e : UsageError) : Except Interruption α := .error (.usage e)

def liftUsage {α : Type} (r : Except UsageError α) : Except Interruption α :=
  r.mapError .usage

-- An argument that has no place here.
def misplaced (scope : Scope) (p : Progress) (a : Bytes) : UsageError :=
  if scope = .top ∧ ¬(p.isTrailing ∧ (subcommand? a).isSome) then
    .unknownSubcommand (Bytes.display a)
  else .unexpectedArgument (Bytes.display a)

-- Help and version are given once the flag that waits is in order.
def interrupt {α : Type} (p : Progress) (what : Interruption) : Except Interruption α :=
  (liftUsage p.settle).bind fun _ => .error what

def readLong (scope : Scope) (p : Progress) (word : Bytes) (value : Option Bytes) :
    Except Interruption Progress :=
  let unexpected := usage (.unexpectedArgument ("--" ++ Bytes.display word))
  match Bytes.text? word with
  | none => unexpected
  | some w =>
    match Flag.find? scope w with
    | some f => do
      let settings ← liftUsage p.settle
      match value with
      | some _ =>
        let settings ← liftUsage (settings.give f value)
        return { p with settings, pending := none }
      | none => return { p with settings, pending := some (f, none) }
    | none =>
      if w = "help" ∨ (w = "version" ∧ scope = .top) then
        match value with
        | some v => usage (.unexpectedValue (Bytes.display v) ("--" ++ w))
        | none => interrupt p (if w = "help" then .help (pageOf scope) else .version)
      else unexpected

-- Short flags stand one behind the other, and the first one already interrupts.
def readShort (scope : Scope) (p : Progress) (letters : Bytes) :
    Except Interruption Progress :=
  match Bytes.chunks letters with
  | .char c :: _ =>
    if c = 'h' then interrupt p (.help (pageOf scope))
    else if c = 'V' ∧ scope = .top then interrupt p .version
    else usage (.unexpectedArgument (String.ofList ['-', c]))
  | _ => usage (.unexpectedArgument ("-" ++ Bytes.display letters))

-- Reads an argument that is no subcommand.
def readArgument (scope : Scope) (p : Progress) (a : Bytes) : Except Interruption Progress :=
  if p.isTrailing then usage (misplaced scope p a)
  else match shape a with
    | .dashes => .ok { p with isTrailing := true }
    | .long word value => readLong scope p word value
    | .short letters => readShort scope p letters
    | .plain =>
      match p.awaits with
      | some f => .ok { p with pending := some (f, some a) }
      | none => usage (misplaced scope p a)

-- The words behind `help` name what it is about.
def readHelp (words : List Bytes) : Interruption :=
  match words with
  | [] => .help .program
  | w :: rest =>
    match subcommand? w with
    | none => .usage (.unknownSubcommand (Bytes.display w))
    | some page =>
      match rest with
      | [] => .help page
      | w' :: _ => .usage (.unknownSubcommand (Bytes.display w'))

def readArguments (scope : Scope) (p : Progress) (args : List Bytes) :
    Except Interruption Progress :=
  args.foldlM (readArgument scope) p

-- The arguments behind a subcommand.
def readDemo (args : List Bytes) : Except Interruption (Settings × User) := do
  let p ← readArguments .demo {} args
  let s ← liftUsage p.settle
  match s.email, s.name with
  | some email, some name => return (s, ⟨name, email, s.age.getD 0⟩)
  | _, _ => usage .requiredMissing

def readInfo (args : List Bytes) : Except Interruption Settings := do
  let p ← readArguments .info {} args
  liftUsage p.settle

-- The value behind the subcommand counts before the one in front of it.
def Invocation.merge (front behind : Settings) (command : Command) : Invocation where
  config := behind.config.or front.config
  backend := behind.backend.or front.backend
  basePath := behind.basePath.or front.basePath
  command := command

-- What stands behind a subcommand is read before the flag that waits in front of it.
def readCommand (p : Progress) (page : Page) (args : List Bytes) :
    Except Interruption Invocation :=
  match page with
  | .demo => do
    let (behind, user) ← readDemo args
    let front ← liftUsage p.settle
    return .merge front behind (.demo user)
  | .info => do
    let behind ← readInfo args
    let front ← liftUsage p.settle
    return .merge front behind .info
  | _ => .error (readHelp args)

-- A word is a subcommand unless a flag waits for it.
def readTop (p : Progress) : List Bytes → Except Interruption Invocation
  | [] => do
    let s ← liftUsage p.settle
    usage (if s.isEmpty then .nothingGiven else .subcommandMissing)
  | a :: rest =>
    match if p.isTrailing ∨ p.awaits.isSome then none else subcommand? a with
    | some page => readCommand p page rest
    | none => (readArgument .top p a).bind fun q => readTop q rest

def parse (args : List Bytes) : Except Interruption Invocation := readTop {} args

end Roster.CommandLine
