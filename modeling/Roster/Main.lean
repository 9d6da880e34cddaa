import Roster.Run

-- The program on a real machine. The arguments are looked at first, so that the only file that a
-- run can ask for is read before it.

namespace Roster.Console

-- Some of the calls below report their codes with a minus sign.
def named? (code : UInt32) : Option ReadFailure :=
  if code = 20 || code = -20 then some .notDirectory
  else if code = 21 || code = -21 then some .isDirectory
  else if code = 36 || code = -36 then some .nameTooLong
  else none

def readFailure (e : IO.Error) : ReadFailure :=
  match e with
  | .noFileOrDirectory .. => .notFound
  | .inappropriateType _ code _ | .invalidArgument _ code _ =>
    (named? code).getD (.other (toString e))
  | e => .other (toString e)

def readFile (path : Bytes) : IO (Except ReadFailure Bytes) := do
  match Bytes.text? path with
  | none => return .error .notFound
  | some name =>
    try return .ok (← IO.FS.readBinFile name).toList
    catch e => return .error (readFailure e)

-- A reader that knows the config file of these arguments, if they name one.
def readerFor (args : List Bytes) : IO Config.FileReader := do
  match CommandLine.parse args with
  | .ok { config := some path, .. } =>
    let content ← readFile path
    return fun p => if p = path then content else .error .notFound
  | _ => return fun _ => .error .notFound

def environmentValue (name : String) : IO (Option Bytes) := do
  return (← IO.getEnv name).map Bytes.ofString

def lookedAt : List String :=
  [Config.backendVariable, Config.basePathVariable, Log.variableName, Report.libraryVariable,
    Report.generalVariable]

-- The variables that a run does not look at. Each one ends in a zero.
def otherVariables : IO Bytes := do
  let shown ← readFile environmentFile
  let entries := (shown.toOption.getD []).splitBy fun b _ => b ≠ 0
  return (entries.filter fun v =>
    !lookedAt.any fun name => (Bytes.ofString (name ++ "=")).isPrefixOf v).flatten

def surroundings (args : List Bytes) : IO Surroundings := do
  let backend ← environmentValue Config.backendVariable
  let basePath ← environmentValue Config.basePathVariable
  let log ← environmentValue Log.variableName
  let library ← environmentValue Report.libraryVariable
  let general ← environmentValue Report.generalVariable
  return { config := { backend, basePath }, log, trace := { library, general },
           others := ← otherVariables, read := ← readerFor args }

def start (args : List Bytes) : IO UInt32 := do
  let o := run args (← surroundings args)
  (← IO.getStdout).putStr o.stdout
  (← IO.getStderr).putStr o.stderr
  return UInt32.ofNat o.code

end Roster.Console

def main (args : List String) : IO UInt32 :=
  Roster.Console.start (args.map Roster.Bytes.ofString)
