import Roster.CommandLine.Flag
import Roster.CommandLine.Help
import Roster.Terminal

-- The wording of usage errors. What an argument holds is styled, so the styling ends behind it and
-- with it any control sequence that the argument leaves open. The whole is then made plain.

namespace Roster.CommandLine

def styled (s : String) : List Char := s.toList ++ Terminal.reset

-- The pointer to the help, which every error ends in.
def hint : List Char :=
  "\n\nFor more information, try '".toList ++ Terminal.escapeChar :: "[1m--help".toList
    ++ Terminal.reset ++ "'.\n".toList

def invalidValue (value : String) (f : Flag) (reason : String) : List Char :=
  "invalid value '".toList ++ styled value ++ "' for '".toList ++ styled f.shown
    ++ "': ".toList ++ reason.toList

namespace UsageError

def body : UsageError → List Char
  | .nothingGiven => Page.program.text.toList
  | .subcommandMissing =>
    "'user-storage' requires a subcommand but one was not provided".toList
  | .unknownSubcommand text => "unrecognized subcommand '".toList ++ styled text ++ ['\'']
  | .unexpectedArgument text =>
    "unexpected argument '".toList ++ styled text ++ "' found".toList
  | .unexpectedValue text flag =>
    "unexpected value '".toList ++ styled text ++ "' for '".toList ++ styled flag
      ++ "' found; no more were expected".toList
  | .requiredMissing => "the following required arguments were not provided:".toList
  | .valueMissing f =>
    "a value is required for '".toList ++ styled f.shown ++ "' but none was supplied".toList
  | .repeated f =>
    "the argument '".toList ++ styled f.shown ++ "' cannot be used multiple times".toList
  | .notUtf8 => "invalid UTF-8 was detected in one or more arguments".toList
  | .unknownBackend text =>
    invalidValue text .backend (StorageError.unknownBackend text).message
  | .badAge text p => invalidValue text .age p.message

-- Errors about one value say nothing of the other arguments.
def isAboutValue : UsageError → Bool
  | .valueMissing _ | .unknownBackend _ | .badAge .. => true
  | _ => false

-- What is wrong, the notes that the parser makes on the arguments, and the pointer to the help. Among
-- the notes are the flags that are missing, arguments that look alike, and the usage.
def text (e : UsageError) (notes : List Char) : List Char :=
  match e with
  | .nothingGiven => e.body
  | e => "error: ".toList ++ e.body ++ (if e.isAboutValue then [] else notes) ++ hint

def report (e : UsageError) (notes : List Char) : String :=
  String.ofList (Terminal.plain (e.text notes))

end UsageError
end Roster.CommandLine
