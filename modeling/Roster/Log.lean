import Roster.Bytes
import Roster.Log.Directive

-- Which events are written out, and how.
--
-- A filter is a list of directives. Of those that are about an event the closest one decides.

namespace Roster.Log

-- The environment variable that holds a filter.
def variableName : String := "RUST_LOG"

abbrev Filter := List Directive

-- The stretches between commas, empty ones included.
def splitCommas : List Char → List (List Char)
  | [] => [[]]
  | c :: r =>
    if c = ',' then [] :: splitCommas r
    else match splitCommas r with
      | [] => [[c]]
      | p :: ps => (c :: p) :: ps

-- Empty stretches do not count. A filter without directives lets nothing through.
def readFilter (s : List Char) : Option Filter :=
  (((splitCommas s).filter (· ≠ [])).mapM Directive.read).map fun ds => ds.filterMap id

def standard : Filter := [⟨[], none, rank .warn⟩]

def ofVariable (value : Option Bytes) : Filter :=
  ((value.bind Bytes.text?).bind fun s => readFilter s.toList).getD standard

-- Of directives as close as each other the last one counts.
def decisive (f : Filter) (source : List Char) : Option Directive :=
  (f.filter (·.covers source)).foldl (fun best d =>
    match best with
    | none => some d
    | some b => if b.isCloser d then best else some d) none

def lets (f : Filter) (e : Event) : Bool :=
  match decisive f e.source.toList with
  | some d => rank e.level ≤ d.limit
  | none => false

-- Characters that could steer a terminal are written out.
def showChar (c : Char) : List Char :=
  let n := c.toNat
  if n = 0x1B then "\\x1b".toList
  else if n = 0x07 then "\\x07".toList
  else if n = 0x08 then "\\x08".toList
  else if n = 0x0C then "\\x0c".toList
  else if n = 0x7F then "\\x7f".toList
  else if 0x80 ≤ n ∧ n ≤ 0x9F then
    "\\u\x7b".toList ++ Nat.toDigits 16 n ++ "\x7d".toList
  else [c]

def line (e : Event) : String :=
  e.level.name ++ " " ++ e.source ++ ": "
    ++ String.ofList (e.message.toList.flatMap showChar) ++ "\n"

def write (f : Filter) (es : List Event) : String := String.join ((es.filter (lets f)).map line)

end Roster.Log
