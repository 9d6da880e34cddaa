import Roster.Log.Pattern.Escape
import Roster.Log.Pattern.Nesting

-- Bracketed classes of characters.
--
-- A class holds members, ranges of them, classes by name and other bracketed classes. Operators cut
-- it into rows of these.

namespace Roster.Log.Pattern

def classNames : List String :=
  ["alnum", "alpha", "ascii", "blank", "cntrl", "digit", "graph", "lower", "print", "punct",
   "space", "upper", "word", "xdigit"]

-- A class by name, from behind its bracket, such as `:alpha:]`: whether it is negated, and the
-- rest.
def namedClass? : List Char → Option (Bool × List Char)
  | ':' :: r =>
    let negated := r.head? = some '^'
    let s := if negated then r.tail else r
    match s.dropWhile (· ≠ ':') with
    | ':' :: ']' :: rest =>
      if classNames.contains (String.ofList (s.takeWhile (· ≠ ':'))) then some (negated, rest)
      else none
    | _ => none
  | _ => none

-- A class of bytes leaves out the bytes of longer characters.
def mayBe (m : Mode) (negated : Bool) : Bool := m.unicode || !negated

-- One member of a class: its code if it is a character.
def readMember (m : Mode) : List Char → Option (Option Nat × List Char)
  | [] => none
  | '\\' :: r =>
    match readEscape m r with
    | some (.literal code _, rest) => some (some code, rest)
    | some (.charClass, rest) => some (none, rest)
    | _ => none
  | c :: r => some (some c.toNat, r)

-- Where case is folded no class may hold a character.
def isMember (m : Mode) (code : Option Nat) : Bool :=
  if m.unicode then !m.ignoreCase else code.all (· < 0x80)

-- One member or a range of them. A dash in front of a bracket or of another dash is no range.
def readRange (m : Mode) (s : List Char) : Option (List Char) :=
  (readMember m s).bind fun (low, rest) =>
    let alone := if isMember m low then some rest else none
    match skip m rest with
    | '-' :: r =>
      if glance m r = some ']' || glance m r = some '-' then alone
      else
        (readMember m (skip m r)).bind fun (high, rest) =>
          match low, high with
          | some l, some h => if l ≤ h && isMember m high then some rest else none
          | _, _ => none
    | _ => alone

-- What an open class holds: the height of what stands in front of the last operator, and the
-- heights of the parts behind it.
structure Bracket where
  front : Option Nat := none
  parts : List Nat := []
deriving DecidableEq, Repr

namespace Bracket

def add (b : Bracket) (height : Nat) : Bracket := { b with parts := height :: b.parts }

def height (b : Bracket) : Nat :=
  match b.front with
  | none => rowHeight b.parts
  | some h => max h (rowHeight b.parts) + 1

-- Operators go from left to right.
def cut (b : Bracket) : Bracket := ⟨some b.height, []⟩

-- Dashes behind the opening bracket stand for themselves. Each turn takes one.
def openDashes (m : Mode) (b : Bracket) : Nat → List Char → Bracket × List Char
  | turns + 1, '-' :: r => openDashes m (b.add 0) turns (skip m r)
  | _, s => (b, s)

-- So does a bracket that would leave the class empty.
def openLiterals (m : Mode) (s : List Char) : Bracket × List Char :=
  match s with
  | ']' :: r => (Bracket.add {} 0, r)
  | s => openDashes m {} s.length s

-- Reads what stands behind the opening bracket.
def start (m : Mode) (s : List Char) : Option (Bracket × List Char) :=
  let s := skip m s
  let negated := s.head? = some '^'
  let (b, rest) := openLiterals m (if negated then skip m s.tail else s)
  if mayBe m negated && (b.parts = [] || !m.folds) then some (b, rest) else none

-- Reads up to the end of a class inside others, and gives back its height. Every turn takes a
-- character at least, so the length of the text bounds the turns.
def read (m : Mode) (b : Bracket) (outer : List Bracket) :
    Nat → List Char → Option (Nat × List Char)
  | 0, _ => none
  | turns + 1, s =>
    match skip m s with
    | '[' :: r =>
      match namedClass? r with
      | some (negated, rest) =>
        if mayBe m negated && !m.folds then read m (b.add 0) outer turns rest else none
      | none => (start m r).bind fun (inner, rest) => read m inner (b :: outer) turns rest
    | ']' :: r =>
      match outer with
      | [] => some (b.height + 1, r)
      | o :: os => read m (o.add (b.height + 1)) os turns r
    | '&' :: '&' :: r | '-' :: '-' :: r | '~' :: '~' :: r => read m b.cut outer turns r
    | s => (readRange m s).bind fun rest => read m (b.add 0) outer turns rest

end Bracket

-- Reads a class behind its opening bracket.
def readClass (m : Mode) (s : List Char) : Option (Nat × List Char) :=
  (Bracket.start m s).bind fun (b, rest) => b.read m [] (s.length + 1) rest

end Roster.Log.Pattern
