import Roster.Log.Pattern.Bracket
import Roster.Text.Letter

-- Whether a text is a regular expression.
--
-- The text is read as a row of tokens. Which tokens may stand where is told by the modes that
-- letters behind `(?` switch, and by the groups that are open. A pattern comes from between braces,
-- so no brace in it is closed behind the one that opens it, and whatever needs that is refused.
--
-- While a pattern speaks of all of Unicode, it cannot fold case. While it speaks of bytes, it must
-- not match a part of a character.

namespace Roster.Log.Pattern

open Text

inductive Token
  | item (height : Nat)
  | repetition
  | either
  | opening (name : Option (List Char)) (mode : Mode)
  | closing
  | setting (mode : Mode)
deriving DecidableEq, Repr

-- Reads what stands behind `(?`.
def readSetting (m : Mode) (s : List Char) : Option (Token × List Char) :=
  let letters := s.takeWhile fun c => c ≠ ':' && c ≠ ')'
  if !isSetting letters then none
  else match s.drop letters.length with
    | [] => none
    | ':' :: r => some (.opening none (m.set letters), r)
    | _ :: r => if letters = [] then none else some (.setting (m.set letters), r)

def isName : List Char → Bool
  | [] => false
  | c :: r =>
    (c = '_' || isLetter c)
      && r.all fun c => c = '_' || c = '.' || c = '[' || c = ']' || isLetterOrNumber c

def readName (m : Mode) (s : List Char) : Option (Token × List Char) :=
  let name := s.takeWhile (· ≠ '>')
  match s.drop name.length with
  | [] => none
  | _ :: r => if isName name then some (.opening (some name) m, r) else none

-- Reads what stands behind an opening parenthesis. Nothing looks ahead or behind.
def readOpening (m : Mode) (s : List Char) : Option (Token × List Char) :=
  match skip m s with
  | '?' :: '=' :: _ | '?' :: '!' :: _ | '?' :: '<' :: '=' :: _ | '?' :: '<' :: '!' :: _ => none
  | '?' :: 'P' :: '<' :: r | '?' :: '<' :: r => readName m r
  | '?' :: r => readSetting m r
  | r => some (.opening none m, r)

-- A repetition may be followed by a sign that makes it as short as possible.
def skipLazy : List Char → List Char
  | '?' :: r => r
  | s => s

-- A byte that is no character of its own cannot stand alone.
def isLiteral (m : Mode) (code : Nat) (asByte : Bool) : Bool :=
  if m.unicode then !m.ignoreCase else code < 0x80 || !asByte

def readToken (m : Mode) : List Char → Option (Token × List Char)
  | [] => none
  | c :: r =>
    match c with
    | '(' => readOpening m r
    | ')' => some (.closing, r)
    | '|' => some (.either, r)
    | '*' | '+' | '?' => some (.repetition, skipLazy r)
    | '{' => none
    | '^' | '$' => some (.item 0, r)
    | '.' => if m.unicode then some (.item 0, r) else none
    | '[' => (readClass m r).map fun (height, rest) => (.item height, rest)
    | '\\' =>
      match readEscape m r with
      | some (.literal code asByte, rest) =>
        if isLiteral m code asByte then some (.item 0, rest) else none
      | some (_, rest) => some (.item 0, rest)
      | none => none
    | c => if isLiteral m c.toNat false then some (.item 0, r) else none

structure Part where
  height : Nat
  repeatable : Bool
deriving DecidableEq, Repr

-- An open group: its mode, the heights of its alternatives so far, and the parts of the last
-- one, with the last part in front.
structure Group where
  mode : Mode := {}
  alternatives : List Nat := []
  parts : List Part := []
deriving DecidableEq, Repr

namespace Group

def add (g : Group) (p : Part) : Group := { g with parts := p :: g.parts }

-- The heights of all alternatives, with that of the last one.
def heights (g : Group) : List Nat := rowHeight (g.parts.map (·.height)) :: g.alternatives

def height (g : Group) : Nat := rowHeight g.heights

end Group

-- The innermost open group, those around it, and the names given so far. The whole pattern is
-- the outermost group.
structure Progress where
  group : Group := {}
  outer : List Group := []
  names : List (List Char) := []
deriving DecidableEq, Repr

namespace Progress

-- A repetition needs something to repeat, and each name counts once.
def step (p : Progress) : Token → Option Progress
  | .item height => some { p with group := p.group.add ⟨height, true⟩ }
  | .repetition =>
    match p.group.parts with
    | ⟨height, true⟩ :: ps => some { p with group.parts := ⟨height + 1, true⟩ :: ps }
    | _ => none
  | .either => some { p with group := ⟨p.group.mode, p.group.heights, []⟩ }
  | .opening name mode =>
    if name.any p.names.contains then none
    else some ⟨⟨mode, [], []⟩, p.group :: p.outer, name.toList ++ p.names⟩
  | .closing =>
    match p.outer with
    | [] => none
    | g :: gs => some { p with group := g.add ⟨p.group.height + 1, true⟩, outer := gs }
  | .setting mode => some { p with group := { p.group with mode }.add ⟨0, false⟩ }

-- Every token takes a character at least, so the length of the text bounds the turns.
def run (p : Progress) : Nat → List Char → Option Progress
  | 0, _ => none
  | turns + 1, s =>
    match skip p.group.mode s with
    | [] => some p
    | s =>
      (readToken p.group.mode s).bind fun (t, rest) => (p.step t).bind fun q => q.run turns rest

def isComplete (p : Progress) : Bool := p.outer.isEmpty && p.group.height ≤ heightLimit

end Progress

def isPattern (s : List Char) : Bool :=
  (Progress.run {} (s.length + 1) s).any (·.isComplete)

end Roster.Log.Pattern
