import Roster.Event
import Roster.Log.Pattern

-- Directives of a filter: which events one is about, and the least severe level it lets through.
--
-- A directive is a level, a scope, or a scope with a level. A scope is a source that a bracket may
-- follow: in it stand the name of a span and, between braces, a field and a value. No event happens
-- inside a span, so a directive that asks for one is about no event.

namespace Roster.Log

open Number Text

-- Greater is less severe. Zero is above every level.
def rank : Level → Nat
  | .error => 1
  | .warn => 2
  | .info => 3
  | .debug => 4
  | .trace => 5

def rankNames : List (String × Nat) :=
  [("off", 0), ("error", 1), ("warn", 2), ("info", 3), ("debug", 4), ("trace", 5)]

-- Ranks are written by name in any case, or as a number that may have a plus sign.
def rank? (s : List Char) : Option Nat :=
  let digits := if s.head? = some '+' then s.tail else s
  if digits ≠ [] ∧ digits.all isDigit then (some (ofDecimal digits)).filter (· ≤ rank .trace)
  else rankNames.lookup (String.ofList (foldCase s))

-- No source stands for all of them, no field for events of whatever fields. The limit is the
-- greatest rank that is let through.
structure Directive where
  source : List Char
  field : Option (List Char)
  limit : Nat
deriving DecidableEq, Repr

namespace Directive

-- The one field that events have.
def messageField : List Char := "message".toList

def covers (d : Directive) (source : List Char) : Bool :=
  d.source.isPrefixOf source && d.field.all (· = messageField)

-- The longer source is closer, and of two as long the one with a field.
def isCloser (d e : Directive) : Bool :=
  e.source.length < d.source.length
    || (d.source.length = e.source.length && d.field.isSome && e.field.isNone)

section Reading

def opens (c : Char) : Bool :=
  c = '[' || c = '_' || c = ':' || c = '-' || isLetterOrNumber c

-- Digits around a point, and an exponent.
def isDecimal (s : List Char) : Bool :=
  let (whole, r) := digits s
  let (fraction, r) := if r.head? = some '.' then digits r.tail else ([], r)
  (whole ≠ [] || fraction ≠ []) &&
    match r with
    | [] => true
    | e :: r =>
      let r := if r.head? = some '+' || r.head? = some '-' then r.tail else r
      (e = 'e' || e = 'E') && r ≠ [] && r.all isDigit

-- A number with a plus sign would be no pattern. Any other number is one.
def isPositive : List Char → Bool
  | '+' :: r => ["inf", "infinity", "nan"].contains (String.ofList (foldCase r)) || isDecimal r
  | _ => false

def isValue (s : List Char) : Bool := isPositive s || Pattern.isPattern s

inductive Condition
  | field (name : List Char)
  | inSpan
deriving DecidableEq, Repr

-- A field, or a field, an equals sign and a value. What stands behind a second equals sign does
-- not count. Only spans have values.
def readCondition (s : List Char) : Option Condition :=
  if s = [] then none
  else match s.dropWhile (· ≠ '=') with
    | [] => some (.field s)
    | _ :: r => if isValue (r.takeWhile (· ≠ '=')) then some .inSpan else none

-- Positions count bytes.
def size (s : List Char) : Nat := (Bytes.ofChars s).length

def readRank (s : List Char) : Option Nat := if s = [] then some (rank .trace) else rank? s

-- The text from position `start` up to position `stop`. Inside of a character nothing can be cut, so what
-- has a position there is refused.
def cut (whole : Bytes) (start stop : Nat) : Option (List Char) :=
  (Bytes.text? ((whole.drop start).take (stop - start))).map String.toList

-- The level behind a scope that ends at position `p`, given by the rest without blanks.
def readTail (whole : Bytes) (p : Nat) : List Char → Option Nat
  | [] => some (rank .trace)
  | '=' :: _ => (cut whole (p + 1) whole.length).bind readRank
  | _ => none

-- Reads behind the bracket that stands in front of position `p`. Nothing inside is a directive
-- about no event.
def readScope (whole : Bytes) (source : List Char) (p : Nat) (s : List Char) :
    Option (Option Directive) := do
  let inside := s.takeWhile fun c => c ≠ ']' && c ≠ '{'
  let span ← cut whole p (p + size inside)
  let q := p + size inside + 1
  match s.drop inside.length with
  | [] => none
  | ']' :: r => (readTail whole q r).map fun _ => none
  | _ :: r =>
    let text := r.takeWhile (· ≠ '}')
    let t := q + size text
    match r.drop text.length with
    | _ :: ']' :: r =>
      let condition ← (cut whole q t).bind readCondition
      let limit ← readTail whole (t + 2) r
      match span, condition with
      | [], .field name => return some ⟨source, some name, limit⟩
      | _, _ => return none
    | _ => none

-- Blanks around a directive are no reason to refuse it, but they are part of it, and no event has
-- a source with blanks. Positions are counted without the blanks in front.
def read (s : List Char) : Option (Option Directive) :=
  let whole := Bytes.ofChars s
  let t := trim s
  if !t.head?.any opens then none
  else
    let front := t.takeWhile fun c => c ≠ '=' && c ≠ '['
    let p := size front
    match t.drop front.length with
    | [] =>
      match rank? s with
      | some r => some (some ⟨[], none, r⟩)
      | none => some (some ⟨s, none, rank .trace⟩)
    | c :: r => do
      let source ← cut whole 0 p
      if c = '=' then (readTail whole p (c :: r)).map fun limit => some ⟨source, none, limit⟩
      else readScope whole source (p + 1) r

end Reading

end Directive
end Roster.Log
