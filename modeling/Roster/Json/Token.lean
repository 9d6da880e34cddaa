import Roster.Number.Digit

-- The units of a JSON text, and the ways in which a text can stop short of a whole unit.

namespace Roster.Json

inductive Mark
  | openBrace
  | closeBrace
  | openBracket
  | closeBracket
  | colon
  | comma
deriving DecidableEq, Repr

-- A part of a string: a character, or one half of a surrogate pair, which only an escape writes.
inductive Piece
  | char (c : Char)
  | half (code : Nat)
deriving DecidableEq, Repr

namespace Piece

def isHigh (code : Nat) : Bool := 0xD800 ≤ code && code ≤ 0xDBFF
def isLow (code : Nat) : Bool := 0xDC00 ≤ code && code ≤ 0xDFFF

def ofCode (code : Nat) : Piece :=
  if isHigh code || isLow code then .half code else .char (Char.ofNat code)

def join (high low : Nat) : Char :=
  Char.ofNat (0x10000 + (high - 0xD800) * 0x400 + (low - 0xDC00))

-- The text of a string. A half without its partner has none.
def text? : List Piece → Option (List Char)
  | [] => some []
  | .char c :: r => (text? r).map (c :: ·)
  | .half h :: .half l :: r =>
    if isHigh h && isLow l then (text? r).map (join h l :: ·) else none
  | [.half _] => none
  | .half _ :: .char _ :: _ => none

-- Whether a half lacks its partner already. The last half may still find one.
def isLone : List Piece → Bool
  | [] => false
  | .char _ :: r => isLone r
  | .half h :: .half l :: r => if isHigh h && isLow l then isLone r else true
  | [.half h] => !isHigh h
  | .half _ :: .char _ :: _ => true

end Piece

-- A number as it is written: digits in front of the point, behind it, and in the exponent.
structure Numeral where
  negative : Bool
  whole : List Char
  fraction : Option (List Char)
  exponent : Option (Bool × List Char)
deriving DecidableEq, Repr

inductive Token
  | mark (m : Mark)
  | null
  | boolean (b : Bool)
  | number (n : Numeral)
  | string (s : List Piece)
deriving DecidableEq, Repr

-- Either the text goes on in a way that no JSON text does, or it ends too early.
inductive Flaw
  | malformed
  | truncated
deriving DecidableEq, Repr

-- What comes after the last whole unit of a text.
inductive Stop
  | done
  | stray
  | word (flaw : Flaw)
  | number (flaw : Flaw)
  | string (pieces : List Piece) (flaw : Flaw)
deriving DecidableEq, Repr

namespace Stop

-- The flaw of a text that stops where a value is read. A lone half is met before the stop.
def atValue : Stop → Flaw
  | .done => .truncated
  | .stray => .malformed
  | .word f => f
  | .number f => f
  | .string pieces f => if Piece.isLone pieces then .malformed else f

-- Where a value is passed over, its numbers and strings are not looked into.
def atSkippedValue : Stop → Flaw
  | .done => .truncated
  | .stray => .malformed
  | .word f => f
  | .number _ => .malformed
  | .string _ f => f

def atKey : Stop → Flaw
  | .done => .truncated
  | .string pieces f => if Piece.isLone pieces then .malformed else f
  | _ => .malformed

def atSkippedKey : Stop → Flaw
  | .done => .truncated
  | .string _ f => f
  | _ => .malformed

def atMark : Stop → Flaw
  | .done => .truncated
  | _ => .malformed

end Stop
end Roster.Json
