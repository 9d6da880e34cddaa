import Roster.Json.Token
import Roster.Mismatch
import Roster.Number.Shortest
import Roster.Number.Word

-- What the units of a text are worth: numbers as integers or doubles, strings as text.
--
-- An integer that fits 64 bits stays one. Every other number is a double, computed from the leading
-- digits that fit 64 bits and one power of ten; where that is too large there is no value.

namespace Roster.Json

open Number

inductive Real
  | integer (n : Int)
  | double (negative : Bool) (x : Binary64)
deriving DecidableEq, Repr

def wordLimit : Nat := UInt64.size

-- Takes in digits while the number fits 64 bits, and counts those taken.
def absorb (n : Nat) : List Char → Nat × Nat
  | [] => (n, 0)
  | d :: ds =>
    let m := n * 10 + digitValue d
    if m < wordLimit then
      let (r, count) := absorb m ds
      (r, count + 1)
    else (n, 0)

-- `x * 10 ^ e`, by one power of ten that a double can hold, after as many steps of `10 ^ 308`
-- downwards as that needs.
def timesPowerOfTen (x : Binary64) (e : Int) : Option Binary64 :=
  if -308 ≤ e ∧ e ≤ 308 then
    (Binary64.ofNat (Nat.pow 10 e.natAbs)).bind fun p => if 0 ≤ e then x.mul p else x.div p
  else if x.mant = 0 then some x
  else if 0 ≤ e then none
  else (Binary64.ofNat (Nat.pow 10 308)).bind fun p =>
    (x.div p).bind fun y => timesPowerOfTen y (e + 308)
termination_by (-e).toNat
decreasing_by omega

namespace Numeral

def isInteger (n : Numeral) : Bool := n.fraction.isNone && n.exponent.isNone

-- The exponent as it is written.
def power (n : Numeral) : Int :=
  match n.exponent with
  | none => 0
  | some (negative, ds) => if negative then -(ofDecimal ds : Int) else ofDecimal ds

-- The double that a numeral stands for.
def double? (n : Numeral) : Option Binary64 :=
  let (front, taken) := absorb 0 n.whole
  let (all, behind) := absorb front (n.fraction.getD [])
  let scale : Int := (n.whole.length : Int) - taken - behind
  (Binary64.ofNat all).bind fun x => timesPowerOfTen x (scale + n.power)

-- Minus zero is not an integer, nor is anything below the least signed word.
def real? (n : Numeral) : Option Real :=
  let value := ofDecimal n.whole
  if n.isInteger && (if n.negative then 0 < value && isWord (-value) else value < wordLimit) then
    some (.integer (if n.negative then -(value : Int) else value))
  else n.double?.map (.double n.negative)

end Numeral

namespace Real

def found : Real → Found
  | .integer n => .integer n
  | .double negative x => .floating (compactText negative x)

end Real

def textOf? (pieces : List Piece) : Option String := (Piece.text? pieces).map String.ofList

-- Why a text cannot be read as what was wanted.
inductive Problem
  | data (m : Mismatch)
  | flaw (f : Flaw)
deriving DecidableEq, Repr

def malformed {α : Type} : Except Problem α := .error (.flaw .malformed)

-- What a unit shows where a value of another type is wanted. Marks that open no value, numbers
-- without a value and strings without a text show nothing.
def Token.found? : Token → Option Found
  | .mark .openBracket => some .sequence
  | .mark .openBrace => some .map
  | .mark _ => none
  | .null => some .null
  | .boolean b => some (.boolean b)
  | .number n => n.real?.map Real.found
  | .string s => (textOf? s).map .string

-- A unit that is not what is wanted here.
def refuse (t : Token) (expected : String) : Problem :=
  match t.found? with
  | some found => .data (.wrongType found expected)
  | none => .flaw .malformed

end Roster.Json
