import Roster.Number.Digit
import Roster.Number.Word

-- Ages on the command line: an optional sign and digits, for a number in the range of ages. The
-- number is built up digit by digit within 64 bits, so it may be refused before its end is seen.

namespace Roster.CommandLine

open Number

inductive AgeProblem
  | empty
  | badDigit
  | tooLarge
  | tooSmall
  | outOfRange (n : Int)
deriving DecidableEq, Repr

namespace AgeProblem

def message : AgeProblem → String
  | .empty => "cannot parse integer from empty string"
  | .badDigit => "invalid digit found in string"
  | .tooLarge => "number too large to fit in target type"
  | .tooSmall => "number too small to fit in target type"
  | .outOfRange n => toString n ++ " is not in 0..=4294967295"

end AgeProblem

-- Puts the digits behind `n`. With a minus sign the number goes down from zero.
def extend (negative : Bool) (n : Int) : List Char → Except AgeProblem Int
  | [] => .ok n
  | c :: r =>
    if isDigit c then
      let d : Int := digitValue c
      let m := if negative then n * 10 - d else n * 10 + d
      if m < leastWord then .error .tooSmall
      else if greatestWord < m then .error .tooLarge
      else extend negative m r
    else .error .badDigit

def readInteger (s : List Char) : Except AgeProblem Int :=
  match s with
  | [] => .error .empty
  | c :: r =>
    if c = '+' || c = '-' then
      if r = [] then .error .badDigit else extend (c = '-') 0 r
    else extend false 0 s

def readAge (s : List Char) : Except AgeProblem UInt32 :=
  match readInteger s with
  | .error p => .error p
  | .ok n =>
    match word32? n with
    | some age => .ok age
    | none => .error (.outOfRange n)

end Roster.CommandLine
