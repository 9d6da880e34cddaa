-- Decimal digits and the numbers they write.

namespace Roster.Number

def isDigit (c : Char) : Bool := '0' ≤ c && c ≤ '9'

def digitValue (c : Char) : Nat := c.toNat - '0'.toNat

-- The number that a row of digits continues to when `n` stands in front of it.
def continueDecimal (n : Nat) (ds : List Char) : Nat :=
  ds.foldl (fun m d => m * 10 + digitValue d) n

def ofDecimal (ds : List Char) : Nat := continueDecimal 0 ds

-- Hexadecimal, and with it every smaller base.
def hexValue? (c : Char) : Option Nat :=
  if isDigit c then some (digitValue c)
  else if 'a' ≤ c && c ≤ 'f' then some (c.toNat - 'a'.toNat + 10)
  else if 'A' ≤ c && c ≤ 'F' then some (c.toNat - 'A'.toNat + 10)
  else none

-- The value of a digit of this base, at most sixteen.
def valueIn? (base : Nat) (c : Char) : Option Nat :=
  (hexValue? c).filter (· < base)

def ofBase (base : Nat) (ds : List Char) : Nat :=
  ds.foldl (fun m d => m * base + (hexValue? d).getD 0) 0

-- Splits off the digits in front.
def digits (s : List Char) : List Char × List Char := (s.takeWhile isDigit, s.dropWhile isDigit)

end Roster.Number
