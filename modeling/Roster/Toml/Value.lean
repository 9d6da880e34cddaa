import Roster.Number.Shortest

-- The values of a TOML document.

namespace Roster.Toml

open Number

structure Date where
  year : Nat
  month : Nat
  day : Nat
deriving DecidableEq, Repr

structure Time where
  hour : Nat
  minute : Nat
  second : Nat
  nanosecond : Nat
deriving DecidableEq, Repr

-- The distance from universal time, in minutes. Universal time itself has a sign of its own.
inductive Offset
  | utc
  | minutes (m : Int)
deriving DecidableEq, Repr

inductive DateTime
  | date (d : Date)
  | time (t : Time)
  | both (d : Date) (t : Time) (offset : Option Offset)
deriving DecidableEq, Repr

def padded (width n : Nat) : List Char :=
  let ds := Nat.toDigits 10 n
  List.replicate (width - ds.length) '0' ++ ds

def Date.text (d : Date) : List Char :=
  padded 4 d.year ++ '-' :: padded 2 d.month ++ '-' :: padded 2 d.day

-- The fraction goes as far as its last digit that is not zero.
def Time.text (t : Time) : List Char :=
  padded 2 t.hour ++ ':' :: padded 2 t.minute ++ ':' :: padded 2 t.second ++
    if t.nanosecond = 0 then []
    else '.' :: ((padded 9 t.nanosecond).reverse.dropWhile (· = '0')).reverse

def Offset.text : Offset → List Char
  | .utc => ['Z']
  | .minutes m =>
    (if m < 0 then '-' else '+') :: padded 2 (m.natAbs / 60) ++ ':' :: padded 2 (m.natAbs % 60)

def DateTime.chars : DateTime → List Char
  | .date d => d.text
  | .time t => t.text
  | .both d t none => d.text ++ 'T' :: t.text
  | .both d t (some offset) => d.text ++ 'T' :: t.text ++ offset.text

def DateTime.text (d : DateTime) : String := String.ofList d.chars

inductive Real
  | finite (negative : Bool) (x : Binary64)
  | infinite (negative : Bool)
  | nan
deriving DecidableEq, Repr

def Real.text : Real → String
  | .finite negative x => plainText negative x
  | .infinite negative => if negative then "-inf" else "inf"
  | .nan => "NaN"

inductive Scalar
  | string (s : String)
  | integer (n : Int)
  | float (x : Real)
  | boolean (b : Bool)
  | dateTime (d : DateTime)
deriving DecidableEq, Repr

-- The entries of a table stand in the order of their keys, and no key stands twice.
inductive Value
  | scalar (s : Scalar)
  | array (items : List Value)
  | table (entries : List (String × Value))
deriving Repr

abbrev Table := List (String × Value)

end Roster.Toml
