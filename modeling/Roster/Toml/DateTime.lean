import Roster.Toml.Layout
import Roster.Toml.Value
import Roster.Number.Digit

-- Dates and times of a document.

namespace Roster.Toml

open Number

-- A number of exactly `n` digits within the given range.
def readFixed (n low high : Nat) (s : List Char) : Option (Nat × List Char) :=
  let v := ofDecimal (s.take n)
  if (s.take n).length = n ∧ (s.take n).all isDigit ∧ low ≤ v ∧ v ≤ high then some (v, s.drop n)
  else none

def readChar (c : Char) (s : List Char) : Option (List Char) :=
  match s with
  | d :: r => if d = c then some r else none
  | [] => none

def isLeap (year : Nat) : Bool := year % 4 = 0 && (year % 100 ≠ 0 || year % 400 = 0)

def daysIn (year month : Nat) : Nat :=
  if month = 2 then if isLeap year then 29 else 28
  else if month = 4 || month = 6 || month = 9 || month = 11 then 30
  else 31

def readDate (s : List Char) : Option (Date × List Char) := do
  let (year, s) ← readFixed 4 0 9999 s
  let s ← readChar '-' s
  let (month, s) ← readFixed 2 1 12 s
  let s ← readChar '-' s
  let (day, s) ← readFixed 2 1 (daysIn year month) s
  return (⟨year, month, day⟩, s)

-- Nanoseconds by the first nine digits behind the point.
def readNanoseconds (s : List Char) : Nat × List Char :=
  match s with
  | '.' :: r =>
    let (ds, t) := digits r
    if ds = [] then (0, s)
    else (ofDecimal (ds.take 9) * Nat.pow 10 (9 - ds.length), t)
  | _ => (0, s)

-- A minute may have a leap second.
def readTime (s : List Char) : Option (Time × List Char) := do
  let (hour, s) ← readFixed 2 0 23 s
  let s ← readChar ':' s
  let (minute, s) ← readFixed 2 0 59 s
  let s ← readChar ':' s
  let (second, s) ← readFixed 2 0 60 s
  let (nanosecond, s) := readNanoseconds s
  return (⟨hour, minute, second, nanosecond⟩, s)

def readOffset (s : List Char) : Option (Option Offset × List Char) :=
  match s with
  | [] => some (none, [])
  | c :: r =>
    if c = 'Z' || c = 'z' then some (some .utc, r)
    else if c = '+' || c = '-' then do
      let (hours, r) ← readFixed 2 0 23 r
      let r ← readChar ':' r
      let (minutes, r) ← readFixed 2 0 59 r
      let m : Int := hours * 60 + minutes
      return (some (.minutes (if c = '-' then -m else m)), r)
    else some (none, s)

-- Four digits and a hyphen can only be the start of a date.
def startsDate (s : List Char) : Bool :=
  (readFixed 4 0 9999 s).any fun (_, r) => (readChar '-' r).isSome

-- Two digits and a colon can only be the start of a time.
def startsTime (s : List Char) : Bool :=
  (readFixed 2 0 23 s).any fun (_, r) => (readChar ':' r).isSome

-- The time behind a date, unless the date stands alone.
def timeBehind? (s : List Char) : Option (List Char) :=
  match s with
  | c :: r => if (c = 'T' || c = 't' || c = ' ') && startsTime r then some r else none
  | [] => none

def readDateTime : Reader DateTime := fun s =>
  if startsDate s then do
    let (d, r) ← readDate s
    match timeBehind? r with
    | none => return (.date d, r)
    | some r => do
      let (t, r) ← readTime r
      let (offset, r) ← readOffset r
      return (.both d t offset, r)
  else do
    let (t, r) ← readTime s
    return (.time t, r)

-- A date-time as a text of its own, held to the same bounds as in a document.
def DateTime.ofString? (s : String) : Option DateTime :=
  match readDateTime s.toList with
  | some (d, []) => some d
  | _ => none

end Roster.Toml
