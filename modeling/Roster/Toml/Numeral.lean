import Roster.Toml.Layout
import Roster.Toml.Value
import Roster.Number.Digit
import Roster.Number.Word

-- Integers and floats of a document. Digits may be grouped by single underscores.

namespace Roster.Toml

open Number

-- The digits behind the first one. An underscore stands between two digits only.
def moreDigits (p : Char → Bool) (s : List Char) : Option (List Char × List Char) :=
  match s with
  | [] => some ([], [])
  | c :: r =>
    if p c then (moreDigits p r).map fun (ds, t) => (c :: ds, t)
    else if c = '_' then
      match r with
      | d :: r' => if p d then (moreDigits p r').map fun (ds, t) => (d :: ds, t) else none
      | [] => none
    else some ([], s)

-- At least one digit, with the underscores taken out.
def digitRun (p : Char → Bool) (s : List Char) : Option (List Char × List Char) :=
  match s with
  | [] => none
  | c :: r => if p c then (moreDigits p r).map fun (ds, t) => (c :: ds, t) else none

-- The decimal digits in front of a point: a zero alone, or a row that starts with another digit.
def wholeDigits (s : List Char) : Option (List Char × List Char) :=
  match s with
  | '0' :: r => some (['0'], r)
  | _ => digitRun isDigit s

def readSign (s : List Char) : Bool × List Char :=
  match s with
  | '+' :: r => (false, r)
  | '-' :: r => (true, r)
  | _ => (false, s)

-- Words are 64 bits wide and signed.
def integer? (n : Int) : Option Scalar :=
  if isWord n then some (.integer n) else none

def signed (negative : Bool) (n : Nat) : Int := if negative then -(n : Int) else n

-- The base that the letter behind a leading zero stands for.
def baseOf? : Char → Option Nat
  | 'x' => some 16
  | 'o' => some 8
  | 'b' => some 2
  | _ => none

def readInBase (base : Nat) (s : List Char) : Option (Scalar × List Char) := do
  let (ds, r) ← digitRun (fun c => (valueIn? base c).isSome) s
  let v ← integer? (ofBase base ds)
  return (v, r)

def readFraction (s : List Char) : Option (List Char × List Char) :=
  match s with
  | '.' :: r => digitRun isDigit r
  | _ => some ([], s)

def readExponent (s : List Char) : Option (Int × List Char) :=
  match s with
  | [] => some (0, [])
  | c :: r =>
    if c = 'e' || c = 'E' then
      let (negative, r) := readSign r
      (digitRun isDigit r).map fun (ds, t) => (signed negative (ofDecimal ds), t)
    else some (0, s)

-- Too large a number is infinite, which only a negative one may be.
def float? (negative : Bool) (ds : List Char) (e : Int) : Option Scalar :=
  match Binary64.ofDecimal (ofDecimal ds) e with
  | some x => some (.float (.finite negative x))
  | none => if negative then some (.float (.infinite true)) else none

-- A decimal number behind its sign: an integer unless a fraction or an exponent follows.
def readDecimal (negative : Bool) (s : List Char) : Option (Scalar × List Char) := do
  let (whole, r) ← wholeDigits s
  if r.head?.any fun c => c = '.' || c = 'e' || c = 'E' then
    let (fraction, r) ← readFraction r
    let (e, r) ← readExponent r
    let v ← float? negative (whole ++ fraction) (e - fraction.length)
    return (v, r)
  else
    let v ← integer? (signed negative (ofDecimal whole))
    return (v, r)

def readSpecial (negative : Bool) (s : List Char) : Option (Scalar × List Char) :=
  match s with
  | 'i' :: 'n' :: 'f' :: r => some (.float (.infinite negative), r)
  | 'n' :: 'a' :: 'n' :: r => some (.float .nan, r)
  | _ => none

-- A base is written without a sign.
def readNumeral : Reader Scalar
  | '0' :: c :: r =>
    match baseOf? c with
    | some base => readInBase base r
    | none => readDecimal false ('0' :: c :: r)
  | s =>
    let (negative, r) := readSign s
    match readSpecial negative r with
    | some done => some done
    | none => readDecimal negative r

end Roster.Toml
