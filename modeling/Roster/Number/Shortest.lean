import Roster.Number.Binary64

-- The fewest decimal digits that read back as a given double.
--
-- A double stands for all reals that round to it. On the grids of 1, 2, … 17 significant digits the
-- first with a point in that interval is taken, and of two points the nearer one. Where the two are
-- equally near, the format decides.

namespace Roster.Number

-- The number `coefficient * 10 ^ exp`.
structure Decimal where
  coefficient : Nat
  exp : Int
deriving DecidableEq, Repr

-- Which of two equally near points is taken.
inductive Tie
  | up
  | toEven
deriving DecidableEq, Repr

def Tie.takesLower (t : Tie) (lower : Nat) : Bool := t = .toEven && lower % 2 = 0

namespace Binary64

-- In quarters of the last binary place: the number itself and the ends of its interval.
-- Below a power of two the neighbours are twice as near.
def quarters (x : Binary64) : Nat := 4 * x.mant
def lowEnd (x : Binary64) : Nat :=
  if x.mant = leastNormal ∧ minExp < x.exp then 4 * x.mant - 1 else 4 * x.mant - 2
def highEnd (x : Binary64) : Nat := 4 * x.mant + 2

-- `quarters x * (gridNum / gridDen)` is `x` in units of `10 ^ k`.
def gridNum (x : Binary64) (k : Int) : Nat := Nat.pow 2 (x.exp - 2).toNat * Nat.pow 10 (-k).toNat
def gridDen (x : Binary64) (k : Int) : Nat := Nat.pow 2 (2 - x.exp).toNat * Nat.pow 10 k.toNat

-- Whether `c * 10 ^ k` rounds to `x`. The ends round to the number with the even mantissa.
def readsBack (x : Binary64) (k : Int) (c : Nat) : Bool :=
  let point := c * x.gridDen k
  let low := x.lowEnd * x.gridNum k
  let high := x.highEnd * x.gridNum k
  if x.mant % 2 = 0 then low ≤ point && point ≤ high else low < point && point < high

-- The point of a grid that stands for `x`, if there is one.
def pointOn (x : Binary64) (tie : Tie) (k : Int) : Option Nat :=
  let value := x.quarters * x.gridNum k
  let below := value / x.gridDen k
  let excess := 2 * (value % x.gridDen k)
  match x.readsBack k below, x.readsBack k (below + 1) with
  | true, true =>
    if excess < x.gridDen k || (excess = x.gridDen k && tie.takesLower below) then some below
    else some (below + 1)
  | true, false => some below
  | false, true => some (below + 1)
  | false, false => none

-- The exponent of the leading decimal digit of a positive number.
def leading (x : Binary64) : Int :=
  if x.den ≤ x.num then (Nat.toDigits 10 (x.num / x.den)).length - 1
  else
    let n := (Nat.toDigits 10 (x.den / x.num)).length
    if x.den ≤ x.num * Nat.pow 10 (n - 1) then 1 - n else -n

-- A point may be a power of ten, which has fewer digits than its grid.
def shortest (x : Binary64) (tie : Tie) : Decimal :=
  if x.mant = 0 then ⟨0, 0⟩
  else
    let top := x.leading
    let hit := (List.range 17).findSome? fun (i : Nat) =>
      (x.pointOn tie (top - i)).map fun c =>
        if c = Nat.pow 10 (i + 1) then (⟨1, top + 1⟩ : Decimal) else ⟨c, top - i⟩
    hit.getD ⟨0, 0⟩

end Binary64

namespace Decimal

def digits (d : Decimal) : List Char := Nat.toDigits 10 d.coefficient

-- The exponent of the leading digit.
def leading (d : Decimal) : Int := d.exp + d.digits.length - 1

-- Written out in full, with at least one digit on either side of the point.
def positional (d : Decimal) : List Char :=
  let ds := d.digits
  if 0 ≤ d.exp then ds ++ List.replicate d.exp.toNat '0' ++ ['.', '0']
  else
    let whole := (ds.length : Int) + d.exp
    if 0 < whole then ds.take whole.toNat ++ '.' :: ds.drop whole.toNat
    else ['0', '.'] ++ List.replicate (-whole).toNat '0' ++ ds

-- One digit, the others after a point, and the exponent with a sign.
def scientific (d : Decimal) : List Char :=
  let e := d.leading
  let mantissa := match d.digits with
    | [] => []
    | [c] => [c]
    | c :: r => c :: '.' :: r
  mantissa ++ ['e', if e < 0 then '-' else '+'] ++ Nat.toDigits 10 e.natAbs

end Decimal

-- Positional however long that gets. A tie goes up.
def plainText (negative : Bool) (x : Binary64) : String :=
  String.ofList ((if negative then ['-'] else []) ++ (x.shortest .up).positional)

-- Positional where the leading digit is at most five places behind the point and the point at
-- most fifteen places behind the leading digit. A tie goes to the even point.
def compactText (negative : Bool) (x : Binary64) : String :=
  let d := x.shortest .toEven
  String.ofList <| (if negative then ['-'] else []) ++
    if -5 ≤ d.leading ∧ d.leading ≤ 15 then d.positional else d.scientific

end Roster.Number
