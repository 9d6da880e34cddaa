-- Double-precision numbers as exact naturals. A number is `mant * 2 ^ exp`; its sign is kept
-- elsewhere. Every operation takes the exact quotient and rounds once, a half going to the even
-- neighbour, so results are those of the format's own arithmetic.

namespace Roster.Number

structure Binary64 where
  mant : Nat
  exp : Int
deriving DecidableEq, Repr

namespace Binary64

def minExp : Int := -1074
def maxExp : Int := 971

-- The least mantissa of 53 bits. Only the smallest numbers have a shorter one.
def leastNormal : Nat := 4503599627370496

def zero : Binary64 := ⟨0, minExp⟩

-- The two sides of `num / den`, divided by `2 ^ e`.
def scale (num den : Nat) (e : Int) : Nat × Nat := 
  (num * Nat.pow 2 (-e).toNat, den * Nat.pow 2 e.toNat)

def roundHalfEven (num den : Nat) : Nat :=
  let q := num / den
  let r := num % den
  if 2 * r < den then q
  else if den < 2 * r then q + 1
  else if q % 2 = 0 then q
  else q + 1

-- The floor of the binary logarithm of a positive quotient.
def log2 (num den : Nat) : Int :=
  let k : Int := (Nat.log2 num : Int) - (Nat.log2 den : Int)
  let (n, d) := scale num den k
  if d ≤ n then k else k - 1

-- The nearest number, or none where that would be above the greatest.
def ofRatio (num den : Nat) : Option Binary64 :=
  if num = 0 then some zero
  else
    let e := max (log2 num den - 52) minExp
    let (n, d) := scale num den e
    let m := roundHalfEven n d
    let x : Binary64 := if m = 2 * leastNormal then ⟨leastNormal, e + 1⟩ else ⟨m, e⟩
    if x.exp ≤ maxExp then some x else none

def ofNat (n : Nat) : Option Binary64 := ofRatio n 1

def num (x : Binary64) : Nat := x.mant * Nat.pow 2 x.exp.toNat
def den (x : Binary64) : Nat := Nat.pow 2 (-x.exp).toNat

def mul (x y : Binary64) : Option Binary64 := ofRatio (x.num * y.num) (x.den * y.den)
def div (x y : Binary64) : Option Binary64 := ofRatio (x.num * y.den) (x.den * y.num)

-- A number that ends more than 400 places to the left of the point is too large, and one that
-- starts more than 400 places to the right of it rounds to zero, so neither power is built.
def ofDecimal (n : Nat) (e : Int) : Option Binary64 :=
  if n = 0 then some zero
  else
    let places : Int := (Nat.toDigits 10 n).length + e
    if 400 < places then none
    else if places < -400 then some zero
    else ofRatio (n * Nat.pow 10 e.toNat) (Nat.pow 10 (-e).toNat)

end Binary64
end Roster.Number
