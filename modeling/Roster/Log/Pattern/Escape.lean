import Roster.Log.Pattern.Mode
import Roster.Number.Digit

-- Escapes of a pattern.
--
-- Patterns know no properties of characters, so while one speaks of all of Unicode it cannot name
-- digits, words or blanks.

namespace Roster.Log.Pattern

open Number

-- What a backslash and the characters behind it stand for.
inductive Escape
  | literal (code : Nat) (asByte : Bool)
  | charClass
  | position
deriving DecidableEq, Repr

-- Exactly this many hexadecimal digits, behind those that wrote `value`.
def readHex (m : Mode) : Nat → Nat → List Char → Option (Nat × List Char)
  | 0, value, s => some (value, s)
  | n + 1, value, s =>
    match skip m s with
    | [] => none
    | c :: r => (hexValue? c).bind fun d => readHex m n (value * 16 + d) r

def readCode (m : Mode) (digits : Nat) (asByte : Bool) (s : List Char) :
    Option (Escape × List Char) :=
  (readHex m digits 0 s).bind fun (code, rest) =>
    if code.isValidChar then some (.literal code asByte, rest) else none

def controlLetters : List (Char × Nat) :=
  [('a', 0x07), ('f', 0x0C), ('t', 0x09), ('n', 0x0A), ('r', 0x0D), ('v', 0x0B)]

-- Reads what stands behind a backslash.
def readEscape (m : Mode) : List Char → Option (Escape × List Char)
  | [] => none
  | c :: r =>
    match c with
    | 'x' => readCode m 2 true r
    | 'u' => readCode m 4 false r
    | 'U' => readCode m 8 false r
    -- The opposites would match parts of characters.
    | 'd' | 's' | 'w' => if m.unicode then none else some (.charClass, r)
    | 'A' | 'z' => some (.position, r)
    | 'b' | 'B' | '<' | '>' => if m.unicode then none else some (.position, r)
    | c =>
      match controlLetters.lookup c with
      | some code => some (.literal code false, r)
      | none =>
        if c.isAlphanum || 0x80 ≤ c.toNat then none else some (.literal c.toNat false, r)

end Roster.Log.Pattern
