import Roster.Toml.Layout
import Roster.Number.Digit

-- Strings of a document: basic ones with escapes, literal ones without, each on one line or on
-- several.

namespace Roster.Toml

open Number

-- A character by its number. Surrogates have no character.
def scalar? (n : Nat) : Option Char := if h : n.isValidChar then some (Char.ofNatAux n h) else none

-- A character by exactly `n` hexadecimal digits.
def readCode (n : Nat) (s : List Char) : Option (Char × List Char) :=
  if (s.take n).length = n ∧ (s.take n).all fun c => (hexValue? c).isSome then
    (scalar? (ofBase 16 (s.take n))).map fun c => (c, s.drop n)
  else none

def plainEscape? : Char → Option Char
  | 'b' => some '\x08'
  | 't' => some '\t'
  | 'n' => some '\n'
  | 'f' => some '\x0c'
  | 'r' => some '\r'
  | '"' => some '"'
  | '\\' => some '\\'
  | _ => none

-- What follows a backslash.
def readEscape : Reader Char
  | [] => none
  | c :: r =>
    if c = 'u' then readCode 4 r
    else if c = 'U' then readCode 8 r
    else (plainEscape? c).map fun d => (d, r)

theorem length_readCode_le {n : Nat} {s r : List Char} {c : Char}
    (h : readCode n s = some (c, r)) : r.length ≤ s.length := by
  unfold readCode at h
  split at h
  · simp only [Option.map_eq_some_iff, Prod.mk.injEq] at h
    obtain ⟨d, -, -, rfl⟩ := h
    simp
  · cases h

theorem length_readEscape_lt {s r : List Char} {c : Char} (h : readEscape s = some (c, r)) :
    r.length < s.length := by
  unfold readEscape at h
  split at h
  · cases h
  · split at h
    · exact Nat.lt_succ_of_le (length_readCode_le h)
    · split at h
      · exact Nat.lt_succ_of_le (length_readCode_le h)
      · simp only [Option.map_eq_some_iff, Prod.mk.injEq] at h
        obtain ⟨d, -, -, rfl⟩ := h
        simp

def isLiteral (c : Char) : Bool := isText c && c ≠ '\''

-- The rest of a string on one line, behind its opening quote.
def basicBody (s : List Char) : Option (List Char × List Char) :=
  match s with
  | [] => none
  | c :: r =>
    if c = '"' then some ([], r)
    else if c = '\\' then
      match _h : readEscape r with
      | none => none
      | some (d, r') => (basicBody r').map fun (cs, t) => (d :: cs, t)
    else if isText c then (basicBody r).map fun (cs, t) => (c :: cs, t)
    else none
termination_by s.length
decreasing_by
  · have := length_readEscape_lt _h
    simp only [List.length_cons]
    omega
  · simp

def literalBody (s : List Char) : Option (List Char × List Char) :=
  match s.dropWhile isLiteral with
  | '\'' :: r => some (s.takeWhile isLiteral, r)
  | _ => none

-- Three quotes end a string, and up to two more in front of them belong to it.
def closing? (quote : Char) (s : List Char) : Option (List Char × List Char) :=
  let n := (s.takeWhile (· = quote)).length
  if n < 3 then none
  else if n = 3 then some ([], s.drop 3)
  else if n = 4 then some ([quote], s.drop 4)
  else some ([quote, quote], s.drop 5)

-- The rest of a string on several lines. Line ends are read as LF, and a backslash at the end
-- of a line takes away all space up to the next character.
def basicLines (s : List Char) : Option (List Char × List Char) :=
  match closing? '"' s with
  | some done => some done
  | none =>
    match s with
    | [] => none
    | c :: r =>
      if c = '\\' then
        match _h : newline? (skipWs r) with
        | some r' => basicLines (skipSpace r')
        | none =>
          match _h' : readEscape r with
          | none => none
          | some (d, r') => (basicLines r').map fun (cs, t) => (d :: cs, t)
      else if isText c then (basicLines r).map fun (cs, t) => (c :: cs, t)
      else match _h : newline? (c :: r) with
        | some r' => (basicLines r').map fun (cs, t) => ('\n' :: cs, t)
        | none => none
termination_by s.length
decreasing_by
  · have h1 := length_newline?_lt _h
    have h2 := length_skipSpace_le r'
    have h3 := length_skipWs_le r
    simp only [List.length_cons]
    omega
  · have := length_readEscape_lt _h'
    simp only [List.length_cons]
    omega
  · simp
  · exact length_newline?_lt _h

def literalLines (s : List Char) : Option (List Char × List Char) :=
  match closing? '\'' s with
  | some done => some done
  | none =>
    match s with
    | [] => none
    | c :: r =>
      if isText c then (literalLines r).map fun (cs, t) => (c :: cs, t)
      else match _h : newline? (c :: r) with
        | some r' => (literalLines r').map fun (cs, t) => ('\n' :: cs, t)
        | none => none
termination_by s.length
decreasing_by
  · simp
  · exact length_newline?_lt _h

-- A line end right behind the opening quotes is not part of the string.
def skipFirstNewline (s : List Char) : List Char := (newline? s).getD s

def ofChars (r : Option (List Char × List Char)) : Option (String × List Char) :=
  r.map fun (cs, t) => (String.ofList cs, t)

-- A string on one line, as it may also be a key.
def readQuoted : Reader String
  | '"' :: r => ofChars (basicBody r)
  | '\'' :: r => ofChars (literalBody r)
  | _ => none

def readString : Reader String
  | '"' :: '"' :: '"' :: r => ofChars (basicLines (skipFirstNewline r))
  | '\'' :: '\'' :: '\'' :: r => ofChars (literalLines (skipFirstNewline r))
  | s => readQuoted s

end Roster.Toml
