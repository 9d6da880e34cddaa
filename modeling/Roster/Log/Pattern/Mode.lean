import Roster.Text.Blank

-- Modes of a pattern, and what they make of blanks.

namespace Roster.Log.Pattern

open Text

structure Mode where
  ignoreCase : Bool := false
  unicode : Bool := true
  -- Blanks and comments between tokens do not count.
  spaced : Bool := false
deriving DecidableEq, Repr

namespace Mode

-- There is no table of the cases of characters.
def folds (m : Mode) : Bool := m.unicode && m.ignoreCase

def letters : List Char := ['i', 'm', 's', 'U', 'u', 'R', 'x']

-- Letters behind the dash switch off.
def set (m : Mode) (setting : List Char) : Mode :=
  let on := setting.takeWhile (· ≠ '-')
  let value (now : Bool) (letter : Char) : Bool :=
    if setting.contains letter then on.contains letter else now
  ⟨value m.ignoreCase 'i', value m.unicode 'u', value m.spaced 'x'⟩

end Mode

-- No letter and no dash twice, and no dash at the end.
def isSetting (s : List Char) : Bool :=
  s.all (fun c => c = '-' || Mode.letters.contains c) && decide s.Nodup && s.getLast? ≠ some '-'

-- A comment ends with its line.
def skipSpaced (inComment : Bool) : List Char → List Char
  | [] => []
  | c :: r =>
    if inComment then skipSpaced (c ≠ '\n') r
    else if isBlank c then skipSpaced false r
    else if c = '#' then skipSpaced true r
    else c :: r

def skip (m : Mode) (s : List Char) : List Char := if m.spaced then skipSpaced false s else s

-- The character behind blanks. Of a comment only the sign that opens it counts as a blank.
def glance (m : Mode) (s : List Char) : Option Char :=
  if m.spaced then
    match s.dropWhile isBlank with
    | '#' :: r => (r.dropWhile isBlank).head?
    | r => r.head?
  else s.head?

end Roster.Log.Pattern
