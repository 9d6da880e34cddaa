-- What stands between the tokens of a document: blanks, line ends and comments.

namespace Roster.Toml

-- Reads from the front of a text and gives back the rest.
abbrev Reader (α : Type) := List Char → Option (α × List Char)

def isWs (c : Char) : Bool := c = ' ' || c = '\t'

def skipWs (s : List Char) : List Char := s.dropWhile isWs

-- A line ends in LF or CRLF, never in a CR alone.
def newline? : List Char → Option (List Char)
  | '\n' :: r => some r
  | '\r' :: '\n' :: r => some r
  | _ => none

-- Tabs and all characters but the controls of ASCII.
def isText (c : Char) : Bool := c = '\t' || (0x20 ≤ c.toNat && c.toNat ≠ 0x7F)

def skipComment (s : List Char) : List Char := s.dropWhile isText

-- The end of a line, or of the text.
def lineEnd? : List Char → Option (List Char)
  | [] => some []
  | s => newline? s

-- What may follow the last token of a line.
def restOfLine? (s : List Char) : Option (List Char) :=
  match skipWs s with
  | '#' :: r => lineEnd? (skipComment r)
  | r => lineEnd? r

theorem length_skipWs_le (s : List Char) : (skipWs s).length ≤ s.length :=
  (List.dropWhile_suffix isWs (l := s)).length_le

theorem length_skipComment_le (s : List Char) : (skipComment s).length ≤ s.length :=
  (List.dropWhile_suffix isText (l := s)).length_le

theorem length_newline?_lt {s r : List Char} (h : newline? s = some r) :
    r.length < s.length := by
  unfold newline? at h
  split at h
  · cases h; simp
  · cases h; simp only [List.length_cons]; omega
  · cases h

theorem length_lineEnd?_le {s r : List Char} (h : lineEnd? s = some r) :
    r.length ≤ s.length := by
  unfold lineEnd? at h
  split at h
  · cases h; simp
  · exact Nat.le_of_lt (length_newline?_lt h)

theorem length_restOfLine?_le {s r : List Char} (h : restOfLine? s = some r) :
    r.length ≤ s.length := by
  unfold restOfLine? at h
  have hw := length_skipWs_le s
  split at h
  · rename_i r' hr
    have h1 := length_lineEnd?_le h
    have h2 := length_skipComment_le r'
    simp only [hr, List.length_cons] at hw
    omega
  · exact Nat.le_trans (length_lineEnd?_le h) hw

-- Blanks, line ends and comments, as they may stand inside an array.
-- A comment is not passed over unless its line ends.
def skipLayout (s : List Char) : List Char :=
  match s with
  | [] => []
  | c :: r =>
    if isWs c then skipLayout r
    else if c = '#' then
      match _h : newline? (skipComment r) with
      | some r' => skipLayout r'
      | none => c :: r
    else match _h : newline? (c :: r) with
      | some r' => skipLayout r'
      | none => c :: r
termination_by s.length
decreasing_by
  · simp
  · have h1 := length_newline?_lt _h
    have h2 := length_skipComment_le r
    simp only [List.length_cons]
    omega
  · exact length_newline?_lt _h

-- Blanks and line ends only.
def skipSpace (s : List Char) : List Char :=
  match s with
  | [] => []
  | c :: r =>
    if isWs c then skipSpace r
    else match _h : newline? (c :: r) with
      | some r' => skipSpace r'
      | none => c :: r
termination_by s.length
decreasing_by
  · simp
  · exact length_newline?_lt _h

theorem length_skipSpace_le (s : List Char) : (skipSpace s).length ≤ s.length := by
  fun_induction skipSpace s with
  | case1 => simp
  | case2 c r hc ih => simp only [List.length_cons]; omega
  | case3 c r hc r' h ih => exact Nat.le_trans ih (Nat.le_of_lt (length_newline?_lt h))
  | case4 => simp

end Roster.Toml
