import Roster.Toml.Define
import Roster.Toml.Numeral
import Roster.Toml.Text

-- Reading keys and values.

namespace Roster.Toml

open Number

def isBare (c : Char) : Bool :=
  isDigit c || ('a' ≤ c && c ≤ 'z') || ('A' ≤ c && c ≤ 'Z') || c = '_' || c = '-'

def readPart (s : List Char) : Option (String × List Char) :=
  match s with
  | [] => none
  | c :: _ =>
    if c = '"' || c = '\'' then readQuoted s
    else
      let bare := s.takeWhile isBare
      if bare = [] then none else some (String.ofList bare, s.dropWhile isBare)

-- The parts of a key, with blanks around each.
-- The check on the length never fails, since every part takes up a character.
def readParts (s : List Char) : Option (List String × List Char) := do
  let (part, r) ← readPart (skipWs s)
  match skipWs r with
  | '.' :: r' =>
    if r'.length < s.length then
      let (parts, t) ← readParts r'
      return (part :: parts, t)
    else none
  | r' => return ([part], r')
termination_by s.length

-- Keys of more parts than this are refused, and so are values nested more deeply.
def depthLimit : Nat := 79

def keyOf : List String → Option Key
  | [] => none
  | [k] => some ⟨[], k⟩
  | p :: ps => (keyOf ps).map fun key => { key with path := p :: key.path }

def readKey : Reader Key := fun s => do
  let (parts, r) ← readParts s
  if parts.length ≤ depthLimit then
    let key ← keyOf parts
    return (key, r)
  else none

-- The items of an array behind its opening bracket. A comma may follow the last one.
-- The check on the length never fails, since every item takes up a character.
def readItems (item : Reader Node) (s : List Char) : Option (List Node × List Char) := do
  let (v, r) ← item (skipLayout s)
  match skipLayout r with
  | ']' :: r => return ([v], r)
  | ',' :: r =>
    match skipLayout r with
    | ']' :: r => return ([v], r)
    | r' =>
      if r'.length < s.length then
        let (vs, t) ← readItems item r'
        return (v :: vs, t)
      else none
  | _ => none
termination_by s.length

def readArray (item : Reader Node) (s : List Char) : Option (List Node × List Char) :=
  match skipLayout s with
  | ']' :: r => some ([], r)
  | r => readItems item r

def readEntry (item : Reader Node) (s : List Char) : Option (Entry × List Char) := do
  let (key, r) ← readKey s
  match r with
  | '=' :: r =>
    let (v, t) ← item (skipWs r)
    return (⟨key, v⟩, t)
  | _ => none

-- The entries of a table in braces. No comma may follow the last one.
-- The check on the length never fails, since every entry takes up a character.
def readEntries (item : Reader Node) (s : List Char) : Option (List Entry × List Char) := do
  let (e, r) ← readEntry item s
  match skipWs r with
  | '\x7d' :: r => return ([e], r)
  | ',' :: r =>
    if r.length < s.length then
      let (es, t) ← readEntries item r
      return (e :: es, t)
    else none
  | _ => none
termination_by s.length

-- All of a table in braces is said at once, so it is built like the table of a header.
def readBraces (item : Reader Node) (s : List Char) : Option (Node × List Char) :=
  match skipWs s with
  | '\x7d' :: r => some (.table .closed [], r)
  | r => do
    let (es, t) ← readEntries item r
    let draft ← assignAll es []
    return (.table .closed draft, t)

def readWord : Reader Scalar
  | 't' :: 'r' :: 'u' :: 'e' :: r => some (.boolean true, r)
  | 'f' :: 'a' :: 'l' :: 's' :: 'e' :: r => some (.boolean false, r)
  | _ => none

-- A value that holds no other values.
def readScalar : Reader Scalar := fun s =>
  match s with
  | [] => none
  | c :: _ =>
    if c = '"' || c = '\'' then (readString s).map fun (v, r) => (.string v, r)
    else if c = 't' || c = 'f' then readWord s
    else if startsDate s || startsTime s then (readDateTime s).map fun (v, r) => (.dateTime v, r)
    else readNumeral s

def readLeaf : Reader Node := fun s => (readScalar s).map fun (v, r) => (.scalar v, r)

-- A value inside of which brackets and braces may nest this deep.
def readValue : Nat → Reader Node
  | _, [] => none
  | 0, c :: r => if c = '[' || c = '\x7b' then none else readLeaf (c :: r)
  | n + 1, c :: r =>
    if c = '[' then (readArray (readValue n) r).map fun (ns, t) => (.list ns, t)
    else if c = '\x7b' then readBraces (readValue n) r
    else readLeaf (c :: r)

end Roster.Toml
