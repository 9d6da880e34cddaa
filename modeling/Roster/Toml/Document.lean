import Roster.Toml.Read

-- Documents: lines of entries, comments and headers, and the table that they define.

namespace Roster.Toml

inductive Line
  | entry (e : Entry)
  | header (isItem : Bool) (key : Key)
deriving Repr

-- A header behind its first bracket.
def readHeader (s : List Char) : Option (Line × List Char) :=
  match s with
  | '[' :: r => do
    let (key, r) ← readKey r
    match r with
    | ']' :: ']' :: t => return (.header true key, t)
    | _ => none
  | _ => do
    let (key, r) ← readKey s
    match r with
    | ']' :: t => return (.header false key, t)
    | _ => none

def readLine : Reader Line := fun s =>
  match s with
  | '[' :: r => readHeader r
  | _ => (readEntry (readValue depthLimit) s).map fun (e, r) => (.entry e, r)

-- The lines that define something, in order.
-- The check on the length never fails, since every such line takes up a character.
def readLines (s : List Char) : Option (List Line) :=
  match _hs : skipWs s with
  | [] => some []
  | c :: r =>
    if c = '#' then
      match _h : lineEnd? (skipComment r) with
      | some r' => readLines r'
      | none => none
    else match _h : newline? (c :: r) with
      | some r' => readLines r'
      | none => do
        let (line, t) ← readLine (c :: r)
        let t ← restOfLine? t
        if t.length < s.length then
          let lines ← readLines t
          return line :: lines
        else none
termination_by s.length
decreasing_by
  · have h1 := length_lineEnd?_le _h
    have h2 := length_skipComment_le r
    have h3 := length_skipWs_le s
    simp only [_hs, List.length_cons] at h3
    omega
  · have h1 := length_newline?_lt _h
    have h3 := length_skipWs_le s
    rw [_hs] at h3
    omega
  · assumption

-- The entries in front of the first header, and the sections that the headers open.
structure Document where
  entries : List Entry
  sections : List Section
deriving Repr

def Document.ofLines : List Line → Document
  | [] => ⟨[], []⟩
  | .entry e :: r => let d := ofLines r; ⟨e :: d.entries, d.sections⟩
  | .header isItem key :: r => let d := ofLines r; ⟨[], ⟨isItem, key, d.entries⟩ :: d.sections⟩

-- One byte order mark may stand at the start of a text.
def skipMark (s : List Char) : List Char :=
  match s with
  | '\uFEFF' :: r => r
  | _ => s

def Document.read? (text : String) : Option Document :=
  (readLines (skipMark text.toList)).map .ofLines

def Document.draft? (d : Document) : Option Draft := do
  let top ← assignAll d.entries []
  d.sections.foldlM Section.addTo top

def Document.table? (d : Document) : Option Table := d.draft?.bind finishEntries

-- The table that a text defines, if it is a document.
def read? (text : String) : Option Table := (Document.read? text).bind Document.table?

end Roster.Toml
