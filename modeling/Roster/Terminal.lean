-- Text for a place that is no terminal: control sequences and controls are left out, white space
-- stays.

namespace Roster.Terminal

-- Inside of what a text stands: nothing, or one of the sequences that an escape character starts.
-- A device's string has a head, parameters and a tail before its text.
inductive State
  | ground
  | escape
  | escapeTail
  | control
  | command
  | deviceHead
  | deviceParameters
  | deviceTail
  | string
deriving DecidableEq, Repr

def escapeChar : Char := '\x1b'

-- Ends the styling of a stretch of text.
def reset : List Char := [escapeChar, '[', '0', 'm']

def isSpace (c : Char) : Bool := c = '\t' || c = '\n' || c = '\x0c' || c = '\r'

-- These end any sequence.
def isCancel (c : Char) : Bool := c = '\x18' || c = '\x1a'

-- Where a sequence goes on to by a printable ASCII character.
def advance (s : State) (c : Char) : State :=
  let n := c.toNat
  match s with
  | .ground => .ground
  | .escape =>
    if n ≤ 0x2F then .escapeTail
    else if c = '[' then .control
    else if c = ']' then .command
    else if c = 'P' then .deviceHead
    else if c = 'X' || c = '^' || c = '_' then .string
    else .ground
  | .escapeTail => if n ≤ 0x2F then .escapeTail else .ground
  | .control => if n ≤ 0x3F then .control else .ground
  | .command => .command
  | .deviceHead =>
    if n ≤ 0x2F then .deviceTail else if n ≤ 0x3F then .deviceParameters else .string
  | .deviceParameters =>
    if n ≤ 0x2F then .deviceTail else if n ≤ 0x3B then .deviceParameters else .string
  | .deviceTail => if n ≤ 0x2F then .deviceTail else .string
  | .string => .string

-- The last byte of a device's string, which may also be part of a character.
def stringEnd : UInt8 := 0x9C

-- Where a character beyond ASCII leads to. Only a device's string may end in the middle of one.
def advanceWide (s : State) (c : Char) : State :=
  if s = .string && (String.utf8EncodeChar c).contains stringEnd then .ground else s

-- Sequences in whose middle white space keeps its meaning.
def allowsSpace (s : State) : Bool :=
  s = .ground || s = .escape || s = .escapeTail || s = .control

-- The state behind a character, and whether the character is kept.
def step (s : State) (c : Char) : State × Bool :=
  let n := c.toNat
  if c = escapeChar then (.escape, false)
  else if isCancel c then (.ground, false)
  else if n = 0x7F then (s, false)
  else if 0x80 ≤ n then (advanceWide s c, s = .ground)
  else if n < 0x20 then
    (if s = .command && n = 0x07 then .ground else s, allowsSpace s && isSpace c)
  else (advance s c, s = .ground)

-- A stretch of kept characters goes on as if no sequence were open.
def keeps (c : Char) : Bool := (step .ground c).2

-- The state behind a character inside such a stretch. A sequence that was open before the stretch
-- goes on behind it, unless a character beyond ASCII stood in the stretch.
def resume (s : State) (c : Char) : State :=
  if c = escapeChar then .escape
  else if isCancel c || 0x80 ≤ c.toNat then .ground
  else s

-- `inStretch` tells whether the character before was kept.
def plainFrom (s : State) (inStretch : Bool) : List Char → List Char
  | [] => []
  | c :: r =>
    let (next, kept) := if inStretch then (resume s c, keeps c) else step s c
    if kept then c :: plainFrom next true r else plainFrom next false r

def plain (text : List Char) : List Char := plainFrom .ground false text

end Roster.Terminal
