import Roster.Text.Blank

-- The kinds of storage, their names, and what a kind can do at present.

namespace Roster

inductive Backend
  | memory
  | file
deriving DecidableEq, Repr, Inhabited

namespace Backend

def all : List Backend := [.memory, .file]

def name : Backend → String
  | .memory => "memory"
  | .file => "file"

-- The kind with exactly this name.
def named? (s : String) : Option Backend := all.find? fun k => k.name = s

-- People write names with blanks around them and in any case.
def parse? (s : String) : Option Backend :=
  named? (String.ofList (Text.foldCase (Text.trim s.toList)))

def inspect : Backend → String
  | .memory => "Memory"
  | .file => "File"

end Backend

inductive Status
  | ready
  | unimplemented
deriving DecidableEq, Repr

namespace Status

def name : Status → String
  | .ready => "ready"
  | .unimplemented => "unimplemented"

def inspect : Status → String
  | .ready => "Ready"
  | .unimplemented => "Unimplemented"

def isReady (s : Status) : Bool := s = .ready

end Status
end Roster
