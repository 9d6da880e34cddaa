import Roster.Bytes

-- How an error that ends a run is reported: by its text and, where the environment asks for them, by
-- the calls that have led to it.

namespace Roster.Report

-- The values of the two variables that may ask for the calls, where they are set.
structure Environment where
  library : Option Bytes := none
  general : Option Bytes := none
deriving DecidableEq, Repr

def libraryVariable : String := "RUST_LIB_BACKTRACE"
def generalVariable : String := "RUST_BACKTRACE"

-- Every text asks for the calls but a zero. A value that is no text says nothing.
def asks (value : Option Bytes) : Option Bool := (value.bind Bytes.text?).map (· ≠ "0")

-- The general variable counts if the other one says nothing.
def isTraced (env : Environment) : Bool := ((asks env.library).or (asks env.general)).getD false

def text (message : String) (env : Environment) (calls : String) : String :=
  "Error: " ++ message ++ (if isTraced env then "\n\nStack backtrace:\n" ++ calls else "") ++ "\n"

end Roster.Report
