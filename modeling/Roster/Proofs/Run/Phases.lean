import Mathlib
import Roster.Proofs.Report
import Roster.Proofs.Run.Usage

namespace Roster.Run

open CommandLine

def noFiles : Surroundings where
  read := fun _ => .error .notFound

def badPath : Surroundings := { noFiles with config := { basePath := some [0xFF] } }

end Roster.Run
