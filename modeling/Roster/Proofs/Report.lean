import Mathlib
import Roster.Proofs.Bytes.Utf8
import Roster.Report

namespace Roster.Report

-- Of the two variables the first one that is set to a text decides, and every text but a zero asks for
-- the calls that have led to an error.
def Asks (env : Environment) : Prop :=
  ∃ t, t ≠ "0" ∧ (env.library = some (Bytes.ofString t) ∨
    (∀ s, env.library ≠ some (Bytes.ofString s)) ∧ env.general = some (Bytes.ofString t))

end Roster.Report
