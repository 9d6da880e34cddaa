-- How deeply the parts of a pattern nest.
--
-- What holds nothing has height zero. A row of parts is a part of its own only if there are two of
-- them at least: one part alone counts as itself, and none as nothing.

namespace Roster.Log.Pattern

def greatest (heights : List Nat) : Nat := heights.foldl max 0

def rowHeight : List Nat → Nat
  | [] => 0
  | [h] => h
  | hs => greatest hs + 1

-- Patterns of a greater height are refused.
def heightLimit : Nat := 250

end Roster.Log.Pattern
