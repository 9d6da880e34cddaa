import Roster.Bytes

-- Paths as byte strings. Two paths are the same when they take the same steps, so repeated and
-- trailing separators do not matter, nor does a step `.` that is not the first one. A step `..`
-- always matters, for what it undoes may be a link.

namespace Roster.Path

def slash : UInt8 := 0x2F
def dot : Bytes := [0x2E]
def dotdot : Bytes := [0x2E, 0x2E]

-- The stretches between separators, empty ones included. A path has at least one.
def pieces : Bytes → List Bytes
  | [] => [[]]
  | b :: r =>
    if b = slash then [] :: pieces r
    else match pieces r with
      | [] => [[b]]
      | p :: ps => (b :: p) :: ps

def isRooted (p : Bytes) : Bool := p.head? = some slash

-- The pieces that are steps wherever they stand.
def plainSteps (ps : List Bytes) : List Bytes := ps.filter fun s => s ≠ [] ∧ s ≠ dot

def steps (p : Bytes) : List Bytes :=
  match pieces p with
  | s :: ps => if s = dot then dot :: plainSteps ps else plainSteps (s :: ps)
  | [] => []

def same (p q : Bytes) : Bool := isRooted p = isRooted q ∧ steps p = steps q

end Roster.Path
