import Roster.Json.Token

-- Passing over a value that nobody looks at. It has to be well formed, and may nest without limit:
-- the open brackets are kept on a stack, and each unit makes one step.

namespace Roster.Json

inductive Bracket
  | list
  | object
deriving DecidableEq, Repr

-- What may come next inside a value that is passed over.
inductive Place
  | value
  | valueOrClose
  | key
  | keyOrClose
  | colon
  | commaOrClose
deriving DecidableEq, Repr

structure Skip where
  place : Place
  stack : List Bracket
deriving DecidableEq, Repr

namespace Skip

def start : Skip := ⟨.value, []⟩

-- A value has ended inside these brackets. Outside all of them, so has the whole.
def ended : List Bracket → Option Skip
  | [] => none
  | stack => some ⟨.commaOrClose, stack⟩

-- `none` is the end of the value.
def value (stack : List Bracket) : Token → Except Flaw (Option Skip)
  | .mark .openBracket => .ok (some ⟨.valueOrClose, .list :: stack⟩)
  | .mark .openBrace => .ok (some ⟨.keyOrClose, .object :: stack⟩)
  | .mark _ => .error .malformed
  | _ => .ok (ended stack)

def key (stack : List Bracket) : Token → Except Flaw (Option Skip)
  | .string _ => .ok (some ⟨.colon, stack⟩)
  | _ => .error .malformed

def step (s : Skip) (t : Token) : Except Flaw (Option Skip) :=
  match s.place, s.stack with
  | .value, stack => value stack t
  | .valueOrClose, stack =>
    if t = .mark .closeBracket then .ok (ended stack.tail) else value stack t
  | .key, stack => key stack t
  | .keyOrClose, stack =>
    if t = .mark .closeBrace then .ok (ended stack.tail) else key stack t
  | .colon, stack => if t = .mark .colon then .ok (some ⟨.value, stack⟩) else .error .malformed
  | .commaOrClose, .list :: rest =>
    if t = .mark .comma then .ok (some ⟨.value, .list :: rest⟩)
    else if t = .mark .closeBracket then .ok (ended rest)
    else .error .malformed
  | .commaOrClose, .object :: rest =>
    if t = .mark .comma then .ok (some ⟨.key, .object :: rest⟩)
    else if t = .mark .closeBrace then .ok (ended rest)
    else .error .malformed
  | .commaOrClose, [] => .error .malformed

-- The flaw of a text that stops here.
def stopped (s : Skip) (stop : Stop) : Flaw :=
  match s.place with
  | .value | .valueOrClose => stop.atSkippedValue
  | .key | .keyOrClose => stop.atSkippedKey
  | .colon | .commaOrClose => stop.atMark

end Skip
end Roster.Json
