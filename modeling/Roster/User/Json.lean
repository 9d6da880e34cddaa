import Roster.User
import Roster.Json.Scan
import Roster.Json.Skip
import Roster.Json.Value
import Roster.Json.Write

-- Users as JSON.
--
-- A user is written as an object with its three members in a fixed order. It is read from such an
-- object in any order, with other members passed over, or from a list of the three values. Reading
-- makes one step for each unit of the text, so the first problem from the left is the one reported.

namespace Roster.User

open Json

def toJson (u : User) : String :=
  String.ofList <| "\x7b\"name\":".toList ++ writeString u.name ++ ",\"email\":".toList
    ++ writeString u.email ++ ",\"age\":".toList ++ Nat.toDigits 10 u.age.toNat ++ ['\x7d']

inductive Field
  | name
  | email
  | age
deriving DecidableEq, Repr

def Field.all : List Field := [.name, .email, .age]

def Field.label : Field → String
  | .name => "name"
  | .email => "email"
  | .age => "age"

def Field.labelled? (s : String) : Option Field := Field.all.find? fun f => f.label = s

-- The values read so far.
structure Slots where
  name : Option String := none
  email : Option String := none
  age : Option UInt32 := none
deriving DecidableEq, Repr

namespace Slots

def has (s : Slots) : Field → Bool
  | .name => s.name.isSome
  | .email => s.email.isSome
  | .age => s.age.isSome

-- The first field without a value is the one that is missing.
def user (s : Slots) : Except Problem User :=
  match s.name with
  | none => .error (.data (.missingField "name"))
  | some name =>
    match s.email with
    | none => .error (.data (.missingField "email"))
    | some email =>
      match s.age with
      | none => .error (.data (.missingField "age"))
      | some age => .ok ⟨name, email, age⟩

end Slots

def expected : String := "struct User"

def readText (t : Token) : Except Problem String :=
  match t with
  | .string pieces =>
    match textOf? pieces with
    | some s => .ok s
    | none => .error (.flaw .malformed)
  | t => .error (refuse t "a string")

def readAge (t : Token) : Except Problem UInt32 :=
  match t with
  | .number n =>
    match n.real? with
    | some (.integer i) =>
      match Number.word32? i with
      | some age => .ok age
      | none => .error (.data (.outOfRange (.integer i) "u32"))
    | _ => .error (refuse t "u32")
  | t => .error (refuse t "u32")

-- Reads the value of a field.
def Slots.fill (s : Slots) (f : Field) (t : Token) : Except Problem Slots :=
  match f with
  | .name => (readText t).map fun v => { s with name := some v }
  | .email => (readText t).map fun v => { s with email := some v }
  | .age => (readAge t).map fun v => { s with age := some v }

-- How far a text has been read. A member without a field is passed over.
inductive Reading
  | start
  | firstKey
  | key (slots : Slots)
  | colon (slots : Slots) (field : Option Field)
  | value (slots : Slots) (field : Option Field)
  | skipping (slots : Slots) (skip : Skip)
  | afterMember (slots : Slots)
  | firstElement
  | element (slots : Slots) (count : Nat)
  | afterElement (slots : Slots) (count : Nat)
  | finished (u : User)
deriving DecidableEq, Repr

namespace Reading

def readKey (slots : Slots) : Token → Except Problem Reading
  | .string pieces =>
    match textOf? pieces with
    | none => malformed
    | some k =>
      match Field.labelled? k with
      | none => .ok (.colon slots none)
      | some f =>
        if slots.has f then .error (.data (.duplicateField f.label))
        else .ok (.colon slots (some f))
  | _ => malformed

-- The element at this index of a list. A fourth one is never read.
def readElement (slots : Slots) (count : Nat) (t : Token) : Except Problem Reading :=
  match Field.all[count]? with
  | some f => (slots.fill f t).map fun slots => .afterElement slots (count + 1)
  | none => malformed

def skipStep (slots : Slots) (skip : Skip) (t : Token) : Except Problem Reading :=
  match skip.step t with
  | .error f => .error (.flaw f)
  | .ok none => .ok (.afterMember slots)
  | .ok (some next) => .ok (.skipping slots next)

def step (r : Reading) (t : Token) : Except Problem Reading :=
  match r with
  | .start =>
    if t = .mark .openBrace then .ok .firstKey
    else if t = .mark .openBracket then .ok .firstElement
    else .error (refuse t expected)
  | .firstKey =>
    if t = .mark .closeBrace then ({} : Slots).user.map .finished else readKey {} t
  | .key slots => readKey slots t
  | .colon slots f => if t = .mark .colon then .ok (.value slots f) else malformed
  | .value slots (some f) => (slots.fill f t).map .afterMember
  | .value slots none => skipStep slots Skip.start t
  | .skipping slots skip => skipStep slots skip t
  | .afterMember slots =>
    if t = .mark .comma then .ok (.key slots)
    else if t = .mark .closeBrace then slots.user.map .finished
    else malformed
  | .firstElement =>
    if t = .mark .closeBracket then
      .error (.data (.wrongLength 0 (expected ++ " with 3 elements")))
    else readElement {} 0 t
  | .element slots count => readElement slots count t
  | .afterElement slots count =>
    if t = .mark .closeBracket then
      if count = 3 then slots.user.map .finished
      else .error (.data (.wrongLength count (expected ++ " with 3 elements")))
    else if t = .mark .comma ∧ count < 3 then .ok (.element slots count)
    else malformed
  | .finished _ => malformed

-- What a text comes to that stops here.
def stopped (r : Reading) (stop : Stop) : Except Problem User :=
  match r with
  | .start | .value _ (some _) | .firstElement | .element _ _ => .error (.flaw stop.atValue)
  | .firstKey | .key _ => .error (.flaw stop.atKey)
  | .colon _ _ | .afterMember _ | .afterElement _ _ => .error (.flaw stop.atMark)
  | .value _ none => .error (.flaw (Skip.start.stopped stop))
  | .skipping _ skip => .error (.flaw (skip.stopped stop))
  | .finished u => if stop = .done then .ok u else malformed

end Reading

def ofTokens (ts : List Token) (stop : Stop) : Except Problem User :=
  match ts.foldlM Reading.step .start with
  | .error p => .error p
  | .ok r => r.stopped stop

def ofJson (text : String) : Except Problem User :=
  let (ts, stop) := scan text.toList
  ofTokens ts stop

end Roster.User
