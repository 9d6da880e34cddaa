import Roster.Backend
import Roster.Json.Scan
import Roster.Json.Value
import Roster.Json.Write

-- Kinds of storage as JSON: the name as a string, exactly as it is written out, or as the one key
-- of an object whose value is null.

namespace Roster.Backend

open Json

def toJson (k : Backend) : String := String.ofList (writeString k.name)

-- How far a text has been read.
inductive Reading
  | start
  | key
  | colon (kind : Backend)
  | value (kind : Backend)
  | close (kind : Backend)
  | finished (kind : Backend)
deriving DecidableEq, Repr

namespace Reading

def readName (pieces : List Piece) : Except Problem Backend :=
  match textOf? pieces with
  | none => malformed
  | some s =>
    match named? s with
    | some k => .ok k
    | none => .error (.data (.unknownVariant s (all.map name)))

-- A key that is no string is as malformed as a mark in its place, a number or a word too.
def step (r : Reading) (t : Token) : Except Problem Reading :=
  match r, t with
  | .start, .string pieces => (readName pieces).map .finished
  | .start, .mark .openBrace => .ok .key
  | .start, _ => malformed
  | .key, .string pieces => (readName pieces).map .colon
  | .key, _ => malformed
  | .colon k, .mark .colon => .ok (.value k)
  | .colon _, _ => malformed
  | .value k, .null => .ok (.close k)
  | .value _, t => .error (refuse t "unit")
  | .close k, .mark .closeBrace => .ok (.finished k)
  | .close _, _ => malformed
  | .finished _, _ => malformed

-- What a text comes to that stops here. Only a string may stand at the start or as a key.
def stopped (r : Reading) (stop : Stop) : Except Problem Backend :=
  match r with
  | .start | .key => .error (.flaw stop.atKey)
  | .value _ => .error (.flaw stop.atValue)
  | .colon _ | .close _ => .error (.flaw stop.atMark)
  | .finished k => if stop = .done then .ok k else malformed

end Reading

def ofTokens (ts : List Token) (stop : Stop) : Except Problem Backend :=
  match ts.foldlM Reading.step .start with
  | .error p => .error p
  | .ok r => r.stopped stop

def ofJson (text : String) : Except Problem Backend :=
  let (ts, stop) := scan text.toList
  ofTokens ts stop

end Roster.Backend
