import Roster.Backend
import Roster.Text.Quoted

-- The errors of a storage and of what leads up to one.

namespace Roster

inductive StorageError
  | unavailable (text : String)
  | unknownBackend (text : String)
  | config (text : String)
deriving DecidableEq, Repr

namespace StorageError

def code : StorageError → String
  | .unavailable _ => "storage_unavailable"
  | .unknownBackend _ => "unknown_backend"
  | .config _ => "config_error"

def message : StorageError → String
  | .unavailable text => "Storage unavailable: " ++ text
  | .unknownBackend text => "Unknown storage backend: " ++ text
  | .config text => "Configuration error: " ++ text

def inspect : StorageError → String
  | .unavailable text => "Unavailable(" ++ Text.quote text ++ ")"
  | .unknownBackend text => "UnknownBackend(" ++ Text.quote text ++ ")"
  | .config text => "Config(" ++ Text.quote text ++ ")"

end StorageError

-- The error carries the text as it was written, blanks included.
def Backend.parse (s : String) : Except StorageError Backend :=
  match Backend.parse? s with
  | some k => .ok k
  | none => .error (.unknownBackend s)

end Roster
