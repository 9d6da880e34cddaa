import Roster.Config.Toml
import Roster.Files

-- Configs from files.

namespace Roster.Config

-- What reading a path gives.
abbrev FileReader := Bytes → Except ReadFailure Bytes

def fileProblem (path : Bytes) (text : String) : StorageError :=
  .config (Bytes.display path ++ ": " ++ text)

def ofFile (read : FileReader) (path : Bytes) : Except StorageError Config :=
  match read path with
  | .error failure => .error (fileProblem path failure.message)
  | .ok content =>
    match Bytes.text? content with
    | none => .error (fileProblem path "stream did not contain valid UTF-8")
    | some text => (ofToml text).mapError Refusal.error

end Roster.Config
