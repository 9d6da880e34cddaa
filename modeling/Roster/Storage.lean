import Roster.Config
import Roster.Event
import Roster.Storage.Memory

-- Storages: users in memory, or a directory that is to hold them. Storing in files is not there
-- yet, so a file storage takes a user, says that it drops it, and finds nobody.

namespace Roster

inductive Storage
  | memory (m : Memory)
  | file (basePath : Bytes)

namespace Storage

def kind : Storage → Backend
  | .memory _ => .memory
  | .file _ => .file

def name (s : Storage) : String := s.kind.name

def status : Storage → Status
  | .memory _ => .ready
  | .file _ => .unimplemented

def save (u : User) : Storage → Storage × List Event
  | .memory m => (.memory (m.save u), [.stored u.email (m.load u.email).isSome])
  | .file basePath => (.file basePath, [.dropped u.email basePath])

def load (email : String) : Storage → Option User × List Event
  | .memory m => (m.load email, [])
  | .file _ => (none, [.missed email])

-- The storage that a config asks for. Only a file storage has use for a path.
def ofConfig (c : Config) : Storage :=
  match c.backend with
  | .memory => .memory .empty
  | .file => .file c.basePath

def openConfig (c : Config) : Storage × List Event :=
  let s := ofConfig c
  (s, [.opened s.kind s.status])

def inspectFile (basePath : Bytes) : String :=
  "FileStorage \x7b name: \"file\", base_path: " ++ Bytes.quote basePath ++ " \x7d"

def inspect : Storage → String
  | .memory m => m.inspect
  | .file basePath => inspectFile basePath

end Storage
end Roster
