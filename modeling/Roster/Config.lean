import Roster.Backend
import Roster.Path

-- What to open: a kind of storage, and the directory of a file storage.

namespace Roster

structure Config where
  backend : Backend := .memory
  basePath : Bytes := Bytes.ofString "./data"
deriving DecidableEq, Repr

namespace Config

-- Equal up to spellings of the path that take the same steps.
def same (a b : Config) : Bool := a.backend = b.backend ∧ Path.same a.basePath b.basePath

def inspect (c : Config) : String :=
  "StorageConfig \x7b backend: " ++ c.backend.inspect ++ ", base_path: "
    ++ Bytes.quote c.basePath ++ " \x7d"

end Config
end Roster
