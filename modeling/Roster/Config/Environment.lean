import Roster.Config
import Roster.Error

-- Configs from environment variables.

namespace Roster.Config

-- The values of the two variables, where they are set.
structure Environment where
  backend : Option Bytes := none
  basePath : Option Bytes := none
deriving DecidableEq, Repr

def backendVariable : String := "USER_STORAGE_BACKEND"
def basePathVariable : String := "USER_STORAGE_BASE_PATH"

def readVariable (value : Bytes) : Except StorageError Backend :=
  match Bytes.text? value with
  | some s => Backend.parse s
  | none => .error (.config (backendVariable ++ " is not valid UTF-8: " ++ Bytes.quote value))

-- A path is taken as it is, whatever its bytes.
def ofEnvironment (env : Environment) : Except StorageError Config := do
  let c : Config := {}
  let backend ← (env.backend.map readVariable).getD (.ok c.backend)
  return { backend, basePath := env.basePath.getD c.basePath }

end Roster.Config
