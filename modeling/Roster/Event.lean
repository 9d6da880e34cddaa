import Roster.Backend
import Roster.Bytes

-- What storages and the program report about what they do.

namespace Roster

inductive Level
  | error
  | warn
  | info
  | debug
  | trace
deriving DecidableEq, Repr

def Level.name : Level → String
  | .error => "ERROR"
  | .warn => "WARN"
  | .info => "INFO"
  | .debug => "DEBUG"
  | .trace => "TRACE"

inductive Event
  | opened (kind : Backend) (status : Status)
  | stored (email : String) (replaced : Bool)
  | removed (email : String)
  | dropped (email : String) (basePath : Bytes)
  | missed (email : String)
  | demoSaved (kind : Backend)
deriving DecidableEq, Repr

namespace Event

def level : Event → Level
  | .opened .. => .info
  | .stored .. => .debug
  | .removed .. => .debug
  | .dropped .. => .warn
  | .missed .. => .debug
  | .demoSaved .. => .info

-- The part of the program that reports it.
def source : Event → String
  | .opened .. => "user_storage::storage"
  | .stored .. | .removed .. => "user_storage::storage::memory"
  | .dropped .. | .missed .. => "user_storage::storage::file"
  | .demoSaved .. => "user_storage"

def message : Event → String
  | .opened kind status => "Opened " ++ kind.name ++ " storage (status: " ++ status.name ++ ")"
  | .stored email replaced =>
    "user已保存到内存存储: email=" ++ email ++ ", replaced=" ++ toString replaced
  | .removed email => "user已从内存存储删除: email=" ++ email
  | .dropped email basePath =>
    "file storage is not implemented, record dropped: email=" ++ email ++ ", base_path="
      ++ Bytes.display basePath
  | .missed email => "file storage is not implemented, returning absent: email=" ++ email
  | .demoSaved kind => "Saved user via " ++ kind.name ++ " backend"

end Event
end Roster
