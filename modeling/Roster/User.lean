import Roster.Text.Quoted

-- The records that storages keep.

namespace Roster

structure User where
  name : String
  email : String
  age : UInt32
deriving DecidableEq, Repr

-- The form in which a user is shown for inspection.
def User.inspect (u : User) : String :=
  "User \x7b name: " ++ Text.quote u.name ++ ", email: " ++ Text.quote u.email ++ ", age: "
    ++ toString u.age.toNat ++ " \x7d"

end Roster
