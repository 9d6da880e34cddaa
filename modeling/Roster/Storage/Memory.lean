import Roster.Ordered
import Roster.User

-- Users kept in memory, one for each email. Emails are told apart character by character.

namespace Roster

structure Memory where
  users : List User := []
  sorted : Ordered.Sorted User.email users := by exact List.Pairwise.nil

namespace Memory

def empty : Memory := {}

def load (m : Memory) (email : String) : Option User := Ordered.find? User.email email m.users

def save (m : Memory) (u : User) : Memory :=
  ⟨Ordered.put User.email u m.users, Ordered.sorted_put User.email u m.sorted⟩

def remove (m : Memory) (email : String) : Memory :=
  ⟨Ordered.erase User.email email m.users, Ordered.sorted_erase User.email email m.sorted⟩

def size (m : Memory) : Nat := m.users.length

theorem load_save (m : Memory) (u : User) (email : String) :
    (m.save u).load email = if u.email = email then some u else m.load email :=
  Ordered.find?_put ..

theorem load_save_self (m : Memory) (u : User) : (m.save u).load u.email = some u := by
  rw [load_save, if_pos rfl]

theorem load_remove (m : Memory) (email other : String) :
    (m.remove email).load other = if other = email then none else m.load other :=
  Ordered.find?_erase ..

def inspect (m : Memory) : String :=
  let shown := m.users.map fun u => Text.quote u.email ++ ": " ++ u.inspect
  "MemoryStorage \x7b name: \"memory\", users: \x7b" ++ ", ".intercalate shown ++ "\x7d \x7d"

end Memory
end Roster
