-- Integers that fit a word of fixed width.

namespace Roster.Number

-- The least and the greatest integer of 64 bits with a sign.
def leastWord : Int := -9223372036854775808
def greatestWord : Int := 9223372036854775807

def isWord (n : Int) : Bool := leastWord ≤ n && n ≤ greatestWord

-- The integer as 32 bits without a sign.
def word32? (n : Int) : Option UInt32 :=
  if 0 ≤ n ∧ n < UInt32.size then some (UInt32.ofNat n.toNat) else none

theorem word32?_eq_some_iff {n : Int} {age : UInt32} : word32? n = some age ↔ n = age.toNat := by
  have hlt := age.toNat_lt
  unfold word32? UInt32.size
  constructor
  · intro h
    split at h
    · rename_i hn
      cases h
      rw [UInt32.toNat_ofNat']
      omega
    · cases h
  · intro h
    subst h
    rw [if_pos (by omega)]
    simp

end Roster.Number
