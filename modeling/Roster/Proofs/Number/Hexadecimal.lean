import Roster.Number.Digit

namespace Roster.Number

theorem hexValue?_digitChar {d : Nat} (h : d < 16) :
    hexValue? d.digitChar = some d ∧ hexValue? d.digitChar.toUpper = some d := by
  have hall : ∀ m < 16, hexValue? m.digitChar = some m ∧
      hexValue? m.digitChar.toUpper = some m := by decide
  exact hall d h

theorem isSome_hexValue?_of_mem_toDigits {n : Nat} {c : Char} (h : c ∈ Nat.toDigits 16 n) :
    (hexValue? c).isSome := by
  have hdigit {d : Nat} (hd : d < 16) (hc : c ∈ [d.digitChar]) : (hexValue? c).isSome := by
    rw [List.mem_singleton.1 hc, (hexValue?_digitChar hd).1]
    rfl
  induction n using Nat.base_induction 16 (by decide) with
  | single m hm =>
    rw [Nat.toDigits_of_lt_base hm] at h
    exact hdigit hm h
  | digit m k hk hm ih =>
    rw [← Nat.toDigits_append_toDigits (by decide) hm hk, Nat.toDigits_of_lt_base hk] at h
    rcases List.mem_append.1 h with hfront | hlast
    · exact ih hfront
    · exact hdigit hk hlast

theorem ofBase_toDigits (n : Nat) : ofBase 16 (Nat.toDigits 16 n) = n := by
  induction n using Nat.base_induction 16 (by decide) with
  | single m hm =>
    rw [Nat.toDigits_of_lt_base hm]
    simp [ofBase, (hexValue?_digitChar hm).1]
  | digit m k hk hm ih =>
    rw [← Nat.toDigits_append_toDigits (by decide) hm hk, Nat.toDigits_of_lt_base hk, ofBase,
      List.foldl_append, ← ofBase, ih]
    simp [(hexValue?_digitChar hk).1, Nat.mul_comm]

end Roster.Number
