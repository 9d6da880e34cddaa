import Mathlib.Data.List.Induction
import Roster.Number.Digit

namespace Roster.Number

theorem isDigit_iff {c : Char} : isDigit c = true ↔ '0'.toNat ≤ c.toNat ∧ c.toNat ≤ '9'.toNat := by
  simp only [isDigit, Bool.and_eq_true, decide_eq_true_eq, Char.le_def, UInt32.le_iff_toNat_le,
    Char.toNat]

theorem isDigit_eq (c : Char) : isDigit c = c.isDigit := by
  rw [Bool.eq_iff_iff, isDigit_iff, Char.isDigit_iff_toNat]

theorem continueDecimal_cons (n : Nat) (d : Char) (ds : List Char) :
    continueDecimal n (d :: ds) = continueDecimal (n * 10 + digitValue d) ds := by
  rw [continueDecimal, List.foldl_cons, continueDecimal]

theorem le_continueDecimal (n : Nat) (ds : List Char) : n ≤ continueDecimal n ds := by
  induction ds generalizing n with
  | nil => exact Nat.le_refl n
  | cons d ds ih =>
    rw [continueDecimal_cons]
    have := ih (n * 10 + digitValue d)
    omega

theorem continueDecimal_eq (n : Nat) (ds : List Char) :
    continueDecimal n ds = Nat.ofDigitChars 10 ds n := by
  induction ds generalizing n with
  | nil => rfl
  | cons d ds ih =>
    rw [continueDecimal_cons, ih, Nat.ofDigitChars_cons, Nat.mul_comm n 10]
    rfl

theorem continueDecimal_append (n : Nat) (ds es : List Char) :
    continueDecimal n (ds ++ es) = continueDecimal (continueDecimal n ds) es :=
  List.foldl_append

theorem ofDecimal_toDigits (n : Nat) : ofDecimal (Nat.toDigits 10 n) = n := by
  rw [ofDecimal, continueDecimal_eq, Nat.ofDigitChars_ten_toDigits]

theorem isDigit_of_mem_toDigits {n : Nat} {c : Char} (h : c ∈ Nat.toDigits 10 n) :
    isDigit c = true := by
  rw [isDigit_eq]
  exact Nat.isDigit_of_mem_toDigits (by decide) (by decide) h

theorem digitChar_ne_zero {n : Nat} (hn : n < 10) (h : n ≠ 0) : n.digitChar ≠ '0' := by
  have hd : ∀ m < 10, m ≠ 0 → m.digitChar ≠ '0' := by decide
  exact hd n hn h

-- No number but zero is written with a zero in front.
theorem toDigits_cases (n : Nat) :
    (n = 0 ∧ Nat.toDigits 10 n = ['0']) ∨
      (n ≠ 0 ∧ ∃ d ds, Nat.toDigits 10 n = d :: ds ∧ d ≠ '0') := by
  induction n using Nat.base_induction 10 (by decide) with
  | single m hm =>
    by_cases h : m = 0
    · exact .inl ⟨h, h ▸ rfl⟩
    · exact .inr ⟨h, _, [], Nat.toDigits_of_lt_base hm, digitChar_ne_zero hm h⟩
  | digit m k hk hm ih =>
    rcases ih with ⟨h, -⟩ | ⟨-, d, ds, hd, h0⟩
    · omega
    · refine .inr ⟨by omega, d, ds ++ Nat.toDigits 10 k, ?_, h0⟩
      rw [← Nat.toDigits_append_toDigits (by decide) hm hk, hd]
      rfl

theorem digitValue_lt {d : Char} (h : isDigit d = true) : digitValue d < 10 := by
  have hhigh := (isDigit_iff.1 h).2
  have h9 : '9'.toNat = '0'.toNat + 9 := by decide
  unfold digitValue
  omega

theorem toDigits_digitValue {d : Char} (h : isDigit d = true) :
    Nat.toDigits 10 (digitValue d) = [d] := by
  have hd : ∀ m < 10, Nat.digitChar m = Char.ofNat ('0'.toNat + m) := by decide
  have hlow := (isDigit_iff.1 h).1
  have hsum : '0'.toNat + digitValue d = d.toNat := by unfold digitValue; omega
  rw [Nat.toDigits_of_lt_base (digitValue_lt h), hd _ (digitValue_lt h), hsum, Char.ofNat_toNat]

-- A row of digits without a zero in front is how its number is written.
theorem toDigits_ofDecimal {d : Char} {ds : List Char} (h0 : d ≠ '0')
    (h : ∀ c ∈ d :: ds, isDigit c = true) :
    Nat.toDigits 10 (ofDecimal (d :: ds)) = d :: ds := by
  have hd : isDigit d = true := h d (by simp)
  have hpos : 0 < digitValue d := by
    have hlow := (isDigit_iff.1 hd).1
    have hne : d.toNat ≠ '0'.toNat := fun he => h0 (Char.toNat_inj.1 he)
    unfold digitValue
    omega
  have hfirst (ds : List Char) : ofDecimal (d :: ds) = continueDecimal (digitValue d) ds := by
    rw [ofDecimal, continueDecimal_cons, Nat.zero_mul, Nat.zero_add]
  induction ds using List.reverseRecOn with
  | nil =>
    rw [hfirst]
    exact toDigits_digitValue hd
  | append_singleton ds c ih =>
    have hc : isDigit c = true := h c (by simp)
    have hfront : 0 < ofDecimal (d :: ds) := by
      rw [hfirst]
      exact Nat.lt_of_lt_of_le hpos (le_continueDecimal _ ds)
    have hnext : ofDecimal (d :: (ds ++ [c])) = 10 * ofDecimal (d :: ds) + digitValue c := by
      rw [hfirst, hfirst, continueDecimal, List.foldl_append, Nat.mul_comm]
      rfl
    have hds : ∀ x ∈ d :: ds, isDigit x = true := fun x hx => h x (List.mem_append_left [c] hx)
    rw [hnext, ← Nat.toDigits_append_toDigits (by decide) hfront (digitValue_lt hc),
      toDigits_digitValue hc, ih hds]
    rfl

end Roster.Number
