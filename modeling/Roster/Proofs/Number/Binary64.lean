import Mathlib
import Roster.Number.Binary64

namespace Roster.Number.Binary64

variable {n d k num den : Nat} {e : Int} {x y : Binary64}

section RoundHalfEven

theorem roundHalfEven_cases (n : Nat) (hd : 0 < d) : ∃ q r, n = q * d + r ∧ r < d ∧
    roundHalfEven n d = if 2 * r < d then q
      else if d < 2 * r then q + 1
      else if q % 2 = 0 then q
      else q + 1 :=
  ⟨n / d, n % d, (Nat.div_add_mod' n d).symm, Nat.mod_lt n hd, rfl⟩

-- An even integer is reached from half a step below it on.
theorem le_roundHalfEven_iff (hd : 0 < d) (hk : k % 2 = 0) :
    k ≤ roundHalfEven n d ↔ 2 * (k * d) ≤ 2 * n + d := by
  obtain ⟨q, r, rfl, hr, heq⟩ := roundHalfEven_cases n hd
  have hle : k ≤ q → k * d ≤ q * d := fun h => Nat.mul_le_mul_right d h
  have hsame : k = q + 1 → k * d = q * d + d := by
    rintro rfl
    exact Nat.succ_mul q d
  have hgt : q + 2 ≤ k → q * d + 2 * d ≤ k * d := fun h => by
    rw [← Nat.add_mul]
    exact Nat.mul_le_mul_right d h
  rw [heq]
  -- The products count as atoms: nothing else about them is needed.
  generalize k * d = kd at *
  generalize q * d = qd at *
  split_ifs <;> omega

theorem roundHalfEven_bounds (n : Nat) (hd : 0 < d) :
    2 * n ≤ 2 * (roundHalfEven n d * d) + d ∧ 2 * (roundHalfEven n d * d) ≤ 2 * n + d := by
  obtain ⟨q, r, rfl, hr, heq⟩ := roundHalfEven_cases n hd
  have hsucc : (q + 1) * d = q * d + d := Nat.succ_mul q d
  rw [heq]
  split_ifs <;> omega

theorem roundHalfEven_le (hd : 0 < d) (h : n ≤ k * d) : roundHalfEven n d ≤ k := by
  obtain ⟨q, r, rfl, hr, heq⟩ := roundHalfEven_cases n hd
  have hq : q ≤ k := by
    by_contra hlt
    have hmul := Nat.mul_le_mul_right d (show k + 1 ≤ q by omega)
    rw [Nat.succ_mul] at hmul
    omega
  have hexact : q = k → r = 0 := by
    rintro rfl
    omega
  rw [heq]
  split_ifs <;> omega

end RoundHalfEven

section Rational

def toRat (x : Binary64) : ℚ := x.num / x.den

theorem toRat_eq (x : Binary64) : x.toRat = x.mant * 2 ^ x.exp := by
  have hnum : (x.num : ℚ) = x.mant * 2 ^ x.exp.toNat := by
    rw [num, Nat.pow_eq]
    push_cast
    rfl
  have hden : (x.den : ℚ) = 2 ^ (-x.exp).toNat := by
    rw [den, Nat.pow_eq]
    push_cast
    rfl
  rw [toRat, hnum, hden]
  rcases Int.le_total 0 x.exp with h | h
  · obtain ⟨m, hm⟩ := Int.eq_ofNat_of_zero_le h
    rw [hm]
    simp
  · obtain ⟨m, hm⟩ := Int.eq_ofNat_of_zero_le (a := -x.exp) (by omega)
    have hexp : x.exp = -(m : Int) := by omega
    rw [hexp]
    simp [div_eq_mul_inv]

theorem den_pos (x : Binary64) : 0 < x.den := Nat.pow_pos (by decide)

theorem num_pos (h : 0 < x.toRat) : 0 < x.num := by
  rw [Nat.pos_iff_ne_zero]
  intro h0
  rw [toRat, h0] at h
  simp at h

theorem toRat_nonneg (x : Binary64) : 0 ≤ x.toRat := by
  rw [toRat]
  positivity

theorem scale_pos (num : Nat) (hden : 0 < den) (e : Int) : 0 < (scale num den e).2 :=
  Nat.mul_pos hden (Nat.pow_pos (by decide))

theorem scale_ratio (num den : Nat) (e : Int) :
    ((scale num den e).1 : ℚ) / (scale num den e).2 = num / den / 2 ^ e := by
  have hnum : ((scale num den e).1 : ℚ) = num * 2 ^ (-e).toNat := by
    rw [scale, Nat.pow_eq]
    push_cast
    rfl
  have hden : ((scale num den e).2 : ℚ) = den * 2 ^ e.toNat := by
    rw [scale, Nat.pow_eq, Nat.pow_eq]
    push_cast
    rfl
  rw [hnum, hden]
  rcases Int.le_total 0 e with h | h
  · obtain ⟨m, rfl⟩ := Int.eq_ofNat_of_zero_le h
    simp [div_div]
  · obtain ⟨m, hm⟩ := Int.eq_ofNat_of_zero_le (a := -e) (by omega)
    have he : e = -(m : Int) := by omega
    rw [he]
    simp [div_eq_mul_inv, mul_right_comm]

-- The binary logarithm brackets the quotient between two powers.
theorem log2_bounds (hnum : 0 < num) (hden : 0 < den) :
    (2 : ℚ) ^ log2 num den ≤ num / den ∧ (num : ℚ) / den < 2 ^ (log2 num den + 1) := by
  have hnum' : (2 : ℚ) ^ Nat.log2 num ≤ num ∧ (num : ℚ) < 2 ^ (Nat.log2 num + 1) :=
    ⟨by exact_mod_cast Nat.log2_self_le hnum.ne', by exact_mod_cast Nat.lt_log2_self⟩
  have hden' : (2 : ℚ) ^ Nat.log2 den ≤ den ∧ (den : ℚ) < 2 ^ (Nat.log2 den + 1) :=
    ⟨by exact_mod_cast Nat.log2_self_le hden.ne', by exact_mod_cast Nat.lt_log2_self⟩
  have hpos : (0 : ℚ) < den := by exact_mod_cast hden
  let j : Int := (Nat.log2 num : Int) - (Nat.log2 den : Int)
  have hlow : (2 : ℚ) ^ (j - 1) ≤ num / den := by
    have hpow : (2 : ℚ) ^ (j - 1) = 2 ^ Nat.log2 num / 2 ^ (Nat.log2 den + 1) := by
      rw [← zpow_natCast, ← zpow_natCast, ← zpow_sub₀ two_ne_zero]
      congr 1
      push_cast
      ring
    rw [hpow]
    exact div_le_div₀ (by positivity) hnum'.1 hpos hden'.2.le
  have hhigh : (num : ℚ) / den < 2 ^ (j + 1) := by
    have hpow : (2 : ℚ) ^ (j + 1) = 2 ^ (Nat.log2 num + 1) / 2 ^ Nat.log2 den := by
      rw [← zpow_natCast, ← zpow_natCast, ← zpow_sub₀ two_ne_zero]
      congr 1
      push_cast
      ring
    rw [hpow]
    exact div_lt_div₀ hnum'.2 hden'.1 (by positivity) (by positivity)
  have hscale : (scale num den j).2 ≤ (scale num den j).1 ↔ (2 : ℚ) ^ j ≤ num / den := by
    have hd : (0 : ℚ) < (scale num den j).2 := by exact_mod_cast scale_pos num hden j
    have hratio : (1 : ℚ) ≤ (scale num den j).1 / (scale num den j).2 ↔ (2 : ℚ) ^ j ≤ num / den := by
      rw [scale_ratio, one_le_div₀ (by positivity)]
    rw [← hratio, one_le_div₀ hd]
    exact_mod_cast Iff.rfl
  have hlog : log2 num den = if (scale num den j).2 ≤ (scale num den j).1 then j else j - 1 := rfl
  rw [hlog]
  by_cases h : (scale num den j).2 ≤ (scale num den j).1
  · rw [if_pos h]
    exact ⟨hscale.1 h, hhigh⟩
  · rw [if_neg h, sub_add_cancel]
    exact ⟨hlow, lt_of_not_ge (mt hscale.2 h)⟩

end Rational

section Rounding

-- The binary place that is rounded to, and the number of steps of that size.
def stepExp (num den : Nat) : Int := max (log2 num den - 52) minExp

def steps (num den : Nat) : Nat :=
  roundHalfEven (scale num den (stepExp num den)).1 (scale num den (stepExp num den)).2

-- The result, were there no greatest exponent.
def rounded (num den : Nat) : Binary64 :=
  if steps num den = 2 * leastNormal then ⟨leastNormal, stepExp num den + 1⟩
  else ⟨steps num den, stepExp num den⟩

theorem ofRatio_eq (hnum : 0 < num) (den : Nat) :
    ofRatio num den =
      if (rounded num den).exp ≤ maxExp then some (rounded num den) else none :=
  if_neg hnum.ne'

theorem ofRatio_eq_some_iff (hnum : 0 < num) :
    ofRatio num den = some x ↔ (rounded num den).exp ≤ maxExp ∧ rounded num den = x := by
  rw [ofRatio_eq hnum]
  by_cases h : (rounded num den).exp ≤ maxExp
  · simp [h]
  · simp [h]

theorem toRat_rounded (num den : Nat) :
    (rounded num den).toRat = steps num den * 2 ^ stepExp num den := by
  rw [rounded, toRat_eq]
  by_cases hcarry : steps num den = 2 * leastNormal
  · have hsteps : (steps num den : ℚ) = 2 * leastNormal := by
      rw [hcarry]
      push_cast
      rfl
    rw [if_pos hcarry, hsteps, zpow_add_one₀ two_ne_zero]
    ring
  · rw [if_neg hcarry]

theorem quotient_lt (hnum : 0 < num) (hden : 0 < den) :
    (num : ℚ) / den / 2 ^ stepExp num den < 2 ^ 53 := by
  have hle : log2 num den + 1 ≤ stepExp num den + 53 := by
    unfold stepExp
    omega
  rw [div_lt_iff₀ (by positivity), ← zpow_natCast, ← zpow_add₀ two_ne_zero]
  calc (num : ℚ) / den < 2 ^ (log2 num den + 1) := (log2_bounds hnum hden).2
    _ ≤ 2 ^ ((53 : Nat) + stepExp num den) := zpow_le_zpow_right₀ one_le_two (by push_cast; omega)

-- Above the smallest numbers the quotient has 53 places in front of the point.
theorem le_quotient (hnum : 0 < num) (hden : 0 < den) (h : stepExp num den ≠ minExp) :
    2 ^ 52 ≤ (num : ℚ) / den / 2 ^ stepExp num den := by
  have heq : stepExp num den = log2 num den - 52 := by
    unfold stepExp at *
    omega
  rw [le_div_iff₀ (by positivity), heq, ← zpow_natCast, ← zpow_add₀ two_ne_zero]
  have hexp : ((52 : Nat) : Int) + (log2 num den - 52) = log2 num den := by omega
  rw [hexp]
  exact (log2_bounds hnum hden).1

theorem steps_le (hnum : 0 < num) (hden : 0 < den) : steps num den ≤ 2 ^ 53 := by
  have hpos := scale_pos num hden (stepExp num den)
  apply roundHalfEven_le hpos
  have hlt := quotient_lt hnum hden
  rw [← scale_ratio, div_lt_iff₀ (by exact_mod_cast hpos)] at hlt
  exact_mod_cast hlt.le

theorem abs_steps_sub_le (num : Nat) (hden : 0 < den) :
    |(steps num den : ℚ) - num / den / 2 ^ stepExp num den| ≤ 1 / 2 := by
  rw [← scale_ratio, steps]
  generalize hn : (scale num den (stepExp num den)).1 = n
  generalize hd : (scale num den (stepExp num den)).2 = d
  have hpos : 0 < d := hd ▸ scale_pos num hden _
  have hpos' : (0 : ℚ) < d := by exact_mod_cast hpos
  obtain ⟨hlow, hhigh⟩ := roundHalfEven_bounds n hpos
  have hlow' : 2 * (n : ℚ) ≤ 2 * (roundHalfEven n d * d) + d := by exact_mod_cast hlow
  have hhigh' : 2 * ((roundHalfEven n d : ℚ) * d) ≤ 2 * n + d := by exact_mod_cast hhigh
  rw [abs_sub_le_iff, sub_le_iff_le_add, sub_le_iff_le_add, div_le_iff₀ hpos', ← sub_le_iff_le_add',
    le_div_iff₀ hpos']
  constructor <;> linarith

-- Half a step above the greatest double is rounded up, as the step below is odd.
theorem steps_eq_iff (hnum : 0 < num) (hden : 0 < den) :
    steps num den = 2 ^ 53 ↔ 2 ^ 53 - 1 / 2 ≤ (num : ℚ) / den / 2 ^ stepExp num den := by
  have hle := steps_le hnum hden
  have hpos := scale_pos num hden (stepExp num den)
  have hpos' : (0 : ℚ) < (scale num den (stepExp num den)).2 := by exact_mod_cast hpos
  have hiff : 2 ^ 53 ≤ steps num den ↔
      2 * (2 ^ 53 * (scale num den (stepExp num den)).2) ≤
        2 * (scale num den (stepExp num den)).1 + (scale num den (stepExp num den)).2 :=
    le_roundHalfEven_iff hpos (by norm_num)
  have heq : steps num den = 2 ^ 53 ↔ 2 ^ 53 ≤ steps num den := ⟨ge_of_eq, fun h => le_antisymm hle h⟩
  rw [heq, hiff, ← scale_ratio, le_div_iff₀ hpos', ← @Nat.cast_le ℚ]
  push_cast
  constructor <;> intro h <;> linarith

theorem exp_rounded (num den : Nat) : (rounded num den).exp =
    if steps num den = 2 ^ 53 then stepExp num den + 1 else stepExp num den := by
  have hcarry : 2 * leastNormal = 2 ^ 53 := by decide
  rw [rounded, hcarry, apply_ite Binary64.exp]

-- The bound that overflows, in half steps of the greatest doubles.
theorem overflow_bound : (2 ^ 1024 - 2 ^ 970 : ℚ) = (2 ^ 54 - 1) * 2 ^ (970 : Int) := by
  rw [zpow_ofNat, sub_one_mul, ← pow_add]

theorem word_le_unit : (2 : ℚ) ^ 64 ≤ 2 ^ (970 : Int) := by
  rw [← zpow_natCast]
  exact zpow_le_zpow_right₀ one_le_two (by decide)

theorem word_lt_overflow_bound : (2 ^ 64 : ℚ) < 2 ^ 1024 - 2 ^ 970 := by
  have hunit := word_le_unit
  rw [overflow_bound]
  generalize (2 : ℚ) ^ (970 : Int) = t at *
  linarith

-- Half a step above the greatest double a quotient overflows.
theorem ofRatio_eq_none_iff (hnum : 0 < num) (hden : 0 < den) :
    ofRatio num den = none ↔ 2 ^ 1024 - 2 ^ 970 ≤ (num : ℚ) / den := by
  have hnone : ofRatio num den = none ↔ maxExp < (rounded num den).exp := by
    rw [ofRatio_eq hnum]
    split <;> simp_all
  have hmax : maxExp = 971 := rfl
  have hunit : (0 : ℚ) < 2 ^ (970 : Int) := by positivity
  have hpow : (0 : ℚ) < 2 ^ stepExp num den := by positivity
  rw [hnone, exp_rounded, overflow_bound]
  rcases lt_trichotomy (stepExp num den) maxExp with hexp | hexp | hexp
  · -- Even if a step is carried, the exponent fits.
    have hlt := quotient_lt hnum hden
    have hle : (2 : ℚ) ^ stepExp num den ≤ 2 ^ (970 : Int) :=
      zpow_le_zpow_right₀ one_le_two (by omega)
    rw [div_lt_iff₀ hpow] at hlt
    have hsmall : (num : ℚ) / den < (2 ^ 54 - 1) * 2 ^ (970 : Int) := by
      generalize (2 : ℚ) ^ (970 : Int) = t at *
      linarith
    refine iff_of_false ?_ hsmall.not_ge
    split_ifs <;> omega
  · have hsteps := steps_eq_iff hnum hden
    have hbound : (2 ^ 53 - 1 / 2 : ℚ) * 2 ^ (971 : Int) = (2 ^ 54 - 1) * 2 ^ (970 : Int) := by
      have hdouble : (2 : ℚ) ^ (971 : Int) = 2 ^ (970 : Int) * 2 := zpow_add_one₀ two_ne_zero 970
      rw [hdouble]
      ring
    rw [hexp, hmax, le_div_iff₀ (by positivity), hbound] at hsteps
    rw [← hsteps, hexp]
    split_ifs with h
    · exact iff_of_true (Int.lt_succ _) h
    · exact iff_of_false (lt_irrefl _) h
  · have hne : stepExp num den ≠ minExp := by
      unfold minExp
      omega
    have hge := le_quotient hnum hden hne
    have hle : (2 : ℚ) ^ (970 : Int) * 4 ≤ 2 ^ stepExp num den := by
      have hquad : (2 : ℚ) ^ (970 : Int) * 4 = 2 ^ (972 : Int) := by
        rw [show (972 : Int) = 970 + 2 from rfl, zpow_add₀ two_ne_zero]
        norm_num
      rw [hquad]
      exact zpow_le_zpow_right₀ one_le_two (by omega)
    rw [le_div_iff₀ hpow] at hge
    have hlarge : (2 ^ 54 - 1) * 2 ^ (970 : Int) ≤ (num : ℚ) / den := by
      generalize (2 : ℚ) ^ (970 : Int) = t at *
      linarith
    refine iff_of_true ?_ hlarge
    split_ifs <;> omega

-- From one on, the result is off by at most one part in `2 ^ 53`.
theorem abs_toRat_sub_le (hden : 0 < den) (hone : 1 ≤ (num : ℚ) / den)
    (h : ofRatio num den = some x) : |x.toRat - num / den| ≤ num / den / 2 ^ 53 := by
  have hnum : 0 < num := by
    rw [Nat.pos_iff_ne_zero]
    rintro rfl
    norm_num at hone
  obtain ⟨-, rfl⟩ := (ofRatio_eq_some_iff hnum).1 h
  have hne : stepExp num den ≠ minExp := by
    intro hmin
    have hlt := quotient_lt hnum hden
    rw [hmin, div_lt_iff₀ (by positivity)] at hlt
    have hbound : (2 : ℚ) ^ 53 * 2 ^ minExp ≤ 1 := by
      rw [← zpow_natCast, ← zpow_add₀ two_ne_zero]
      exact zpow_le_one_of_nonpos₀ one_le_two (by decide)
    linarith
  have hpow : (0 : ℚ) < 2 ^ stepExp num den := by positivity
  have hstep := abs_steps_sub_le num hden
  have hge := le_quotient hnum hden hne
  rw [le_div_iff₀ hpow] at hge
  have hsplit : (rounded num den).toRat - num / den =
      (steps num den - num / den / 2 ^ stepExp num den) * 2 ^ stepExp num den := by
    rw [toRat_rounded, sub_mul, div_mul_cancel₀ _ hpow.ne']
  rw [hsplit, abs_mul, abs_of_pos hpow]
  calc |(steps num den : ℚ) - num / den / 2 ^ stepExp num den| * 2 ^ stepExp num den
      ≤ 1 / 2 * 2 ^ stepExp num den := mul_le_mul_of_nonneg_right hstep hpow.le
    _ ≤ num / den / 2 ^ 53 := by linarith

-- A quotient up to a power of two is not rounded beyond it.
theorem toRat_le_of_le (hnum : 0 < num) (hden : 0 < den) (hk : (num : ℚ) / den ≤ 2 ^ k)
    (h : ofRatio num den = some x) : x.toRat ≤ 2 ^ k := by
  obtain ⟨-, rfl⟩ := (ofRatio_eq_some_iff hnum).1 h
  have hpow : (0 : ℚ) < 2 ^ stepExp num den := by positivity
  rw [toRat_rounded]
  rcases le_or_gt (stepExp num den) k with hexp | hexp
  · -- The power of two is a whole number of steps.
    obtain ⟨j, hj⟩ := Int.eq_ofNat_of_zero_le (a := k - stepExp num den) (by omega)
    have hk' : (2 : ℚ) ^ k = 2 ^ j * 2 ^ stepExp num den := by
      rw [← zpow_natCast, ← zpow_natCast, ← zpow_add₀ two_ne_zero]
      congr 1
      omega
    have hpos := scale_pos num hden (stepExp num den)
    have hsteps : steps num den ≤ 2 ^ j := by
      apply roundHalfEven_le hpos
      rw [hk', ← div_le_iff₀ hpow, ← scale_ratio, div_le_iff₀ (by exact_mod_cast hpos)] at hk
      exact_mod_cast hk
    rw [hk']
    exact mul_le_mul_of_nonneg_right (by exact_mod_cast hsteps) hpow.le
  · have hne : stepExp num den ≠ minExp := by
      unfold minExp
      omega
    have hge := le_quotient hnum hden hne
    rw [le_div_iff₀ hpow] at hge
    have hlarge : (2 : ℚ) ^ k < 2 ^ stepExp num den := by
      rw [← zpow_natCast]
      exact zpow_lt_zpow_right₀ one_lt_two hexp
    have hpos : (0 : ℚ) < 2 ^ stepExp num den := hpow
    linarith

end Rounding

section Operations

theorem exists_ofNat (hn : 0 < n) (h : (n : ℚ) < 2 ^ 1024 - 2 ^ 970) :
    ∃ x, ofNat n = some x ∧ |x.toRat - n| ≤ n / 2 ^ 53 := by
  have hone : (1 : ℚ) ≤ (n : ℚ) / (1 : Nat) := by
    rw [Nat.cast_one, div_one]
    exact_mod_cast hn
  cases hx : ofRatio n 1 with
  | none =>
    rw [ofRatio_eq_none_iff hn one_pos, Nat.cast_one, div_one] at hx
    exact absurd hx h.not_ge
  | some x =>
    have hle := abs_toRat_sub_le one_pos hone hx
    rw [Nat.cast_one, div_one] at hle
    exact ⟨x, hx, hle⟩

theorem mul_ratio (x y : Binary64) :
    ((x.num * y.num : Nat) : ℚ) / (x.den * y.den : Nat) = x.toRat * y.toRat := by
  rw [toRat, toRat, div_mul_div_comm, Nat.cast_mul, Nat.cast_mul]

theorem div_ratio (x y : Binary64) :
    ((x.num * y.den : Nat) : ℚ) / (x.den * y.num : Nat) = x.toRat / y.toRat := by
  rw [toRat, toRat, div_div_div_eq, Nat.cast_mul, Nat.cast_mul]

theorem mul_eq_none_iff (hx : 0 < x.toRat) (hy : 0 < y.toRat) :
    x.mul y = none ↔ 2 ^ 1024 - 2 ^ 970 ≤ x.toRat * y.toRat := by
  rw [mul, ofRatio_eq_none_iff (Nat.mul_pos (num_pos hx) (num_pos hy))
    (Nat.mul_pos x.den_pos y.den_pos), mul_ratio]

-- Division by one or more never overflows.
theorem exists_div (hx : x.toRat ≤ 2 ^ 64) (hy : 1 ≤ y.toRat) :
    ∃ z, x.div y = some z ∧ z.toRat ≤ 2 ^ 64 := by
  have hden : 0 < x.den * y.num := Nat.mul_pos x.den_pos (num_pos (one_pos.trans_le hy))
  have hle : ((x.num * y.den : Nat) : ℚ) / (x.den * y.num : Nat) ≤ 2 ^ 64 := by
    rw [div_ratio]
    exact (div_le_self x.toRat_nonneg hy).trans hx
  rcases Nat.eq_zero_or_pos (x.num * y.den) with hzero | hpos
  · have hdiv : x.div y = some zero := by rw [div, hzero, ofRatio, if_pos rfl]
    have htoRat : zero.toRat = 0 := by simp [toRat_eq, zero]
    exact ⟨zero, hdiv, htoRat ▸ by positivity⟩
  · cases hz : ofRatio (x.num * y.den) (x.den * y.num) with
    | none =>
      rw [ofRatio_eq_none_iff hpos hden] at hz
      exact absurd (hz.trans hle) word_lt_overflow_bound.not_ge
    | some z => exact ⟨z, hz, toRat_le_of_le hpos hden hle hz⟩

end Operations

end Roster.Number.Binary64
