import Mathlib
import Roster.Proofs.Json.Value
import Roster.Proofs.Number.Binary64

namespace Roster.Json

open Number

namespace Numeral

def decimals (n : Numeral) : List Char := n.fraction.getD []

-- The number that is written, without its sign.
def magnitude (n : Numeral) : ℚ :=
  ofDecimal (n.whole ++ n.decimals) * 10 ^ (n.power - n.decimals.length)

end Numeral

variable {n : Numeral} {x : Binary64} {s ks rest : List Char} {e : Int} {k : Nat}

theorem magnitude_of_writes {i : Int} (h : n.Writes i) : n.magnitude = |(i : ℚ)| := by
  have hvalue : |(i : ℚ)| = ofDecimal n.whole := by
    rw [h.value]
    split_ifs
    · rw [Int.cast_neg, abs_neg, Int.cast_natCast, Nat.abs_cast]
    · rw [Int.cast_natCast, Nat.abs_cast]
  have hdecimals : n.decimals = [] := by rw [Numeral.decimals, h.fraction, Option.getD_none]
  have hpower : n.power = 0 := by rw [Numeral.power, h.exponent]
  rw [hvalue, Numeral.magnitude, hdecimals, hpower, List.append_nil, List.length_nil, Nat.cast_zero,
    sub_zero, zpow_zero, mul_one]

theorem isDigit_of_numberText (h : NumberText n s) :
    (∀ d ∈ n.whole, isDigit d = true) ∧ ∀ d ∈ n.decimals, isDigit d = true := by
  have hwhole {w : List Char} (h : WholeText w) : ∀ d ∈ w, isDigit d = true := by
    cases h with
    | zero => exact fun d hd => List.mem_singleton.1 hd ▸ rfl
    | row _ h => exact fun d hd => isDigit_of_isDigit (h.2 d hd)
  have hdecimals {f : Option (List Char)} {y : List Char} (h : FractionText f y) :
      ∀ d ∈ f.getD [], isDigit d = true := by
    cases h with
    | absent => nofun
    | present h => exact fun d hd => isDigit_of_isDigit (h.2 d hd)
  cases h with
  | plain hw hf he => exact ⟨hwhole hw, hdecimals hf⟩
  | negative hw hf he => exact ⟨hwhole hw, hdecimals hf⟩

section Absorb

theorem absorb_eq (n : Nat) (ds : List Char) : ∃ ks rest, ds = ks ++ rest ∧
    absorb n ds = (continueDecimal n ks, ks.length) ∧
    ∀ d ∈ rest.head?, wordLimit ≤ continueDecimal n ks * 10 + digitValue d := by
  induction ds generalizing n with
  | nil => exact ⟨[], [], rfl, rfl, nofun⟩
  | cons d ds ih =>
    by_cases hfits : n * 10 + digitValue d < wordLimit
    · obtain ⟨ks, rest, rfl, heq, hrest⟩ := ih (n * 10 + digitValue d)
      refine ⟨d :: ks, rest, rfl, ?_, hrest⟩
      simp only [absorb, if_pos hfits, heq, continueDecimal_cons, List.length_cons]
    · refine ⟨[], d :: ds, rfl, ?_, fun c hc => ?_⟩
      · simp only [absorb, if_neg hfits]
        rfl
      · rw [← Option.mem_some.1 hc]
        exact Nat.le_of_not_lt hfits

theorem absorb_lt (h : k < wordLimit) (ds : List Char) : (absorb k ds).1 < wordLimit := by
  induction ds generalizing k with
  | nil => exact h
  | cons d ds ih =>
    by_cases hfits : k * 10 + digitValue d < wordLimit
    · simpa only [absorb, if_pos hfits] using ih hfits
    · simpa only [absorb, if_neg hfits] using h

-- A number that the next digit makes too long has at least sixty places.
theorem le_of_wordLimit_le {d : Char} (hd : isDigit d = true)
    (h : wordLimit ≤ k * 10 + digitValue d) : 2 ^ 60 ≤ k := by
  have hlt := digitValue_lt hd
  unfold wordLimit UInt64.size at h
  omega

-- Digits that are added behind a number leave its own digits in front.
theorem continueDecimal_bounds {ds : List Char} (h : ∀ d ∈ ds, isDigit d = true) (n : Nat) :
    n * 10 ^ ds.length ≤ continueDecimal n ds ∧ continueDecimal n ds < (n + 1) * 10 ^ ds.length := by
  induction ds generalizing n with
  | nil =>
    rw [List.length_nil, Nat.pow_zero, Nat.mul_one, Nat.mul_one]
    exact ⟨Nat.le_refl n, Nat.lt_succ_self n⟩
  | cons d ds ih =>
    obtain ⟨hlow, hhigh⟩ := ih (fun c hc => h c (List.mem_cons_of_mem d hc)) (n * 10 + digitValue d)
    have hd : digitValue d < 10 := digitValue_lt (h d List.mem_cons_self)
    have hsplit (m : Nat) : m * 10 ^ (d :: ds).length = m * 10 * 10 ^ ds.length := by
      rw [List.length_cons, Nat.pow_succ', Nat.mul_assoc]
    rw [continueDecimal_cons, hsplit, hsplit]
    constructor
    · exact Nat.le_trans (Nat.mul_le_mul_right _ (Nat.le_add_right (n * 10) _)) hlow
    · exact Nat.lt_of_lt_of_le hhigh (Nat.mul_le_mul_right _ (by omega))

-- Digits behind the first ones change a number by less than the last place of those.
theorem ofDecimal_bounds (ks : List Char) (hrest : ∀ d ∈ rest, isDigit d = true) (e : Int) :
    (ofDecimal ks : ℚ) * 10 ^ (rest.length + e) ≤ ofDecimal (ks ++ rest) * 10 ^ e ∧
      (ofDecimal (ks ++ rest) : ℚ) * 10 ^ e < (ofDecimal ks + 1) * 10 ^ (rest.length + e) := by
  obtain ⟨hlow, hhigh⟩ := continueDecimal_bounds hrest (ofDecimal ks)
  have hall : ofDecimal (ks ++ rest) = continueDecimal (ofDecimal ks) rest :=
    continueDecimal_append 0 ks rest
  have hpow : (0 : ℚ) < 10 ^ e := by positivity
  have hlow' : (ofDecimal ks : ℚ) * 10 ^ rest.length ≤ ofDecimal (ks ++ rest) := by
    rw [hall]
    exact_mod_cast hlow
  have hhigh' : (ofDecimal (ks ++ rest) : ℚ) < (ofDecimal ks + 1) * 10 ^ rest.length := by
    rw [hall]
    exact_mod_cast hhigh
  rw [zpow_add₀ (by norm_num), zpow_natCast, ← mul_assoc, ← mul_assoc]
  exact ⟨mul_le_mul_of_nonneg_right hlow' hpow.le, mul_lt_mul_of_pos_right hhigh' hpow⟩

-- Two numbers with the same leading digits, of which there are many.
theorem abs_sub_le_of_bounds {k t a b : ℚ} (hk : 2 ^ 60 ≤ k) (ht : 0 < t) (hlow : k * t ≤ a)
    (hhigh : a < (k + 1) * t) (hlow' : k * t ≤ b) (hhigh' : b < (k + 1) * t) :
    |b - a| ≤ a / 2 ^ 60 := by
  have hmul : 2 ^ 60 * t ≤ k * t := mul_le_mul_of_nonneg_right hk ht.le
  rw [abs_sub_le_iff]
  constructor <;> linarith

-- Once a digit in front of the point is left out, what is left of those behind it does not matter.
theorem abs_dropped_sub_le {ks' rest' : List Char} (hrest : ∀ d ∈ rest, isDigit d = true)
    (hks' : ∀ d ∈ ks', isDigit d = true) (hrest' : ∀ d ∈ rest', isDigit d = true)
    (hfull : ∀ d ∈ rest.head?, wordLimit ≤ ofDecimal ks * 10 + digitValue d)
    (hfull' : ∀ d ∈ rest'.head?, wordLimit ≤ ofDecimal (ks ++ ks') * 10 + digitValue d) (e : Int) :
    |(ofDecimal (ks ++ rest ++ (ks' ++ rest')) : ℚ) * 10 ^ (e - ks'.length - rest'.length) -
        ofDecimal (ks ++ ks') * 10 ^ (rest.length - ks'.length + e)| ≤
      ofDecimal (ks ++ ks') * 10 ^ (rest.length - ks'.length + e) / 2 ^ 60 := by
  have hpow (e : Int) : (0 : ℚ) < 10 ^ e := by positivity
  cases rest with
  | nil =>
    have hplace : ((List.length ([] : List Char) : Nat) : Int) - ks'.length + e = e - ks'.length := by
      simp [sub_eq_add_neg, add_comm]
    rw [List.append_nil, hplace]
    cases rest' with
    | nil =>
      simp only [List.append_nil, List.length_nil, Nat.cast_zero, sub_zero, sub_self, abs_zero]
      positivity
    | cons d rest' =>
      have hk := le_of_wordLimit_le (hrest' d List.mem_cons_self) (hfull' d rfl)
      have hbounds := ofDecimal_bounds (ks ++ ks') hrest' (e - ks'.length - (d :: rest').length)
      rw [add_sub_cancel, List.append_assoc] at hbounds
      have hself := lt_add_of_pos_right ((ofDecimal (ks ++ ks') : ℚ) * 10 ^ (e - ks'.length))
        (hpow (e - ks'.length))
      exact abs_sub_le_of_bounds (by exact_mod_cast hk) (hpow _) le_rfl
        (by rwa [add_one_mul]) hbounds.1 hbounds.2
  | cons d rest =>
    have hk := le_of_wordLimit_le (hrest d List.mem_cons_self) (hfull d rfl)
    have hbehind : ∀ c ∈ d :: rest ++ (ks' ++ rest'), isDigit c = true := by
      simp only [List.forall_mem_append]
      exact ⟨hrest, hks', hrest'⟩
    have htaken := ofDecimal_bounds ks hks' ((d :: rest).length - ks'.length + e)
    have hall := ofDecimal_bounds ks hbehind (e - ks'.length - rest'.length)
    have hplace : (ks'.length : Int) + ((d :: rest).length - ks'.length + e) =
        (d :: rest).length + e := by omega
    have hplace' : ((d :: rest ++ (ks' ++ rest')).length : Int) + (e - ks'.length - rest'.length) =
        (d :: rest).length + e := by
      rw [List.length_append, List.length_append]
      omega
    rw [hplace] at htaken
    rw [hplace', ← List.append_assoc] at hall
    exact abs_sub_le_of_bounds (by exact_mod_cast hk) (hpow _) htaken.1 htaken.2 hall.1 hall.2

-- The number that is computed with is almost the one that is written.
theorem exists_absorbed (hs : NumberText n s) :
    ∃ (a : Nat) (e : Int), a < wordLimit ∧
      n.double? = (Binary64.ofNat a).bind (timesPowerOfTen · e) ∧
      |n.magnitude - a * 10 ^ e| ≤ a * 10 ^ e / 2 ^ 60 := by
  obtain ⟨ks, rest, hks, hfront, hfull⟩ := absorb_eq 0 n.whole
  obtain ⟨ks', rest', hks', hall, hfull'⟩ := absorb_eq (ofDecimal ks) n.decimals
  have hfront' : absorb 0 n.whole = (ofDecimal ks, ks.length) := hfront
  have hsplit : continueDecimal (ofDecimal ks) ks' = ofDecimal (ks ++ ks') :=
    (continueDecimal_append 0 ks ks').symm
  rw [hsplit] at hall hfull'
  have hlt : ofDecimal (ks ++ ks') < wordLimit := by
    have hfront_lt := absorb_lt (k := 0) (by decide) n.whole
    rw [hfront'] at hfront_lt
    have hall_lt := absorb_lt hfront_lt n.decimals
    rwa [hall] at hall_lt
  refine ⟨ofDecimal (ks ++ ks'), rest.length - ks'.length + n.power, hlt, ?_, ?_⟩
  · have hscale : (n.whole.length : Int) - ks.length - ks'.length + n.power =
        rest.length - ks'.length + n.power := by
      rw [hks, List.length_append]
      omega
    unfold Numeral.decimals at hall
    unfold Numeral.double?
    simp only [hfront', hall, hscale]
  · obtain ⟨hwhole, hdecimals⟩ := isDigit_of_numberText hs
    rw [hks, List.forall_mem_append] at hwhole
    rw [hks', List.forall_mem_append] at hdecimals
    have hclose := abs_dropped_sub_le hwhole.2 hdecimals.1 hdecimals.2 hfull hfull' n.power
    rw [Numeral.magnitude, hks, hks', List.length_append]
    rwa [Nat.cast_add, sub_add_eq_sub_sub]

end Absorb

section Powers

theorem exists_power (hk : k ≤ 308) :
    ∃ p, Binary64.ofNat (Nat.pow 10 k) = some p ∧ |p.toRat - 10 ^ k| ≤ 10 ^ k / 2 ^ 53 := by
  have hnat : 10 ^ 308 + 2 ^ 970 < 2 ^ 1024 := by decide +kernel
  have hlt : (10 : ℚ) ^ 308 + 2 ^ 970 < 2 ^ 1024 := by exact_mod_cast hnat
  have hle : (10 : ℚ) ^ k ≤ 10 ^ 308 := pow_le_pow_right₀ (by norm_num) hk
  have hcast : ((Nat.pow 10 k : Nat) : ℚ) = 10 ^ k := by
    rw [Nat.pow_eq]
    push_cast
    rfl
  have hbound : ((Nat.pow 10 k : Nat) : ℚ) < 2 ^ 1024 - 2 ^ 970 := by
    rw [hcast]
    exact hle.trans_lt (lt_sub_iff_add_lt.2 hlt)
  obtain ⟨p, hp, hclose⟩ := Binary64.exists_ofNat (Nat.pow_pos (by decide)) hbound
  exact ⟨p, hp, hcast ▸ hclose⟩

theorem one_le_of_power {p : Binary64} (hk : 1 ≤ k) (h : |p.toRat - 10 ^ k| ≤ 10 ^ k / 2 ^ 53) :
    1 ≤ p.toRat := by
  have hten : (10 : ℚ) ≤ 10 ^ k := le_self_pow₀ (by norm_num) (by omega)
  have hlow := (abs_sub_le_iff.1 h).2
  linarith

-- Downwards nothing overflows, and no more than one word is to be divided.
theorem exists_timesPowerOfTen_of_neg (hx : x.toRat ≤ 2 ^ 64) (he : e < 0) :
    ∃ y, timesPowerOfTen x e = some y := by
  fun_induction timesPowerOfTen x e with
  | case1 x e hrange =>
    obtain ⟨p, hp, hclose⟩ := exists_power (k := e.natAbs) (by omega)
    obtain ⟨y, hy, -⟩ := Binary64.exists_div hx (one_le_of_power (by omega) hclose)
    rw [hp, Option.bind_some, if_neg (by omega)]
    exact ⟨y, hy⟩
  | case2 x e hrange hzero => exact ⟨x, rfl⟩
  | case3 x e hrange hzero hnonneg => omega
  | case4 x e hrange hzero hnonneg ih =>
    obtain ⟨p, hp, hclose⟩ := exists_power (k := 308) le_rfl
    obtain ⟨y, hy, hle⟩ := Binary64.exists_div hx (one_le_of_power (by omega) hclose)
    rw [hp, Option.bind_some, hy, Option.bind_some]
    exact ih y hle (by omega)

theorem exists_timesPowerOfTen_zero (e : Int) :
    ∃ y, timesPowerOfTen Binary64.zero e = some y := by
  have hofRatio (d : Nat) : Binary64.ofRatio 0 d = some Binary64.zero := by
    rw [Binary64.ofRatio, if_pos rfl]
  have hmul (p : Binary64) : Binary64.zero.mul p = some Binary64.zero := by
    rw [Binary64.mul, show Binary64.zero.num = 0 from rfl, Nat.zero_mul, hofRatio]
  have hdiv (p : Binary64) : Binary64.zero.div p = some Binary64.zero := by
    rw [Binary64.div, show Binary64.zero.num = 0 from rfl, Nat.zero_mul, hofRatio]
  rw [timesPowerOfTen]
  by_cases hrange : -308 ≤ e ∧ e ≤ 308
  · obtain ⟨p, hp, -⟩ := exists_power (k := e.natAbs) (by omega)
    rw [if_pos hrange, hp, Option.bind_some, hmul, hdiv, ite_self]
    exact ⟨_, rfl⟩
  · exact ⟨_, (if_neg hrange).trans (if_pos rfl)⟩

end Powers

section Bounds

-- The bounds of a numeral that is surely too large or surely not, in half steps.
theorem large_bound : (2 ^ 1024 + 2 ^ 972 : ℚ) = (2 ^ 54 + 4) * 2 ^ (970 : Int) := by
  have hquad : (2 : ℚ) ^ 972 = 2 ^ 2 * 2 ^ 970 := pow_add 2 2 970
  have hall : (2 : ℚ) ^ 1024 = 2 ^ 54 * 2 ^ 970 := pow_add 2 54 970
  rw [zpow_ofNat, hquad, hall, ← add_mul]
  congr 1

theorem word_lt_large_bound : (2 ^ 64 : ℚ) < 2 ^ 1024 + 2 ^ 972 := by
  have hpos : (0 : ℚ) < 2 ^ 970 ∧ (0 : ℚ) < 2 ^ 972 := ⟨by positivity, by positivity⟩
  calc (2 ^ 64 : ℚ) < 2 ^ 1024 - 2 ^ 970 := Binary64.word_lt_overflow_bound
    _ < 2 ^ 1024 := sub_lt_self _ hpos.1
    _ < 2 ^ 1024 + 2 ^ 972 := lt_add_of_pos_right _ hpos.2

theorem small_bound : (2 ^ 1024 - 3 * 2 ^ 971 : ℚ) = (2 ^ 54 - 6) * 2 ^ (970 : Int) := by
  have hdouble : (2 : ℚ) ^ 971 = 2 ^ 1 * 2 ^ 970 := pow_add 2 1 970
  have hall : (2 : ℚ) ^ 1024 = 2 ^ 54 * 2 ^ 970 := pow_add 2 54 970
  rw [zpow_ofNat, hdouble, hall, ← mul_assoc, ← sub_mul]
  congr 1
  norm_num

-- The least power of ten that a double does not hold is above both.
theorem power_bound : (2 ^ 55 : ℚ) * 2 ^ (970 : Int) ≤ 10 ^ (309 : Int) := by
  have hnat : 2 ^ 55 * 2 ^ 970 ≤ 10 ^ 309 := by decide +kernel
  rw [zpow_ofNat, zpow_ofNat]
  exact_mod_cast hnat

-- Between the two powers that a double holds, the product of the two roundings decides.
theorem exists_timesPowerOfTen_iff (hx : 0 < x.toRat) (hk : k ≤ 308) :
    ∃ p : ℚ, |p - 10 ^ k| ≤ 10 ^ k / 2 ^ 53 ∧
      (timesPowerOfTen x k = none ↔ 2 ^ 1024 - 2 ^ 970 ≤ x.toRat * p) := by
  obtain ⟨p, hp, hclose⟩ := exists_power hk
  have hpos : 0 < p.toRat := by
    have hlow := (abs_sub_le_iff.1 hclose).2
    have hten : (0 : ℚ) < 10 ^ k := by positivity
    linarith
  refine ⟨p.toRat, hclose, ?_⟩
  rw [timesPowerOfTen, if_pos (by omega), Int.natAbs_natCast, hp, Option.bind_some,
    if_pos (by omega), Binary64.mul_eq_none_iff hx hpos]

-- What the rounding of both factors does to their product.
theorem product_bounds {a q b p : ℚ} (ha : 0 < a) (hq : 0 < q) (hb : |b - a| ≤ a / 2 ^ 53)
    (hp : |p - q| ≤ q / 2 ^ 53) :
    a * q * (1 - 1 / 2 ^ 53) ^ 2 ≤ b * p ∧ b * p ≤ a * q * (1 + 1 / 2 ^ 53) ^ 2 := by
  have hb' := abs_sub_le_iff.1 hb
  have hp' := abs_sub_le_iff.1 hp
  have hblow : a * (1 - 1 / 2 ^ 53) ≤ b := by linarith
  have hplow : q * (1 - 1 / 2 ^ 53) ≤ p := by linarith
  have hbhigh : b ≤ a * (1 + 1 / 2 ^ 53) := by linarith
  have hphigh : p ≤ q * (1 + 1 / 2 ^ 53) := by linarith
  have hone : (0 : ℚ) < 1 - 1 / 2 ^ 53 := by norm_num
  have hbpos : 0 < b := (mul_pos ha hone).trans_le hblow
  have hppos : 0 < p := (mul_pos hq hone).trans_le hplow
  constructor
  · calc a * q * (1 - 1 / 2 ^ 53) ^ 2 = a * (1 - 1 / 2 ^ 53) * (q * (1 - 1 / 2 ^ 53)) := by ring
      _ ≤ b * p := mul_le_mul hblow hplow (mul_pos hq hone).le hbpos.le
  · calc b * p ≤ a * (1 + 1 / 2 ^ 53) * (q * (1 + 1 / 2 ^ 53)) :=
          mul_le_mul hbhigh hphigh hppos.le (by positivity)
      _ = a * q * (1 + 1 / 2 ^ 53) ^ 2 := by ring

theorem timesPowerOfTen_of_large (hx : 0 < x.toRat) (he : 308 < e) :
    timesPowerOfTen x e = none := by
  have hmant : x.mant ≠ 0 := by
    intro hzero
    rw [Binary64.toRat_eq, hzero, Nat.cast_zero, zero_mul] at hx
    exact lt_irrefl 0 hx
  rw [timesPowerOfTen]
  exact (if_neg (by omega)).trans ((if_neg hmant).trans (if_pos (by omega)))

theorem exists_ofNat_word (hpos : 0 < k) (hk : k < wordLimit) :
    ∃ x, Binary64.ofNat k = some x ∧ 0 < x.toRat ∧ x.toRat ≤ 2 ^ 64 ∧ |x.toRat - k| ≤ k / 2 ^ 53 := by
  have hpos' : (0 : ℚ) < k := by exact_mod_cast hpos
  have hword : (k : ℚ) < 2 ^ 64 := by exact_mod_cast hk
  obtain ⟨x, hx, hclose⟩ := Binary64.exists_ofNat hpos (hword.trans Binary64.word_lt_overflow_bound)
  have hlow := (abs_sub_le_iff.1 hclose).2
  have hle : x.toRat ≤ 2 ^ 64 := by
    refine Binary64.toRat_le_of_le hpos one_pos (k := 64) ?_ hx
    rw [Nat.cast_one, div_one]
    exact hword.le
  exact ⟨x, hx, by linarith, hle, hclose⟩

-- The leading digits, the power of ten and their product are each rounded, so close to the bound
-- the numeral alone does not tell. At a distance of three steps of the greatest doubles it does.
theorem double?_eq_none (hs : NumberText n s) (h : 2 ^ 1024 + 2 ^ 972 ≤ n.magnitude) :
    n.double? = none := by
  obtain ⟨a, e, ha, hdouble, hclose⟩ := exists_absorbed hs
  have hhigh := (abs_sub_le_iff.1 hclose).1
  rw [large_bound] at h
  have hunit := Binary64.word_le_unit
  have hpos : 0 < a := by
    rw [Nat.pos_iff_ne_zero]
    rintro rfl
    rw [Nat.cast_zero, zero_mul] at hhigh
    generalize (2 : ℚ) ^ (970 : Int) = t at *
    linarith
  have hpos' : (0 : ℚ) < a := by exact_mod_cast hpos
  obtain ⟨x, hx, hxpos, -, hround⟩ := exists_ofNat_word hpos ha
  rw [hdouble, hx, Option.bind_some]
  rcases lt_or_ge e 0 with hneg | hnonneg
  · -- Not even the greatest number that fits a word is so large.
    have hword : (a : ℚ) < 2 ^ 64 := by exact_mod_cast ha
    have hsmall : (a : ℚ) * 10 ^ e ≤ a :=
      mul_le_of_le_one_right hpos'.le (zpow_le_one_of_nonpos₀ (by norm_num) hneg.le)
    generalize (2 : ℚ) ^ (970 : Int) = t at *
    linarith
  · rcases le_or_gt e 308 with hle | hlarge
    · obtain ⟨k, rfl⟩ := Int.eq_ofNat_of_zero_le hnonneg
      obtain ⟨p, hp, hiff⟩ := exists_timesPowerOfTen_iff hxpos (k := k) (by omega)
      have hproduct := (product_bounds hpos' (by positivity) hround hp).1
      rw [zpow_natCast] at hhigh
      rw [hiff, Binary64.overflow_bound]
      generalize (2 : ℚ) ^ (970 : Int) = t at *
      linarith
    · exact timesPowerOfTen_of_large hxpos hlarge

theorem exists_double? (hs : NumberText n s) (h : n.magnitude ≤ 2 ^ 1024 - 3 * 2 ^ 971) :
    ∃ x, n.double? = some x := by
  obtain ⟨a, e, ha, hdouble, hclose⟩ := exists_absorbed hs
  have hlow := (abs_sub_le_iff.1 hclose).2
  have hunit : (0 : ℚ) < 2 ^ (970 : Int) := by positivity
  rw [small_bound] at h
  rw [hdouble]
  rcases Nat.eq_zero_or_pos a with rfl | hpos
  · exact exists_timesPowerOfTen_zero e
  have hpos' : (0 : ℚ) < a := by exact_mod_cast hpos
  obtain ⟨x, hx, hxpos, hxle, hround⟩ := exists_ofNat_word hpos ha
  rw [hx, Option.bind_some]
  rcases lt_or_ge e 0 with hneg | hnonneg
  · exact exists_timesPowerOfTen_of_neg hxle hneg
  · rcases le_or_gt e 308 with hle | hlarge
    · obtain ⟨k, rfl⟩ := Int.eq_ofNat_of_zero_le hnonneg
      obtain ⟨p, hp, hiff⟩ := exists_timesPowerOfTen_iff hxpos (k := k) (by omega)
      have hproduct := (product_bounds hpos' (by positivity) hround hp).2
      rw [zpow_natCast] at hlow
      rw [← Option.ne_none_iff_exists', Ne, hiff, Binary64.overflow_bound, not_le]
      generalize (2 : ℚ) ^ (970 : Int) = t at *
      linarith
    · -- The power of ten alone is too large already.
      have hone : (1 : ℚ) ≤ a := by exact_mod_cast hpos
      have hnum : (2 : ℚ) ^ 55 * 2 ^ (970 : Int) ≤ a * 10 ^ e :=
        calc (2 : ℚ) ^ 55 * 2 ^ (970 : Int) ≤ 10 ^ (309 : Int) := power_bound
          _ ≤ 10 ^ e := zpow_le_zpow_right₀ (by norm_num) (by omega)
          _ ≤ a * 10 ^ e := le_mul_of_one_le_left (by positivity) hone
      generalize (2 : ℚ) ^ (970 : Int) = t at *
      linarith

end Bounds

end Roster.Json
