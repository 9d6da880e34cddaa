import Mathlib.Tactic.SplitIfs
import Roster.Json.Value
import Roster.Proofs.Json.Scan
import Roster.Proofs.Json.Write

namespace Roster.Json

section Strings

theorem exists_inside_of_spells {cs t : List Char} (h : Spells cs t) :
    ∃ ps, Inside ps t ∧ Piece.text? ps = some cs := by
  induction h with
  | nil => exact ⟨[], .nil, rfl⟩
  | @char c cs x t hc _ ih =>
    obtain ⟨ps, hps, ht⟩ := ih
    exact ⟨.char c :: ps, .cons hc hps, by rw [Piece.text?, ht]; rfl⟩
  | @pair high low cs x y t hh hl hhigh hlow _ ih =>
    obtain ⟨ps, hps, ht⟩ := ih
    refine ⟨.half high :: .half low :: ps, .cons hh (.cons hl hps), ?_⟩
    have hpair : (Piece.isHigh high && Piece.isLow low) = true := by
      have hh' : 0xD800 ≤ high := by
        cases hh with
        | half _ h _ => exact h
      have hl' : low < 0xE000 := by
        cases hl with
        | half _ _ h => exact h
      simp only [Piece.isHigh, Piece.isLow, Bool.and_eq_true, decide_eq_true_eq]
      omega
    rw [Piece.text?, if_pos hpair, ht]
    rfl

theorem spells_of_inside {ps : List Piece} {cs t : List Char} (h : Inside ps t)
    (ht : Piece.text? ps = some cs) : Spells cs t := by
  fun_induction Piece.text? ps generalizing t cs with
  | case1 =>
    cases h
    cases ht
    exact .nil
  | case2 c ps ih =>
    obtain ⟨cs', hcs, rfl⟩ := Option.map_eq_some_iff.1 ht
    cases h with
    | cons hc h => exact .char hc (ih h hcs)
  | case3 high low ps hpair ih =>
    obtain ⟨cs', hcs, rfl⟩ := Option.map_eq_some_iff.1 ht
    simp only [Piece.isHigh, Piece.isLow, Bool.and_eq_true, decide_eq_true_eq] at hpair
    cases h with
    | cons hh h =>
      cases h with
      | cons hl h => exact .pair hh hl (by omega) hpair.2.1 (ih h hcs)
  | case4 => cases ht
  | case5 => cases ht
  | case6 => cases ht

theorem textOf?_eq_some_iff {ps : List Piece} {s : String} :
    textOf? ps = some s ↔ Piece.text? ps = some s.toList := by
  rw [textOf?, Option.map_eq_some_iff]
  constructor
  · rintro ⟨cs, h, rfl⟩
    rw [h, String.toList_ofList]
  · intro h
    exact ⟨s.toList, h, String.ofList_toList⟩

theorem exists_spelling_of_stringText {s : String} {x : List Char} (h : StringText s x) :
    ∃ ps, Spelling (.string ps) x ∧ textOf? ps = some s := by
  obtain ⟨t, ht, rfl⟩ := h
  obtain ⟨ps, hps, hs⟩ := exists_inside_of_spells ht
  exact ⟨ps, .string hps, textOf?_eq_some_iff.2 hs⟩

theorem stringText_of_spelling {ps : List Piece} {s : String} {x : List Char}
    (h : Spelling (.string ps) x) (hs : textOf? ps = some s) : StringText s x := by
  cases h with
  | string h => exact ⟨_, spells_of_inside h (textOf?_eq_some_iff.1 hs), rfl⟩

end Strings

section Numbers

theorem exists_spelling_of_toDigits {m : Nat} (hm : m < wordLimit) :
    ∃ n, Spelling (.number n) (Nat.toDigits 10 m) ∧ n.real? = some (.integer m) := by
  refine ⟨_, .number (numberText_toDigits m), ?_⟩
  simp [Numeral.real?, Numeral.isInteger, Number.ofDecimal_toDigits, hm]

-- Only digits that stand alone are worth a number from zero on.
theorem eq_ofDigits_of_real? {n : Numeral} {m : Nat} (h : n.real? = some (.integer m)) :
    n = ⟨false, n.whole, none, none⟩ ∧ Number.ofDecimal n.whole = m := by
  obtain ⟨negative, w, f, e⟩ := n
  cases negative with
  | false =>
    simp only [Numeral.real?, Bool.false_eq_true, if_false] at h
    split_ifs at h with hi
    · simp only [Numeral.isInteger, Bool.and_eq_true, Option.isNone_iff_eq_none] at hi
      obtain ⟨rfl, rfl⟩ := hi.1
      simp only [Option.some.injEq, Real.integer.injEq, Int.natCast_inj] at h
      exact ⟨rfl, h⟩
    · obtain ⟨x, -, hx⟩ := Option.map_eq_some_iff.1 h
      cases hx
  | true =>
    simp only [Numeral.real?, if_true] at h
    split_ifs at h with hi
    · simp only [Bool.and_eq_true, decide_eq_true_eq] at hi
      simp only [Option.some.injEq, Real.integer.injEq] at h
      omega
    · obtain ⟨x, -, hx⟩ := Option.map_eq_some_iff.1 h
      cases hx

theorem toDigits_of_wholeText {w : List Char} (h : WholeText w) :
    Nat.toDigits 10 (Number.ofDecimal w) = w := by
  cases h with
  | zero => rfl
  | row h0 h => exact Number.toDigits_ofDecimal h0 fun c hc => isDigit_of_isDigit (h.2 c hc)

theorem eq_toDigits_of_spelling {n : Numeral} {m : Nat} {x : List Char}
    (hx : Spelling (.number n) x) (hn : n.real? = some (.integer m)) :
    x = Nat.toDigits 10 m := by
  obtain ⟨hplain, hm⟩ := eq_ofDigits_of_real? hn
  cases hx with
  | number hx =>
    rw [hplain] at hx
    cases hx with
    | plain hw hf he =>
      cases hf
      cases he
      rw [← hm, toDigits_of_wholeText hw, List.append_nil, List.append_nil]

theorem ofDecimal_eq_zero_iff {w : List Char} (h : WholeText w) :
    Number.ofDecimal w = 0 ↔ w = ['0'] := by
  constructor
  · intro hzero
    have hw := toDigits_of_wholeText h
    rw [hzero] at hw
    exact hw.symm
  · rintro rfl
    rfl

namespace Numeral

def minusZero : Numeral := ⟨true, ['0'], none, none⟩

-- A numeral without fraction and exponent writes an integer, unless it is minus zero.
structure Writes (n : Numeral) (i : Int) : Prop where
  fraction : n.fraction = none
  exponent : n.exponent = none
  ne_minusZero : n ≠ minusZero
  value : i = if n.negative then -(Number.ofDecimal n.whole : Int) else Number.ofDecimal n.whole

-- The integers of 64 bits, those above zero without a sign.
structure WritesWord (n : Numeral) (i : Int) : Prop extends n.Writes i where
  low : -9223372036854775808 ≤ i
  high : i ≤ 18446744073709551615

variable {n : Numeral} {i : Int} {x : List Char}

theorem real?_eq_integer_iff (hx : NumberText n x) :
    n.real? = some (.integer i) ↔ n.WritesWord i := by
  have choice {c : Prop} [Decidable c] {v : Int} {o : Option Real} (ho : ∀ v, o ≠ some (.integer v)) :
      (if c then some (.integer v) else o) = some (.integer i) ↔ c ∧ i = v := by
    split_ifs with hc
    · simp [hc, eq_comm]
    · simp [hc, ho i]
  have hdouble (v : Int) : n.double?.map (Real.double n.negative) ≠ some (.integer v) := by
    cases n.double? <;> simp
  have hreal : n.real? = some (.integer i) ↔ _ := choice hdouble
  rw [hreal, isInteger, Bool.and_eq_true, Bool.and_eq_true, Option.isNone_iff_eq_none,
    Option.isNone_iff_eq_none]
  cases hx with
  | @plain w x y f e hw hf he =>
    simp only [Bool.false_eq_true, if_false, decide_eq_true_eq]
    constructor
    · rintro ⟨⟨⟨hf, he⟩, hlt⟩, rfl⟩
      unfold wordLimit UInt64.size at hlt
      exact ⟨⟨hf, he, nofun, rfl⟩, by omega, by omega⟩
    · rintro ⟨h, -, hle⟩
      have hvalue : i = (Number.ofDecimal w : Int) := h.value
      unfold wordLimit UInt64.size
      exact ⟨⟨⟨h.fraction, h.exponent⟩, by omega⟩, hvalue⟩
  | @negative w x y f e hw hf he =>
    have hzero := ofDecimal_eq_zero_iff hw
    have hword (k : Nat) : Number.isWord (-(k : Int)) = true ↔ k ≤ 9223372036854775808 := by
      simp only [Number.isWord, Bool.and_eq_true, decide_eq_true_eq]
      unfold Number.leastWord Number.greatestWord
      omega
    simp only [if_true, Bool.and_eq_true, decide_eq_true_eq, hword]
    constructor
    · rintro ⟨⟨⟨rfl, rfl⟩, hpos, hle⟩, rfl⟩
      refine ⟨⟨rfl, rfl, ?_, rfl⟩, by omega, by omega⟩
      intro hminus
      cases hminus
      exact absurd hpos (by decide)
    · rintro ⟨h, hge, -⟩
      obtain rfl : f = none := h.fraction
      obtain rfl : e = none := h.exponent
      have hvalue : i = -(Number.ofDecimal w : Int) := h.value
      have hpos : 0 < Number.ofDecimal w := by
        rw [Nat.pos_iff_ne_zero, Ne, hzero]
        rintro rfl
        exact h.ne_minusZero rfl
      exact ⟨⟨⟨rfl, rfl⟩, hpos, by omega⟩, hvalue⟩

theorem Writes.unique {j : Int} (h : n.Writes i) (h' : n.Writes j) : i = j :=
  h.value.trans h'.value.symm

-- From zero on an integer has no sign.
theorem writesWord_natCast_iff (hx : NumberText n x) {k : Nat} (hk : k < wordLimit) :
    n.WritesWord k ↔ n.negative = false ∧ n.fraction = none ∧ n.exponent = none ∧
      Number.ofDecimal n.whole = k := by
  constructor
  · intro h
    obtain ⟨hn, hk⟩ := eq_ofDigits_of_real? ((real?_eq_integer_iff hx).2 h)
    rw [hn]
    exact ⟨rfl, rfl, rfl, hk⟩
  · rintro ⟨hsign, hf, he, hwhole⟩
    unfold wordLimit UInt64.size at hk
    refine ⟨⟨hf, he, ?_, ?_⟩, by omega, by omega⟩
    · rintro rfl
      cases hsign
    · rw [hsign, hwhole]
      rfl

-- Every other numeral is worth a double, if it is worth anything.
theorem real?_eq_double (h : ∀ i, n.real? ≠ some (.integer i)) :
    n.real? = n.double?.map (.double n.negative) := by
  unfold real? at h ⊢
  exact if_neg fun hi => h _ (if_pos hi)

end Numeral

end Numbers

end Roster.Json
