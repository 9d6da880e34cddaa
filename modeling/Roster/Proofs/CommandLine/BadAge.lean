import Mathlib
import Roster.Proofs.CommandLine.Age
import Roster.Proofs.Json.Scan

namespace Roster.CommandLine

open Number

structure Parted (s sign ds rest : List Char) : Prop where
  eq : s = sign ++ (ds ++ rest)
  sign : sign = ['+'] ∨ sign = ['-'] ∨ sign = [] ∧ s.head? ≠ some '+' ∧ s.head? ≠ some '-'
  digits : ∀ d ∈ ds, isDigit d = true
  longest : ∀ c ∈ rest.head?, isDigit c = false

-- The number that a sign and digits write.
def signedValue (sign ds : List Char) : Int := withSign (sign = ['-']) (ofDecimal ds)

-- Why a text is no age. Digits that are too many for 64 bits come before anything behind them, and a
-- number that fits comes last.
inductive AgeRefused (s : List Char) : String → Prop
  | empty : s = [] → AgeRefused s "cannot parse integer from empty string"
  | tooLarge {sign ds rest : List Char} : Parted s sign ds rest → 2 ^ 63 ≤ signedValue sign ds →
    AgeRefused s "number too large to fit in target type"
  | tooSmall {sign ds rest : List Char} : Parted s sign ds rest → signedValue sign ds < -2 ^ 63 →
    AgeRefused s "number too small to fit in target type"
  | badDigit {sign ds rest : List Char} : s ≠ [] → Parted s sign ds rest →
    -2 ^ 63 ≤ signedValue sign ds → signedValue sign ds < 2 ^ 63 → ds = [] ∨ rest ≠ [] →
    AgeRefused s "invalid digit found in string"
  | outOfRange {sign ds : List Char} : Parted s sign ds [] → ds ≠ [] →
    -2 ^ 63 ≤ signedValue sign ds → signedValue sign ds < 2 ^ 63 →
    ¬(0 ≤ signedValue sign ds ∧ signedValue sign ds ≤ 4294967295) →
    AgeRefused s (toString (signedValue sign ds) ++ " is not in 0..=4294967295")

variable {s sign ds rest : List Char}

theorem exists_parted (s : List Char) : ∃ sign ds rest, Parted s sign ds rest := by
  have parts (r : List Char) : r = r.takeWhile isDigit ++ r.dropWhile isDigit :=
    List.takeWhile_append_dropWhile.symm
  have hdigits (r : List Char) : ∀ d ∈ r.takeWhile isDigit, isDigit d = true :=
    fun d hd => List.mem_takeWhile_imp hd
  have hlongest (r : List Char) : ∀ c ∈ (r.dropWhile isDigit).head?, isDigit c = false := by
    intro c hc
    have h := List.head?_dropWhile_not isDigit r
    rw [Option.mem_def.1 hc] at h
    simpa using h
  by_cases hsign : s.head? = some '+' ∨ s.head? = some '-'
  · cases s with
    | nil => simp at hsign
    | cons c r =>
      refine ⟨[c], r.takeWhile isDigit, r.dropWhile isDigit, ?_, ?_, hdigits r, hlongest r⟩
      · rw [← parts]
        rfl
      · simp only [List.head?_cons, Option.some.injEq] at hsign
        rcases hsign with rfl | rfl
        · exact .inl rfl
        · exact .inr (.inl rfl)
  · rw [not_or] at hsign
    exact ⟨[], s.takeWhile isDigit, s.dropWhile isDigit, parts s, .inr (.inr ⟨rfl, hsign⟩),
      hdigits s, hlongest s⟩

-- What the reader makes of the parts of a text that is not empty.
def integerOf (sign ds rest : List Char) : Except AgeProblem Int :=
  if signedValue sign ds < leastWord then .error .tooSmall
  else if greatestWord < signedValue sign ds then .error .tooLarge
  else if ds ≠ [] ∧ rest = [] then .ok (signedValue sign ds)
  else .error .badDigit

theorem extend_of_parted (h : Parted s sign ds rest) (hne : ds ++ rest ≠ []) :
    extend (sign = ['-']) 0 (ds ++ rest) = integerOf sign ds rest := by
  have hzero : withSign (sign = ['-']) 0 = 0 := by cases decide (sign = ['-']) <;> rfl
  have heq := extend_eq (sign = ['-']) 0 (ds ++ rest) (by rw [hzero]; decide)
  obtain ⟨htake, hdrop⟩ := Json.takeWhile_digits h.digits h.longest
  have hlast : (ds ≠ [] ∧ rest = []) = (rest = []) := by
    apply propext
    constructor
    · exact And.right
    · rintro rfl
      exact ⟨by simpa using hne, rfl⟩
  rw [hzero, htake, hdrop] at heq
  simp only [integerOf, hlast]
  exact heq

-- A sign alone counts as zero with a bad end.
theorem readInteger_signed {c : Char} (hc : c = '+' ∨ c = '-') (h : Parted s [c] ds rest) :
    readInteger (c :: (ds ++ rest)) = integerOf [c] ds rest := by
  have hnegative : decide (c = '-') = decide ([c] = ['-']) := by simp
  rw [readInteger, if_pos (by simpa using hc)]
  by_cases hne : ds ++ rest = []
  · obtain ⟨rfl, rfl⟩ := List.append_eq_nil_iff.1 hne
    have hzero : signedValue [c] [] = 0 := by
      unfold signedValue
      cases decide ([c] = ['-']) <;> rfl
    rw [if_pos hne, integerOf, hzero, if_neg (by decide), if_neg (by decide), if_neg (by simp)]
  · rw [if_neg hne, hnegative]
    exact extend_of_parted h hne

theorem readInteger_of_parted (h : Parted s sign ds rest) (hs : s ≠ []) :
    readInteger s = integerOf sign ds rest := by
  obtain rfl := h.eq
  rcases h.sign with rfl | rfl | ⟨rfl, hplus, hminus⟩
  · exact readInteger_signed (.inl rfl) h
  · exact readInteger_signed (.inr rfl) h
  · rw [List.nil_append] at *
    rw [← extend_of_parted h hs]
    cases hr : ds ++ rest with
    | nil => exact absurd hr hs
    | cons c r =>
      rw [hr, List.head?_cons] at hplus hminus
      have hc : ¬(c = '+' || c = '-') = true := by
        simp only [Bool.or_eq_true, decide_eq_true_eq]
        rintro (rfl | rfl)
        · exact hplus rfl
        · exact hminus rfl
      rw [readInteger, if_neg hc]
      rfl

theorem ne_nil_of_parted (h : Parted s sign ds rest) (hv : signedValue sign ds ≠ 0) : s ≠ [] := by
  rintro rfl
  obtain ⟨rfl, hrest⟩ := List.append_eq_nil_iff.1 h.eq.symm
  obtain ⟨rfl, -⟩ := List.append_eq_nil_iff.1 hrest
  exact hv rfl

theorem readAge_of_integerOf {p : AgeProblem} (h : Parted s sign ds rest) (hs : s ≠ [])
    (hp : integerOf sign ds rest = .error p) : readAge s = .error p := by
  rw [readAge, readInteger_of_parted h hs, hp]

theorem word32?_eq_none_iff {n : Int} : word32? n = none ↔ ¬(0 ≤ n ∧ n ≤ 4294967295) := by
  unfold word32? UInt32.size
  split <;> simp only [reduceCtorEq, false_iff, true_iff, not_not] <;> omega

theorem exists_readAge_of_refused {reason : String} (h : AgeRefused s reason) :
    ∃ p, readAge s = .error p ∧ p.message = reason := by
  have hleast : leastWord = -2 ^ 63 := by decide
  have hgreatest : greatestWord = 2 ^ 63 - 1 := by decide
  cases h with
  | empty hs =>
    rw [hs]
    exact ⟨.empty, rfl, rfl⟩
  | tooLarge hparts hlarge =>
    refine ⟨.tooLarge, readAge_of_integerOf hparts (ne_nil_of_parted hparts (by omega)) ?_, rfl⟩
    rw [integerOf, if_neg (by omega), if_pos (by omega)]
  | tooSmall hparts hsmall =>
    refine ⟨.tooSmall, readAge_of_integerOf hparts (ne_nil_of_parted hparts (by omega)) ?_, rfl⟩
    rw [integerOf, if_pos (by omega)]
  | badDigit hs hparts hlow hhigh hbad =>
    refine ⟨.badDigit, readAge_of_integerOf hparts hs ?_, rfl⟩
    have hend : ¬(_ ≠ [] ∧ _ = []) := fun hall => hbad.elim hall.1 fun hrest => hrest hall.2
    rw [integerOf, if_neg (by omega), if_neg (by omega), if_neg hend]
  | @outOfRange sign ds hparts hne hlow hhigh hout =>
    have hs : s ≠ [] := by
      rw [hparts.eq]
      simp [hne]
    have hread : readInteger s = .ok (signedValue sign ds) := by
      rw [readInteger_of_parted hparts hs, integerOf, if_neg (by omega), if_neg (by omega),
        if_pos ⟨hne, rfl⟩]
    refine ⟨.outOfRange (signedValue sign ds), ?_, rfl⟩
    simp only [readAge, hread, word32?_eq_none_iff.2 hout]

-- Whatever is wrong with a text, it is one of these faults.
theorem refused_of_readAge {p : AgeProblem} (h : readAge s = .error p) : AgeRefused s p.message := by
  have hleast : leastWord = -2 ^ 63 := by decide
  have hgreatest : greatestWord = 2 ^ 63 - 1 := by decide
  by_cases hs : s = []
  · rw [hs] at h
    cases h
    exact .empty hs
  obtain ⟨sign, ds, rest, hparts⟩ := exists_parted s
  rw [readAge, readInteger_of_parted hparts hs, integerOf] at h
  by_cases hsmall : signedValue sign ds < leastWord
  · rw [if_pos hsmall] at h
    cases h
    exact .tooSmall hparts (by omega)
  by_cases hlarge : greatestWord < signedValue sign ds
  · rw [if_neg hsmall, if_pos hlarge] at h
    cases h
    exact .tooLarge hparts (by omega)
  rw [if_neg hsmall, if_neg hlarge] at h
  by_cases hend : ds ≠ [] ∧ rest = []
  · obtain ⟨hne, rfl⟩ := hend
    rw [if_pos ⟨hne, rfl⟩] at h
    cases hword : word32? (signedValue sign ds) with
    | some age =>
      simp only [hword] at h
      cases h
    | none =>
      simp only [hword] at h
      cases h
      exact .outOfRange hparts hne (by omega) (by omega) (word32?_eq_none_iff.1 hword)
  · rw [if_neg hend] at h
    cases h
    rw [not_and_or, not_not] at hend
    exact .badDigit hs hparts (by omega) (by omega) hend

theorem ageRefused_iff {reason : String} :
    AgeRefused s reason ↔ ∃ p, readAge s = .error p ∧ p.message = reason := by
  constructor
  · exact exists_readAge_of_refused
  · rintro ⟨p, hp, rfl⟩
    exact refused_of_readAge hp

-- Digits that are too many are noticed before the letter behind them.
example : AgeRefused "-9223372036854775809x".toList "number too small to fit in target type" :=
  ageRefused_iff.2 ⟨.tooSmall, by decide, rfl⟩

end Roster.CommandLine
