import Mathlib.Data.List.TakeWhile
import Roster.CommandLine.Age
import Roster.Proofs.Number.Decimal

namespace Roster.CommandLine

open Number

def withSign (negative : Bool) (n : Nat) : Int := if negative then -(n : Int) else n

-- An optional sign and digits that write this age.
def WritesAge (s : List Char) (age : UInt32) : Prop :=
  ∃ sign ds, s = sign ++ ds ∧ (sign = [] ∨ sign = ['+'] ∨ sign = ['-']) ∧ ds ≠ [] ∧
    (∀ d ∈ ds, isDigit d = true) ∧ withSign (sign = ['-']) (ofDecimal ds) = age.toNat

-- More digits never bring a number back into range.
theorem tooSmall_of_le {negative : Bool} {m n : Nat} (hle : m ≤ n)
    (h : withSign negative m < leastWord) : withSign negative n < leastWord := by
  unfold leastWord at *
  cases negative <;> simp only [withSign, if_true, Bool.false_eq_true, if_false] at * <;> omega

theorem tooLarge_of_le {negative : Bool} {m n : Nat} (hle : m ≤ n)
    (h : greatestWord < withSign negative m) : greatestWord < withSign negative n := by
  unfold greatestWord at *
  cases negative <;> simp only [withSign, if_true, Bool.false_eq_true, if_false] at * <;> omega

theorem withSign_extend (negative : Bool) (n d : Nat) :
    (if negative then withSign negative n * 10 - d else withSign negative n * 10 + d) =
      withSign negative (n * 10 + d) := by
  cases negative <;> simp only [withSign, if_true, Bool.false_eq_true, if_false] <;> omega

-- What becomes of a number when the digits in front of a text are put behind it.
theorem extend_eq (negative : Bool) (n : Nat) (s : List Char)
    (hn : isWord (withSign negative n) = true) :
    extend negative (withSign negative n) s =
      (let v := withSign negative (continueDecimal n (s.takeWhile isDigit))
      if v < leastWord then .error .tooSmall
      else if greatestWord < v then .error .tooLarge
      else if s.dropWhile isDigit = [] then .ok v
      else .error .badDigit) := by
  simp only [isWord, Bool.and_eq_true, decide_eq_true_eq] at hn
  have hnil : continueDecimal n [] = n := rfl
  induction s generalizing n with
  | nil =>
    simp only [extend, List.takeWhile_nil, List.dropWhile_nil, hnil, if_true]
    rw [if_neg (by omega), if_neg (by omega)]
  | cons c r ih =>
    by_cases hc : isDigit c = true
    · have hle := le_continueDecimal (n * 10 + digitValue c) (r.takeWhile isDigit)
      simp only [extend, if_pos hc, withSign_extend, List.takeWhile_cons, List.dropWhile_cons,
        continueDecimal_cons]
      by_cases hl : withSign negative (n * 10 + digitValue c) < leastWord
      · rw [if_pos hl, if_pos (tooSmall_of_le hle hl)]
      by_cases hg : greatestWord < withSign negative (n * 10 + digitValue c)
      · have hg' := tooLarge_of_le hle hg
        have hl' : leastWord < greatestWord := by decide
        rw [if_neg hl, if_pos hg, if_neg (by omega), if_pos hg']
      · rw [if_neg hl, if_neg hg]
        exact ih _ (by omega) rfl
    · simp only [extend, if_neg hc, List.takeWhile_cons, List.dropWhile_cons, hnil]
      rw [if_neg (by omega), if_neg (by omega), if_neg (List.cons_ne_nil c r)]

-- From zero on, a number is read when there are only digits and it fits 64 bits.
theorem extend_eq_ok_iff {negative : Bool} {s : List Char} {n : Int} :
    extend negative 0 s = .ok n ↔
      (∀ d ∈ s, isDigit d = true) ∧ n = withSign negative (ofDecimal s) ∧ isWord n = true := by
  have h0 : withSign negative 0 = 0 := by cases negative <;> rfl
  have heq := extend_eq negative 0 s (by rw [h0]; decide)
  rw [h0] at heq
  rw [heq, ← List.dropWhile_eq_nil_iff]
  simp only [isWord, Bool.and_eq_true, decide_eq_true_eq]
  have whole (hd : s.dropWhile isDigit = []) :
      continueDecimal 0 (s.takeWhile isDigit) = ofDecimal s := by
    have hs := List.takeWhile_append_dropWhile (p := isDigit) (l := s)
    rw [hd, List.append_nil] at hs
    rw [hs, ofDecimal]
  constructor
  · intro h
    split at h
    · cases h
    split at h
    · cases h
    split at h
    · rename_i hl hg hd
      rw [whole hd] at h hl hg
      cases h
      exact ⟨hd, rfl, by omega, by omega⟩
    · cases h
  · rintro ⟨hd, rfl, hl, hg⟩
    rw [whole hd, if_neg (by omega), if_neg (by omega), if_pos hd]

theorem readInteger_eq_ok_iff {s : List Char} {n : Int} :
    readInteger s = .ok n ↔ ∃ sign ds, s = sign ++ ds ∧
      (sign = [] ∨ sign = ['+'] ∨ sign = ['-']) ∧ ds ≠ [] ∧ (∀ d ∈ ds, isDigit d = true) ∧
      n = withSign (sign = ['-']) (ofDecimal ds) ∧ isWord n = true := by
  constructor
  · intro h
    cases s with
    | nil => cases h
    | cons c r =>
      rw [readInteger] at h
      split at h
      · rename_i hc
        split at h
        · cases h
        · rename_i hr
          obtain ⟨hd, hn, hw⟩ := extend_eq_ok_iff.1 h
          have hc' : c = '+' ∨ c = '-' := by simpa using hc
          refine ⟨[c], r, rfl, ?_, hr, hd, ?_, hw⟩
          · rcases hc' with rfl | rfl <;> simp
          · rw [hn]
            congr 1
            simp
      · obtain ⟨hd, hn, hw⟩ := extend_eq_ok_iff.1 h
        exact ⟨[], c :: r, rfl, .inl rfl, by simp, hd, by simpa using hn, hw⟩
  · rintro ⟨sign, ds, rfl, hsign, hne, hd, hn, hw⟩
    have hext := extend_eq_ok_iff.2 ⟨hd, hn, hw⟩
    rcases hsign with rfl | rfl | rfl
    · cases ds with
      | nil => exact absurd rfl hne
      | cons c r =>
        have hc := hd c (by simp)
        have hs : ¬(c = '+' || c = '-') = true := by
          simp only [Bool.or_eq_true, decide_eq_true_eq]
          rintro (rfl | rfl) <;> cases hc
        rw [List.nil_append, readInteger, if_neg hs]
        exact hext
    · rw [List.singleton_append, readInteger, if_pos (by decide), if_neg hne]
      exact hext
    · rw [List.singleton_append, readInteger, if_pos (by decide), if_neg hne]
      exact hext

theorem readAge_of_readInteger {s : List Char} {n : Int} {age : UInt32}
    (hn : readInteger s = .ok n) (ha : word32? n = some age) : readAge s = .ok age := by
  simp only [readAge, hn, ha]

theorem isWord_age (age : UInt32) : isWord age.toNat = true := by
  have hlt := age.toNat_lt
  have hl : leastWord ≤ age.toNat := by unfold leastWord; omega
  have hg : age.toNat ≤ greatestWord := by unfold greatestWord; omega
  rw [isWord, decide_eq_true hl, decide_eq_true hg]
  rfl

theorem readAge_eq_ok_iff {s : List Char} {age : UInt32} :
    readAge s = .ok age ↔ WritesAge s age := by
  constructor
  · intro h
    rw [readAge] at h
    split at h
    · cases h
    · rename_i n hn
      split at h
      · rename_i a ha
        cases h
        obtain ⟨sign, ds, hs, hsign, hne, hd, hv, -⟩ := readInteger_eq_ok_iff.1 hn
        exact ⟨sign, ds, hs, hsign, hne, hd, hv.symm.trans (word32?_eq_some_iff.1 ha)⟩
      · cases h
  · rintro ⟨sign, ds, hs, hsign, hne, hd, hv⟩
    have hn := readInteger_eq_ok_iff.2 ⟨sign, ds, hs, hsign, hne, hd, hv.symm, isWord_age age⟩
    exact readAge_of_readInteger hn (word32?_eq_some_iff.2 rfl)

end Roster.CommandLine
