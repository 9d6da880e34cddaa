import Mathlib.Tactic.SplitIfs
import Roster.Json.Write
import Roster.Proofs.Json.Grammar
import Roster.Proofs.Number.Decimal

namespace Roster.Json

open Number

theorem hexDigit_digitChar {n : Nat} (h : n < 16) : HexDigit n n.digitChar := ⟨h, .inl rfl⟩

theorem hexCode_control {n : Nat} (h : n < 0x20) :
    HexCode n ['0', '0', Nat.digitChar (n / 16), Nat.digitChar (n % 16)] := by
  have hn : ((0 * 16 + 0) * 16 + n / 16) * 16 + n % 16 = n := by omega
  have hzero : HexDigit 0 '0' := hexDigit_digitChar (by decide)
  have hcode := HexCode.digits hzero hzero (hexDigit_digitChar (n := n / 16) (by omega))
    (hexDigit_digitChar (n := n % 16) (by omega))
  rwa [hn] at hcode

-- The way in which a character is written stands for it.
theorem partText_escapeChar (c : Char) : PartText (.char c) (escapeChar c) := by
  unfold escapeChar
  split_ifs with h1 h2 h3 h4 h5 h6 h7 h8
  · exact .named (by rw [h1]; decide)
  · exact .named (by rw [h2]; decide)
  · exact .named (by rw [h3]; decide)
  · exact .named (by rw [h4]; decide)
  · exact .named (by rw [h5]; decide)
  · exact .named (by rw [h6]; decide)
  · exact .named (by rw [h7]; decide)
  · have hcode := PartText.code (hexCode_control h8) (.inl (by omega))
    rwa [Char.ofNat_toNat] at hcode
  · exact .raw h1 h2 (Nat.le_of_not_lt h8)

theorem spells_escaped (cs : List Char) : Spells cs (cs.flatMap escapeChar) := by
  induction cs with
  | nil => exact .nil
  | cons c cs ih =>
    rw [List.flatMap_cons]
    exact .char (partText_escapeChar c) ih

theorem stringText_writeString (s : String) : StringText s (writeString s) :=
  ⟨s.toList.flatMap escapeChar, spells_escaped s.toList, by simp [writeString, Text.enclose]⟩

theorem wholeText_toDigits (n : Nat) : WholeText (Nat.toDigits 10 n) := by
  rcases toDigits_cases n with ⟨-, h⟩ | ⟨-, d, ds, h, h0⟩
  · rw [h]
    exact .zero
  · rw [h]
    refine .row h0 ⟨List.cons_ne_nil d ds, fun c hc => ?_⟩
    rw [← isDigit_eq]
    exact isDigit_of_mem_toDigits (n := n) (h ▸ hc)

theorem numberText_toDigits (n : Nat) :
    NumberText ⟨false, Nat.toDigits 10 n, none, none⟩ (Nat.toDigits 10 n) := by
  have h := NumberText.plain (wholeText_toDigits n) .absent .absent
  rwa [List.append_nil, List.append_nil] at h

-- No control stands in a written string.
theorem not_control_of_mem_escapeChar {c d : Char} (h : d ∈ escapeChar c) : 0x20 ≤ d.toNat := by
  have hx : ∀ m < 16, 0x20 ≤ (Nat.digitChar m).toNat := by decide
  have two {x : Char} (hd : 0x20 ≤ x.toNat) (h : d ∈ ['\\', x]) : 0x20 ≤ d.toNat := by
    simp only [List.mem_cons, List.not_mem_nil, or_false] at h
    rcases h with rfl | rfl
    · decide
    · exact hd
  unfold escapeChar at h
  split_ifs at h with h1 h2 h3 h4 h5 h6 h7 h8
  · exact two (by decide) h
  · exact two (by decide) h
  · exact two (by decide) h
  · exact two (by decide) h
  · exact two (by decide) h
  · exact two (by decide) h
  · exact two (by decide) h
  · simp only [List.mem_cons, List.not_mem_nil, or_false] at h
    rcases h with rfl | rfl | rfl | rfl | rfl | rfl
    · decide
    · decide
    · decide
    · decide
    · exact hx _ (by omega)
    · exact hx _ (by omega)
  · rw [List.mem_singleton.1 h]
    omega

theorem not_control_of_mem_writeString {s : String} {d : Char} (h : d ∈ writeString s) :
    0x20 ≤ d.toNat := by
  simp only [writeString, Text.enclose, List.cons_append, List.mem_cons, List.mem_append,
    List.mem_flatMap, List.not_mem_nil, or_false] at h
  rcases h with rfl | ⟨c, -, h⟩ | rfl
  · decide
  · exact not_control_of_mem_escapeChar h
  · decide

theorem not_control_of_mem_toDigits {n : Nat} {d : Char} (h : d ∈ Nat.toDigits 10 n) :
    0x20 ≤ d.toNat :=
  Nat.le_trans (by decide) (isDigit_iff.1 (isDigit_of_mem_toDigits h)).1

end Roster.Json
