import Mathlib.Tactic.ByContra
import Mathlib.Tactic.SplitIfs
import Roster.Bytes

namespace Roster.Bytes

-- The bytes of a character by the size of its number.
theorem encode_one {c : Char} (h : c.toNat ≤ 0x7F) :
    String.utf8EncodeChar c = [UInt8.ofNat c.toNat] :=
  if_pos h

theorem encode_two {c : Char} (h : 0x7F < c.toNat) (h' : c.toNat ≤ 0x7FF) :
    String.utf8EncodeChar c =
      [UInt8.ofNat (c.toNat / 64 % 32 + 0xC0), UInt8.ofNat (c.toNat % 64 + 0x80)] :=
  (if_neg (Nat.not_le.2 h)).trans (if_pos h')

theorem encode_three {c : Char} (h : 0x7FF < c.toNat) (h' : c.toNat ≤ 0xFFFF) :
    String.utf8EncodeChar c =
      [UInt8.ofNat (c.toNat / 4096 % 16 + 0xE0), UInt8.ofNat (c.toNat / 64 % 64 + 0x80),
        UInt8.ofNat (c.toNat % 64 + 0x80)] :=
  (if_neg (by change ¬c.toNat ≤ _; omega)).trans <|
    (if_neg (Nat.not_le.2 h)).trans (if_pos h')

theorem encode_four {c : Char} (h : 0xFFFF < c.toNat) :
    String.utf8EncodeChar c =
      [UInt8.ofNat (c.toNat / 262144 % 8 + 0xF0), UInt8.ofNat (c.toNat / 4096 % 64 + 0x80),
        UInt8.ofNat (c.toNat / 64 % 64 + 0x80), UInt8.ofNat (c.toNat % 64 + 0x80)] :=
  (if_neg (by change ¬c.toNat ≤ _; omega)).trans <|
    (if_neg (by change ¬c.toNat ≤ _; omega)).trans (if_neg (Nat.not_le.2 h))

theorem toNat_valid (c : Char) : c.toNat < 0xD800 ∨ 0xDFFF < c.toNat ∧ c.toNat < 0x110000 :=
  c.valid

theorem toNat_ofNat_of_lt {n : Nat} (h : n < 256) : (UInt8.ofNat n).toNat = n := by
  rw [UInt8.toNat_ofNat']
  exact Nat.mod_eq_of_lt h

theorem trail_eq (b : UInt8) :
    trail b =
      if 0xC2 ≤ b.toNat ∧ b.toNat ≤ 0xDF then some (1, 0x80, 0xBF)
      else if b.toNat = 0xE0 then some (2, 0xA0, 0xBF)
      else if b.toNat = 0xED then some (2, 0x80, 0x9F)
      else if 0xE1 ≤ b.toNat ∧ b.toNat ≤ 0xEF then some (2, 0x80, 0xBF)
      else if b.toNat = 0xF0 then some (3, 0x90, 0xBF)
      else if 0xF1 ≤ b.toNat ∧ b.toNat ≤ 0xF3 then some (3, 0x80, 0xBF)
      else if b.toNat = 0xF4 then some (3, 0x80, 0x8F)
      else none := by
  simp only [trail, UInt8.le_iff_toNat_le, ← UInt8.toNat_inj]
  rfl

theorem firstChunk_of_trail {b low high : UInt8} {n : Nat} {rest : Bytes}
    (h : trail b = some (n, low, high)) :
    firstChunk b rest = continuation n low high (leadBits n b) [b] rest := by
  have hb : ¬b < 0x80 := by
    intro hb
    have hlt : b.toNat < 128 := hb
    rw [trail_eq, if_neg (by omega), if_neg (by omega), if_neg (by omega), if_neg (by omega),
      if_neg (by omega), if_neg (by omega), if_neg (by omega)] at h
    cases h
  simp only [firstChunk, if_neg hb, h]

-- A byte that carries six bits, where it is allowed.
theorem continuation_tail {n k value : Nat} {low high : UInt8} {seen rest : Bytes}
    (hlow : low.toNat ≤ k % 64 + 0x80) (hhigh : k % 64 + 0x80 ≤ high.toNat) :
    continuation (n + 1) low high value seen (UInt8.ofNat (k % 64 + 0x80) :: rest) =
      continuation n 0x80 0xBF (value * 64 + k % 64)
        (UInt8.ofNat (k % 64 + 0x80) :: seen) rest := by
  have hk := toNat_ofNat_of_lt (n := k % 64 + 0x80) (by omega)
  have hr : low ≤ UInt8.ofNat (k % 64 + 0x80) ∧ UInt8.ofNat (k % 64 + 0x80) ≤ high := by
    rw [UInt8.le_iff_toNat_le, UInt8.le_iff_toNat_le, hk]
    exact ⟨hlow, hhigh⟩
  have hm : (k % 64 + 0x80) % 64 = k % 64 := by omega
  rw [continuation, if_pos hr, hk, hm]

theorem continuation_tail' {n k value : Nat} {seen rest : Bytes} :
    continuation (n + 1) 0x80 0xBF value seen (UInt8.ofNat (k % 64 + 0x80) :: rest) =
      continuation n 0x80 0xBF (value * 64 + k % 64) (UInt8.ofNat (k % 64 + 0x80) :: seen) rest :=
  continuation_tail (show 0x80 ≤ _ by omega) (show _ ≤ 0xBF by omega)

theorem continuation_zero {value : Nat} {seen rest : Bytes} {c : Char} (h : value = c.toNat) :
    continuation 0 0x80 0xBF value seen rest = (.char c, rest) := by
  rw [continuation, h, Char.ofNat_toNat]

-- The range of the second byte leaves out the numbers that fewer bytes write, and surrogates.
theorem trail_three {c : Char} (h : 0x7FF < c.toNat) (h' : c.toNat ≤ 0xFFFF) :
    ∃ low high, trail (UInt8.ofNat (c.toNat / 4096 % 16 + 0xE0)) = some (2, low, high) ∧
      low.toNat ≤ c.toNat / 64 % 64 + 0x80 ∧ c.toNat / 64 % 64 + 0x80 ≤ high.toNat := by
  have hv := toNat_valid c
  rw [trail_eq, toNat_ofNat_of_lt (by omega), if_neg (by omega)]
  by_cases h1 : c.toNat / 4096 % 16 + 0xE0 = 0xE0
  · exact ⟨_, _, if_pos h1, show 0xA0 ≤ _ by omega, show _ ≤ 0xBF by omega⟩
  rw [if_neg h1]
  by_cases h2 : c.toNat / 4096 % 16 + 0xE0 = 0xED
  · exact ⟨_, _, if_pos h2, show 0x80 ≤ _ by omega, show _ ≤ 0x9F by omega⟩
  rw [if_neg h2, if_pos (by omega)]
  exact ⟨_, _, rfl, show 0x80 ≤ _ by omega, show _ ≤ 0xBF by omega⟩

theorem trail_four {c : Char} (h : 0xFFFF < c.toNat) :
    ∃ low high, trail (UInt8.ofNat (c.toNat / 262144 % 8 + 0xF0)) = some (3, low, high) ∧
      low.toNat ≤ c.toNat / 4096 % 64 + 0x80 ∧ c.toNat / 4096 % 64 + 0x80 ≤ high.toNat := by
  have hv := toNat_valid c
  rw [trail_eq, toNat_ofNat_of_lt (by omega), if_neg (by omega), if_neg (by omega),
    if_neg (by omega), if_neg (by omega)]
  by_cases h1 : c.toNat / 262144 % 8 + 0xF0 = 0xF0
  · exact ⟨_, _, if_pos h1, show 0x90 ≤ _ by omega, show _ ≤ 0xBF by omega⟩
  rw [if_neg h1]
  by_cases h2 : c.toNat / 262144 % 8 + 0xF0 = 0xF4
  · rw [if_neg (by omega)]
    exact ⟨_, _, if_pos h2, show 0x80 ≤ _ by omega, show _ ≤ 0x8F by omega⟩
  rw [if_pos (by omega)]
  exact ⟨_, _, rfl, show 0x80 ≤ _ by omega, show _ ≤ 0xBF by omega⟩

theorem leadBits_ofNat {n m k : Nat} (hm : Nat.pow 2 (6 - n) = m) (hk : k < 256) :
    leadBits n (UInt8.ofNat k) = k % m := by
  rw [leadBits, toNat_ofNat_of_lt hk, hm]

-- The first chunk of the bytes of a text is its first character.
theorem firstChunk_encode (c : Char) (rest : Bytes) :
    ∃ b tail, String.utf8EncodeChar c = b :: tail ∧
      firstChunk b (tail ++ rest) = (.char c, rest) := by
  have hv := toNat_valid c
  by_cases h1 : c.toNat ≤ 0x7F
  · refine ⟨_, _, encode_one h1, ?_⟩
    have hb := toNat_ofNat_of_lt (n := c.toNat) (by omega)
    have hlt : UInt8.ofNat c.toNat < 0x80 := by
      rw [UInt8.lt_iff_toNat_lt, hb]
      exact Nat.lt_succ_of_le h1
    rw [firstChunk, if_pos hlt, hb, Char.ofNat_toNat]
    rfl
  by_cases h2 : c.toNat ≤ 0x7FF
  · refine ⟨_, _, encode_two (by omega) h2, ?_⟩
    have ht : trail (UInt8.ofNat (c.toNat / 64 % 32 + 0xC0)) = some (1, 0x80, 0xBF) := by
      rw [trail_eq, toNat_ofNat_of_lt (by omega), if_pos (by omega)]
    rw [firstChunk_of_trail ht, List.cons_append, continuation_tail',
      leadBits_ofNat (m := 32) rfl (by omega)]
    exact continuation_zero (by omega)
  by_cases h3 : c.toNat ≤ 0xFFFF
  · refine ⟨_, _, encode_three (by omega) h3, ?_⟩
    obtain ⟨low, high, ht, hlow, hhigh⟩ := trail_three (by omega) h3
    rw [firstChunk_of_trail ht, List.cons_append, continuation_tail hlow hhigh, List.cons_append,
      continuation_tail', leadBits_ofNat (m := 16) rfl (by omega)]
    exact continuation_zero (by omega)
  · refine ⟨_, _, encode_four (by omega), ?_⟩
    obtain ⟨low, high, ht, hlow, hhigh⟩ := trail_four (c := c) (by omega)
    rw [firstChunk_of_trail ht, List.cons_append, continuation_tail hlow hhigh, List.cons_append,
      continuation_tail', List.cons_append, continuation_tail',
      leadBits_ofNat (m := 8) rfl (by omega)]
    exact continuation_zero (by omega)

theorem continuation_eq_char {n : Nat} {low high : UInt8} {value : Nat} {seen s r : Bytes}
    {c : Char} (h : continuation (n + 1) low high value seen s = (.char c, r)) :
    ∃ b rest, s = b :: rest ∧ low.toNat ≤ b.toNat ∧ b.toNat ≤ high.toNat ∧
      continuation n 0x80 0xBF (value * 64 + b.toNat % 64) (b :: seen) rest = (.char c, r) := by
  cases s with
  | nil => cases h
  | cons b rest =>
    rw [continuation] at h
    split at h
    · rename_i hb
      exact ⟨b, rest, rfl, hb.1, hb.2, h⟩
    · cases h

theorem continuation_zero_eq_char {low high : UInt8} {value : Nat} {seen s r : Bytes} {c : Char}
    (h : continuation 0 low high value seen s = (.char c, r)) : c = Char.ofNat value ∧ r = s := by
  rw [continuation] at h
  cases h
  exact ⟨rfl, rfl⟩

theorem ofNat_eq {k : Nat} {b : UInt8} (h : k = b.toNat) : UInt8.ofNat k = b :=
  h ▸ UInt8.ofNat_toNat

theorem toNat_ofNat {n : Nat} (h : n < 0xD800 ∨ 0xDFFF < n ∧ n < 0x110000) :
    (Char.ofNat n).toNat = n := by
  rw [Char.ofNat, dif_pos (show n.isValidChar from h)]
  rfl

theorem encode_of_two {b b1 : UInt8} (hb : 0xC2 ≤ b.toNat) (hb' : b.toNat ≤ 0xDF)
    (h1 : 0x80 ≤ b1.toNat) (h1' : b1.toNat ≤ 0xBF) :
    String.utf8EncodeChar (Char.ofNat (b.toNat % 32 * 64 + b1.toNat % 64)) = [b, b1] := by
  have hn := toNat_ofNat (n := b.toNat % 32 * 64 + b1.toNat % 64) (by omega)
  rw [encode_two (by omega) (by omega), hn, ofNat_eq (b := b) (by omega),
    ofNat_eq (b := b1) (by omega)]

theorem encode_of_three {b b1 b2 : UInt8} (hb : 0xE0 ≤ b.toNat) (hb' : b.toNat ≤ 0xEF)
    (h1 : 0x80 ≤ b1.toNat) (h1' : b1.toNat ≤ 0xBF) (hlow : b.toNat = 0xE0 → 0xA0 ≤ b1.toNat)
    (hhigh : b.toNat = 0xED → b1.toNat ≤ 0x9F) (h2 : 0x80 ≤ b2.toNat) (h2' : b2.toNat ≤ 0xBF) :
    String.utf8EncodeChar
        (Char.ofNat ((b.toNat % 16 * 64 + b1.toNat % 64) * 64 + b2.toNat % 64)) = [b, b1, b2] := by
  have hn := toNat_ofNat (n := (b.toNat % 16 * 64 + b1.toNat % 64) * 64 + b2.toNat % 64) (by omega)
  rw [encode_three (by omega) (by omega), hn, ofNat_eq (b := b) (by omega),
    ofNat_eq (b := b1) (by omega), ofNat_eq (b := b2) (by omega)]

theorem encode_of_four {b b1 b2 b3 : UInt8} (hb : 0xF0 ≤ b.toNat) (hb' : b.toNat ≤ 0xF4)
    (h1 : 0x80 ≤ b1.toNat) (h1' : b1.toNat ≤ 0xBF) (hlow : b.toNat = 0xF0 → 0x90 ≤ b1.toNat)
    (hhigh : b.toNat = 0xF4 → b1.toNat ≤ 0x8F) (h2 : 0x80 ≤ b2.toNat) (h2' : b2.toNat ≤ 0xBF)
    (h3 : 0x80 ≤ b3.toNat) (h3' : b3.toNat ≤ 0xBF) :
    String.utf8EncodeChar
        (Char.ofNat (((b.toNat % 8 * 64 + b1.toNat % 64) * 64 + b2.toNat % 64) * 64
          + b3.toNat % 64)) = [b, b1, b2, b3] := by
  have hn := toNat_ofNat
    (n := ((b.toNat % 8 * 64 + b1.toNat % 64) * 64 + b2.toNat % 64) * 64 + b3.toNat % 64) (by omega)
  rw [encode_four (by omega), hn, ofNat_eq (b := b) (by omega), ofNat_eq (b := b1) (by omega),
    ofNat_eq (b := b2) (by omega), ofNat_eq (b := b3) (by omega)]

-- The lead bytes that have bytes behind them, with what they allow for the second byte.
theorem trail_cases {b low high : UInt8} {n : Nat} (h : trail b = some (n, low, high)) :
    (n = 1 ∧ 0xC2 ≤ b.toNat ∧ b.toNat ≤ 0xDF ∧ low.toNat = 0x80 ∧ high.toNat = 0xBF) ∨
    (n = 2 ∧ 0xE0 ≤ b.toNat ∧ b.toNat ≤ 0xEF ∧ 0x80 ≤ low.toNat ∧ high.toNat ≤ 0xBF ∧
      (b.toNat = 0xE0 → low.toNat = 0xA0) ∧ (b.toNat = 0xED → high.toNat = 0x9F)) ∨
    (n = 3 ∧ 0xF0 ≤ b.toNat ∧ b.toNat ≤ 0xF4 ∧ 0x80 ≤ low.toNat ∧ high.toNat ≤ 0xBF ∧
      (b.toNat = 0xF0 → low.toNat = 0x90) ∧ (b.toNat = 0xF4 → high.toNat = 0x8F)) := by
  rw [trail_eq] at h
  split_ifs at h <;> cases h <;> simp <;> omega

-- What is read as a character is the bytes of that character.
theorem encode_firstChunk {b : UInt8} {rest r : Bytes} {c : Char}
    (h : firstChunk b rest = (.char c, r)) : b :: rest = String.utf8EncodeChar c ++ r := by
  rw [firstChunk] at h
  split at h
  · rename_i hb
    have hlt : b.toNat < 128 := hb
    cases h
    have hn := toNat_ofNat (n := b.toNat) (by omega)
    rw [encode_one (by omega), hn, UInt8.ofNat_toNat]
    rfl
  split at h
  · cases h
  rename_i n low high ht
  rcases trail_cases ht with ⟨rfl, hb, hb', hl, hh⟩ | ⟨rfl, hb, hb', hl, hh, hlow, hhigh⟩ |
    ⟨rfl, hb, hb', hl, hh, hlow, hhigh⟩
  · obtain ⟨b1, r1, rfl, h1, h1', h⟩ := continuation_eq_char h
    obtain ⟨rfl, rfl⟩ := continuation_zero_eq_char h
    exact (congrArg (· ++ r) (encode_of_two hb hb' (by omega) (by omega))).symm
  · obtain ⟨b1, r1, rfl, h1, h1', h⟩ := continuation_eq_char h
    obtain ⟨b2, r2, rfl, h2, h2', h⟩ := continuation_eq_char h
    obtain ⟨rfl, rfl⟩ := continuation_zero_eq_char h
    exact (congrArg (· ++ r) (encode_of_three hb hb' (by omega) (by omega) (by omega) (by omega)
      h2 h2')).symm
  · obtain ⟨b1, r1, rfl, h1, h1', h⟩ := continuation_eq_char h
    obtain ⟨b2, r2, rfl, h2, h2', h⟩ := continuation_eq_char h
    obtain ⟨b3, r3, rfl, h3, h3', h⟩ := continuation_eq_char h
    obtain ⟨rfl, rfl⟩ := continuation_zero_eq_char h
    exact (congrArg (· ++ r) (encode_of_four hb hb' (by omega) (by omega) (by omega) (by omega)
      h2 h2' h3 h3')).symm

theorem chunks_cons (b : UInt8) (rest : Bytes) :
    chunks (b :: rest) = (firstChunk b rest).1 :: chunks (firstChunk b rest).2 := by
  rw [chunks]

theorem chunks_ofChars (cs : List Char) : chunks (ofChars cs) = cs.map .char := by
  induction cs with
  | nil => simp [ofChars, chunks]
  | cons c cs ih =>
    obtain ⟨b, tail, hc, hf⟩ := firstChunk_encode c (ofChars cs)
    have hcs : ofChars (c :: cs) = b :: (tail ++ ofChars cs) := by
      rw [ofChars, List.flatMap_cons, hc]
      rfl
    rw [hcs, chunks_cons, hf, ih]
    rfl

theorem charsOf_map_char (cs : List Char) : charsOf (cs.map .char) = some cs := by
  induction cs with
  | nil => rfl
  | cons c cs ih => rw [List.map_cons, charsOf, ih]; rfl

theorem eq_ofChars_of_charsOf {b : Bytes} {cs : List Char} (h : charsOf b.chunks = some cs) :
    b = ofChars cs := by
  fun_induction chunks b generalizing cs with
  | case1 => cases h; rfl
  | case2 b rest ih =>
    rcases hf : firstChunk b rest with ⟨c | bytes, r⟩
    · simp only [hf] at h ih
      obtain ⟨ds, hds, rfl⟩ := Option.map_eq_some_iff.1 h
      rw [encode_firstChunk hf, ih hds]
      rfl
    · rw [hf] at h
      cases h

theorem ofChars_injective {cs ds : List Char} (h : ofChars cs = ofChars ds) : cs = ds := by
  have hc := congrArg (charsOf ∘ chunks) h
  simp only [Function.comp_apply, chunks_ofChars, charsOf_map_char] at hc
  exact Option.some.inj hc

-- A byte string has a text exactly when it is the UTF-8 form of that text.
theorem text?_eq_some_iff {b : Bytes} {s : String} : text? b = some s ↔ b = ofString s := by
  constructor
  · intro h
    obtain ⟨cs, hcs, rfl⟩ := Option.map_eq_some_iff.1 h
    rw [ofString, String.toList_ofList]
    exact eq_ofChars_of_charsOf hcs
  · rintro rfl
    rw [text?, ofString, chunks_ofChars, charsOf_map_char, Option.map_some, String.ofList_toList]

theorem text?_ofString (s : String) : text? (ofString s) = some s :=
  text?_eq_some_iff.2 rfl

theorem ofString_injective {s t : String} (h : ofString s = ofString t) : s = t :=
  String.toList_inj.1 (ofChars_injective h)

theorem cons_lt_cons {m n : Nat} {x y : Bytes} (hm : m < 256) (hn : n < 256) (hle : m ≤ n)
    (h : m = n → x < y) : UInt8.ofNat m :: x < UInt8.ofNat n :: y := by
  rw [List.cons_lt_cons_iff, UInt8.lt_iff_toNat_lt, toNat_ofNat_of_lt hm, toNat_ofNat_of_lt hn]
  rcases Nat.lt_or_eq_of_le hle with hlt | rfl
  · exact .inl hlt
  · exact .inr ⟨rfl, h rfl⟩

-- The bytes of a smaller character come first, whatever follows them. A longer form has the
-- greater lead byte; two forms of one length compare like the digits of their numbers.
theorem encode_lt {c d : Char} (h : c.toNat < d.toNat) (x y : Bytes) :
    String.utf8EncodeChar c ++ x < String.utf8EncodeChar d ++ y := by
  have hd := toNat_valid d
  by_cases c1 : c.toNat ≤ 0x7F
  · rw [encode_one c1]
    by_cases d1 : d.toNat ≤ 0x7F
    · rw [encode_one d1]
      exact cons_lt_cons (by omega) (by omega) (by omega) fun _ => by omega
    by_cases d2 : d.toNat ≤ 0x7FF
    · rw [encode_two (by omega) d2]
      exact cons_lt_cons (by omega) (by omega) (by omega) fun _ => by omega
    by_cases d3 : d.toNat ≤ 0xFFFF
    · rw [encode_three (by omega) d3]
      exact cons_lt_cons (by omega) (by omega) (by omega) fun _ => by omega
    · rw [encode_four (by omega)]
      exact cons_lt_cons (by omega) (by omega) (by omega) fun _ => by omega
  by_cases c2 : c.toNat ≤ 0x7FF
  · rw [encode_two (by omega) c2]
    by_cases d2 : d.toNat ≤ 0x7FF
    · rw [encode_two (by omega) d2]
      exact cons_lt_cons (by omega) (by omega) (by omega) fun _ =>
        cons_lt_cons (by omega) (by omega) (by omega) fun _ => by omega
    by_cases d3 : d.toNat ≤ 0xFFFF
    · rw [encode_three (by omega) d3]
      exact cons_lt_cons (by omega) (by omega) (by omega) fun _ => by omega
    · rw [encode_four (by omega)]
      exact cons_lt_cons (by omega) (by omega) (by omega) fun _ => by omega
  by_cases c3 : c.toNat ≤ 0xFFFF
  · rw [encode_three (by omega) c3]
    by_cases d3 : d.toNat ≤ 0xFFFF
    · rw [encode_three (by omega) d3]
      exact cons_lt_cons (by omega) (by omega) (by omega) fun _ =>
        cons_lt_cons (by omega) (by omega) (by omega) fun _ =>
        cons_lt_cons (by omega) (by omega) (by omega) fun _ => by omega
    · rw [encode_four (by omega)]
      exact cons_lt_cons (by omega) (by omega) (by omega) fun _ => by omega
  · rw [encode_four (by omega), encode_four (by omega)]
    exact cons_lt_cons (by omega) (by omega) (by omega) fun _ =>
      cons_lt_cons (by omega) (by omega) (by omega) fun _ =>
      cons_lt_cons (by omega) (by omega) (by omega) fun _ =>
      cons_lt_cons (by omega) (by omega) (by omega) fun _ => by omega

theorem ofChars_lt {cs ds : List Char} (h : cs < ds) : ofChars cs < ofChars ds := by
  induction ds generalizing cs with
  | nil => exact absurd h (List.not_lt_nil _)
  | cons d ds ih =>
    cases cs with
    | nil =>
      obtain ⟨b, tail, hd, -⟩ := firstChunk_encode d []
      rw [ofChars, ofChars, List.flatMap_cons, hd]
      exact List.nil_lt_cons ..
    | cons c cs =>
      rcases List.cons_lt_cons_iff.1 h with hlt | ⟨rfl, hlt⟩
      · exact encode_lt hlt _ _
      · exact List.append_left_lt (ih hlt)

-- Texts compare like their UTF-8 bytes.
theorem ofString_lt_iff {s t : String} : ofString s < ofString t ↔ s < t := by
  constructor
  · intro h
    by_contra hst
    by_cases hts : t < s
    · exact absurd (ofChars_lt hts) (List.lt_asymm h)
    · have heq := String.le_antisymm (String.not_lt.1 hts) (String.not_lt.1 hst)
      exact List.lt_irrefl _ (heq ▸ h)
  · exact ofChars_lt

end Roster.Bytes
