import Roster.Proofs.Bytes.Utf8
import Roster.Proofs.Number.Hexadecimal

namespace Roster

namespace Text

-- What one sign between the quotes stands for.
inductive Sign
  | char (c : Char)
  | byte (b : UInt8)

namespace Sign

def written : Sign → List Char
  | .char c => quoteChar c
  | .byte b => ['\\', 'x'] ++ Bytes.upperHex b

def bytes : Sign → Bytes
  | .char c => String.utf8EncodeChar c
  | .byte b => [b]

end Sign

-- The character that a letter stands for behind a backslash. Others stand for themselves.
def unescape (c : Char) : Char :=
  if c = 'n' then '\n' else if c = 'r' then '\r' else if c = 't' then '\t'
  else if c = '0' then '\x00' else c

-- Reads a sign behind its backslash.
def readEscape (s : List Char) : Option (Sign × List Char) :=
  match s with
  | 'x' :: h :: l :: r => some (.byte (UInt8.ofNat (Number.ofBase 16 [h, l])), r)
  | 'u' :: '{' :: r =>
    let isDigit c := (Number.hexValue? c).isSome
    some (.char (Char.ofNat (Number.ofBase 16 (r.takeWhile isDigit))), (r.dropWhile isDigit).drop 1)
  | c :: r => some (.char (unescape c), r)
  | [] => none

def readSign (s : List Char) : Option (Sign × List Char) :=
  match s with
  | [] => none
  | c :: r => if c = '\\' then readEscape r else some (.char c, r)

theorem readEscape_hidden (c : Char) (r : List Char) :
    readEscape ('u' :: '{' :: (hexDigits c.toNat ++ '}' :: r)) = some (.char c, r) := by
  have hdigits : ∀ d ∈ hexDigits c.toNat, (Number.hexValue? d).isSome :=
    fun d => Number.isSome_hexValue?_of_mem_toDigits
  simp only [readEscape]
  rw [List.takeWhile_append_of_pos hdigits, List.dropWhile_append_of_pos hdigits]
  have hend : (Number.hexValue? '}').isSome = false := rfl
  simp only [List.takeWhile_cons, List.dropWhile_cons, hend, Bool.false_eq_true, if_false,
    List.append_nil, List.drop_one, List.tail_cons]
  rw [hexDigits, Number.ofBase_toDigits, Char.ofNat_toNat]

theorem readEscape_byte (b : UInt8) (r : List Char) :
    readEscape ('x' :: (Bytes.upperHex b ++ r)) = some (.byte b, r) := by
  have hlt : b.toNat < 256 := b.toNat_lt
  have hhigh := (Number.hexValue?_digitChar (d := b.toNat / 16) (by omega)).2
  have hlow := (Number.hexValue?_digitChar (d := b.toNat % 16) (by omega)).2
  have hvalue : Number.ofBase 16 (Bytes.upperHex b) = b.toNat := by
    simp [Bytes.upperHex, Number.ofBase, hhigh, hlow]
    omega
  have hread : readEscape ('x' :: (Bytes.upperHex b ++ r)) =
      some (.byte (UInt8.ofNat (Number.ofBase 16 (Bytes.upperHex b))), r) := rfl
  rw [hread, hvalue, UInt8.ofNat_toNat]

-- Where a sign ends can be told from its beginning, whatever stands behind it.
theorem readSign_written (s : Sign) (r : List Char) : readSign (s.written ++ r) = some (s, r) := by
  cases s with
  | byte b => exact readEscape_byte b r
  | char c =>
    simp only [Sign.written, quoteChar]
    split_ifs with hquote hback hn hr ht hzero hhidden
    · rw [hquote]
      rfl
    · rw [hback]
      rfl
    · rw [hn]
      rfl
    · rw [hr]
      rfl
    · rw [ht]
      rfl
    · rw [hzero]
      rfl
    · rw [List.append_assoc]
      exact readEscape_hidden c r
    · exact if_neg hback

-- No sign can be taken for the quote at the end. It would be read as a quote, and that is written
-- behind a backslash.
theorem exists_written_eq_cons (s : Sign) : ∃ c t, s.written = c :: t ∧ c ≠ '"' := by
  have hread := readSign_written s []
  rw [List.append_nil] at hread
  cases hs : s.written with
  | nil =>
    rw [hs] at hread
    cases hread
  | cons c t =>
    refine ⟨c, t, rfl, ?_⟩
    rintro rfl
    rw [hs] at hread
    cases hread
    cases hs

theorem signs_append_inj {us vs : List Sign} {r r' : List Char}
    (h : us.flatMap Sign.written ++ '"' :: r = vs.flatMap Sign.written ++ '"' :: r') :
    us = vs ∧ r = r' := by
  induction us generalizing vs with
  | nil =>
    cases vs with
    | nil => exact ⟨rfl, List.tail_eq_of_cons_eq h⟩
    | cons v vs =>
      obtain ⟨c, t, hv, hc⟩ := exists_written_eq_cons v
      rw [List.flatMap_cons, hv] at h
      exact absurd (List.head_eq_of_cons_eq h).symm hc
  | cons u us ih =>
    cases vs with
    | nil =>
      obtain ⟨c, t, hu, hc⟩ := exists_written_eq_cons u
      rw [List.flatMap_cons, hu] at h
      exact absurd (List.head_eq_of_cons_eq h) hc
    | cons v vs =>
      have hread := congrArg readSign h
      simp only [List.flatMap_cons, List.append_assoc, readSign_written, Option.some.injEq,
        Prod.mk.injEq] at hread
      obtain ⟨rfl, hrest⟩ := hread
      obtain ⟨rfl, rfl⟩ := ih hrest
      exact ⟨rfl, rfl⟩

-- Where a text in quotes ends is told by what is in it, not by what stands behind it.
theorem enclose_append_inj {us vs : List Sign} {s t : String}
    (h : String.ofList (enclose (us.flatMap Sign.written)) ++ s =
      String.ofList (enclose (vs.flatMap Sign.written)) ++ t) : us = vs ∧ s = t := by
  have hchars := congrArg String.toList h
  simp only [String.toList_append, String.toList_ofList, enclose, List.cons_append,
    List.append_assoc, List.nil_append, List.cons.injEq, true_and] at hchars
  obtain ⟨hsigns, hbehind⟩ := signs_append_inj hchars
  exact ⟨hsigns, String.toList_inj.1 hbehind⟩

theorem quote_eq (x : String) :
    quote x = String.ofList (enclose ((x.toList.map Sign.char).flatMap Sign.written)) := by
  rw [quote, List.flatMap_map]
  rfl

theorem quote_append_inj {x y s t : String} (h : quote x ++ s = quote y ++ t) : x = y ∧ s = t := by
  rw [quote_eq, quote_eq] at h
  obtain ⟨hsigns, hbehind⟩ := enclose_append_inj h
  have hchars : x.toList = y.toList := (List.map_inj_right fun c d => Sign.char.inj).1 hsigns
  exact ⟨String.toList_inj.1 hchars, hbehind⟩

end Text

namespace Bytes

open Text

-- A stretch that is no character has a sign for each of its bytes.
def Chunk.signs : Chunk → List Sign
  | .char c => [.char c]
  | .broken bytes => bytes.map .byte

def signs (b : Bytes) : List Sign := b.chunks.flatMap Chunk.signs

theorem quoteChunk_eq (c : Chunk) : quoteChunk c = c.signs.flatMap Sign.written := by
  cases c with
  | char c => simp [quoteChunk, Chunk.signs, Sign.written]
  | broken bytes =>
    rw [quoteChunk, Chunk.signs, List.flatMap_map]
    rfl

theorem quote_eq_enclose (b : Bytes) :
    quote b = String.ofList (enclose (b.signs.flatMap Sign.written)) := by
  rw [quote, signs, List.flatMap_assoc]
  simp only [← quoteChunk_eq]

-- A stretch is broken off in front of the byte that does not belong to it.
theorem broken_append_continuation {n : Nat} {low high : UInt8} {value : Nat}
    {seen s bytes r : Bytes} (h : continuation n low high value seen s = (.broken bytes, r)) :
    bytes ++ r = seen.reverse ++ s := by
  fun_induction continuation n low high value seen s with
  | case1 => cases h
  | case2 => cases h; rfl
  | case3 n low high value seen b rest hb ih => simpa using ih h
  | case4 => cases h; rfl

theorem broken_append_firstChunk {b : UInt8} {rest bytes r : Bytes}
    (h : firstChunk b rest = (.broken bytes, r)) : bytes ++ r = b :: rest := by
  rw [firstChunk] at h
  split at h
  · cases h
  split at h
  · cases h
    rfl
  · exact broken_append_continuation h

-- What the signs stand for is the byte string that they were written for.
theorem flatMap_bytes_signs (b : Bytes) : b.signs.flatMap Sign.bytes = b := by
  rw [signs]
  fun_induction chunks b with
  | case1 => rfl
  | case2 b rest ih =>
    rw [List.flatMap_cons, List.flatMap_append, ih]
    rcases hf : firstChunk b rest with ⟨c | bytes, r⟩
    · rw [encode_firstChunk hf]
      simp [Chunk.signs, Sign.bytes]
    · rw [← broken_append_firstChunk hf]
      simp [Chunk.signs, List.flatMap_map, Sign.bytes]

theorem quote_append_inj {b d : Bytes} {s t : String} (h : quote b ++ s = quote d ++ t) :
    b = d ∧ s = t := by
  rw [quote_eq_enclose, quote_eq_enclose] at h
  obtain ⟨hsigns, hbehind⟩ := enclose_append_inj h
  refine ⟨?_, hbehind⟩
  rw [← flatMap_bytes_signs b, hsigns, flatMap_bytes_signs]

end Bytes
end Roster
