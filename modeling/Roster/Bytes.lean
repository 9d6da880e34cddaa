import Roster.Text.Quoted

-- Byte strings and the text in them.
--
-- Paths, environment values and arguments are byte strings that need not be UTF-8. `chunks` cuts
-- one into characters and into stretches that are no character. The forms for display and for
-- inspection are read off the chunks.

namespace Roster

abbrev Bytes := List UInt8

namespace Bytes

def ofChars (s : List Char) : Bytes := s.flatMap String.utf8EncodeChar

def ofString (s : String) : Bytes := ofChars s.toList

-- A stretch ends where it can no longer become a character.
inductive Chunk
  | char (c : Char)
  | broken (bytes : Bytes)
deriving DecidableEq, Repr

-- What may follow a lead byte: how many bytes, and the range of the first of them.
-- The ranges leave out overlong forms, surrogates and everything above U+10FFFF.
def trail (lead : UInt8) : Option (Nat × UInt8 × UInt8) :=
  if 0xC2 ≤ lead ∧ lead ≤ 0xDF then some (1, 0x80, 0xBF)
  else if lead = 0xE0 then some (2, 0xA0, 0xBF)
  else if lead = 0xED then some (2, 0x80, 0x9F)
  else if 0xE1 ≤ lead ∧ lead ≤ 0xEF then some (2, 0x80, 0xBF)
  else if lead = 0xF0 then some (3, 0x90, 0xBF)
  else if 0xF1 ≤ lead ∧ lead ≤ 0xF3 then some (3, 0x80, 0xBF)
  else if lead = 0xF4 then some (3, 0x80, 0x8F)
  else none

-- The payload of a lead byte that is followed by `n` bytes.
def leadBits (n : Nat) (lead : UInt8) : Nat := lead.toNat % Nat.pow 2 (6 - n)

-- Reads up to `n` more bytes, the first of them from the given range.
-- `value` and `seen` are the payload and the bytes (last one first) so far.
def continuation : Nat → UInt8 → UInt8 → Nat → Bytes → Bytes → Chunk × Bytes
  | 0, _, _, value, _, rest => (.char (Char.ofNat value), rest)
  | _ + 1, _, _, _, seen, [] => (.broken seen.reverse, [])
  | n + 1, low, high, value, seen, b :: rest =>
    if low ≤ b ∧ b ≤ high then
      continuation n 0x80 0xBF (value * 64 + b.toNat % 64) (b :: seen) rest
    else (.broken seen.reverse, b :: rest)

theorem length_continuation_le (n : Nat) (low high : UInt8) (value : Nat) (seen s : Bytes) :
    (continuation n low high value seen s).2.length ≤ s.length := by
  fun_induction continuation n low high value seen s <;> grind

-- The first chunk of a byte string, given by its first byte and the others.
def firstChunk (b : UInt8) (rest : Bytes) : Chunk × Bytes :=
  if b < 0x80 then (.char (Char.ofNat b.toNat), rest)
  else match trail b with
    | none => (.broken [b], rest)
    | some (n, low, high) => continuation n low high (leadBits n b) [b] rest

theorem length_firstChunk_le (b : UInt8) (rest : Bytes) :
    (firstChunk b rest).2.length ≤ rest.length := by
  unfold firstChunk
  split
  · simp
  · split
    · simp
    · exact length_continuation_le ..

def chunks : Bytes → List Chunk
  | [] => []
  | b :: rest => (firstChunk b rest).1 :: chunks (firstChunk b rest).2
termination_by s => s.length
decreasing_by
  have := length_firstChunk_le b rest
  simp only [List.length_cons]
  omega

def charsOf : List Chunk → Option (List Char)
  | [] => some []
  | .char c :: r => (charsOf r).map (c :: ·)
  | .broken _ :: _ => none

-- The text that these bytes encode, if they are UTF-8 throughout.
def text? (b : Bytes) : Option String := (charsOf b.chunks).map String.ofList

-- One replacement character stands for each broken stretch.
def display (b : Bytes) : String :=
  String.ofList <| b.chunks.map fun
    | .char c => c
    | .broken _ => '\uFFFD'

def upperHex (b : UInt8) : List Char :=
  [Nat.digitChar (b.toNat / 16), Nat.digitChar (b.toNat % 16)].map Char.toUpper

-- Every byte of a broken stretch is shown by its value.
def quoteChunk : Chunk → List Char
  | .char c => Text.quoteChar c
  | .broken bytes => bytes.flatMap fun b => ['\\', 'x'] ++ upperHex b

def quote (b : Bytes) : String :=
  String.ofList (Text.enclose (b.chunks.flatMap quoteChunk))

end Bytes
end Roster
