-- Blank characters, and texts without the blanks around them.

namespace Roster.Text

-- The characters with the Unicode property White_Space.
def isBlank (c : Char) : Bool :=
  let n := c.toNat
  (0x09 ≤ n && n ≤ 0x0D) || n = 0x20 || n = 0x85 || n = 0xA0 || n = 0x1680
    || (0x2000 ≤ n && n ≤ 0x200A) || n = 0x2028 || n = 0x2029 || n = 0x202F || n = 0x205F
    || n = 0x3000

def dropTrailing (p : Char → Bool) (s : List Char) : List Char :=
  (s.reverse.dropWhile p).reverse

def trim (s : List Char) : List Char := dropTrailing isBlank (s.dropWhile isBlank)

-- Folds ASCII letters only, so a look-alike letter never becomes an ASCII one.
def foldCase (s : List Char) : List Char := s.map Char.toLower

end Roster.Text
