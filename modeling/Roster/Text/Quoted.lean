import Roster.Text.Hidden

-- Texts in double quotes, with quotes, backslashes and characters that do not show written as
-- escapes. An apostrophe stays as it is.

namespace Roster.Text

def hexDigits (n : Nat) : List Char := Nat.toDigits 16 n

-- How one character stands between the quotes.
def quoteChar (c : Char) : List Char :=
  if c = '"' then ['\\', '"']
  else if c = '\\' then ['\\', '\\']
  else if c = '\n' then ['\\', 'n']
  else if c = '\r' then ['\\', 'r']
  else if c = '\t' then ['\\', 't']
  else if c = '\x00' then ['\\', '0']
  else if isHidden c then "\\u\x7b".toList ++ hexDigits c.toNat ++ "\x7d".toList
  else [c]

def enclose (s : List Char) : List Char := '"' :: s ++ ['"']

def quote (s : String) : String := String.ofList (enclose (s.toList.flatMap quoteChar))

end Roster.Text
