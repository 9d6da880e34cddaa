import Roster.Text.Quoted

-- Values that are well formed and yet not what their place asks for.

namespace Roster

-- What stood there. A float is given in the notation of the format that it was read from.
inductive Found
  | null
  | boolean (b : Bool)
  | integer (n : Int)
  | floating (text : String)
  | string (s : String)
  | sequence
  | map
  | bareChoice
deriving DecidableEq, Repr

namespace Found

def describe : Found → String
  | .null => "null"
  | .boolean b => "boolean `" ++ toString b ++ "`"
  | .integer n => "integer `" ++ toString n ++ "`"
  | .floating text => "floating point `" ++ text ++ "`"
  | .string s => "string " ++ Text.quote s
  | .sequence => "sequence"
  | .map => "map"
  | .bareChoice => "unit variant"

end Found

inductive Mismatch
  | wrongType (found : Found) (expected : String)
  | outOfRange (found : Found) (expected : String)
  | wrongLength (length : Nat) (expected : String)
  | missingField (field : String)
  | duplicateField (field : String)
  | unknownField (field : String) (known : List String)
  | unknownVariant (name : String) (known : List String)
  | noVariant
  | severalVariants
  | variantContent (expected : String)
deriving DecidableEq, Repr

namespace Mismatch

-- The two names of a choice, each between backquotes.
def choice (names : List String) : String :=
  " or ".intercalate (names.map fun n => "`" ++ n ++ "`")

def message : Mismatch → String
  | .wrongType found expected => "invalid type: " ++ found.describe ++ ", expected " ++ expected
  | .outOfRange found expected => "invalid value: " ++ found.describe ++ ", expected " ++ expected
  | .wrongLength n expected => "invalid length " ++ toString n ++ ", expected " ++ expected
  | .missingField f => "missing field `" ++ f ++ "`"
  | .duplicateField f => "duplicate field `" ++ f ++ "`"
  | .unknownField f known => "unknown field `" ++ f ++ "`, expected " ++ choice known
  | .unknownVariant n known => "unknown variant `" ++ n ++ "`, expected " ++ choice known
  | .noVariant => "wanted exactly 1 element, found 0 elements"
  | .severalVariants => "wanted exactly 1 element, more than 1 element"
  | .variantContent expected => "expected " ++ expected

end Mismatch
end Roster
