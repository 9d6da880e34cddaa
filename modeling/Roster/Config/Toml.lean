import Roster.Config
import Roster.Error
import Roster.Mismatch
import Roster.Toml.Document

-- Configs from TOML documents.
--
-- The two keys stand at the top of a document or in its table `storage`, and then nothing may stand
-- beside that table. Keys are looked at in their order, so the least bad one is reported.

namespace Roster.Config

open Toml

-- Why a text gives no config. A mismatch may lie in the value of a key.
inductive Refusal
  | notToml
  | strayKey (key : String)
  | mismatch (m : Mismatch) (key : Option String)
deriving DecidableEq, Repr

namespace Refusal

def message : Refusal → String
  | .notToml => "TOML parse error"
  | .strayKey key => "unexpected key `" ++ key ++ "` alongside [storage]"
  | .mismatch m none => m.message ++ "\n"
  | .mismatch m (some key) => m.message ++ "\nin `" ++ key ++ "`\n"

def error (r : Refusal) : StorageError := .config r.message

end Refusal

-- What a value is called where another type is wanted. A date-time counts as its text.
def found : Value → Found
  | .scalar (.string s) => .string s
  | .scalar (.integer n) => .integer n
  | .scalar (.float x) => .floating x.text
  | .scalar (.boolean b) => .boolean b
  | .scalar (.dateTime d) => .string d.text
  | .array _ => .sequence
  | .table _ => .map

def readKindName (s : String) : Except Mismatch Backend :=
  match Backend.named? s with
  | some k => .ok k
  | none => .error (.unknownVariant s (Backend.all.map Backend.name))

def typeName : Scalar → String
  | .string _ => "string"
  | .integer _ => "integer"
  | .float _ => "float"
  | .boolean _ => "boolean"
  | .dateTime _ => "datetime"

-- Nothing may be said about a kind besides its name.
def readKindContent (v : Value) : Except Mismatch Unit :=
  match v with
  | .array [] => .ok ()
  | .table [] => .ok ()
  | .array _ => .error (.variantContent "empty array")
  | .table _ => .error (.variantContent "empty table")
  | .scalar s => .error (.variantContent ("table, found " ++ typeName s))

-- A name, or a table with that name as its one key.
def readKind (v : Value) : Except Mismatch Backend :=
  match v with
  | .scalar (.string s) => readKindName s
  | .table [] => .error .noVariant
  | .table [(s, content)] => do
    let k ← readKindName s
    readKindContent content
    return k
  | .table _ => .error .severalVariants
  | _ => .error (.wrongType .bareChoice "string only")

def readBasePath (v : Value) : Except Mismatch Bytes :=
  match v with
  | .scalar (.string s) => .ok (Bytes.ofString s)
  | .scalar (.dateTime d) => .ok (Bytes.ofString d.text)
  | v => .error (.wrongType (found v) "path string")

def backendKey : String := "backend"
def basePathKey : String := "base_path"

def within (key : String) {α : Type} (r : Except Mismatch α) : Except Refusal α :=
  r.mapError fun m => .mismatch m (some key)

def readEntry (c : Config) (e : String × Value) : Except Refusal Config :=
  if e.1 = backendKey then (within backendKey (readKind e.2)).map fun k => { c with backend := k }
  else if e.1 = basePathKey then
    (within basePathKey (readBasePath e.2)).map fun p => { c with basePath := p }
  else .error (.mismatch (.unknownField e.1 [backendKey, basePathKey]) none)

def ofEntries (t : Table) : Except Refusal Config := t.foldlM readEntry {}

-- The values in order, without their keys. Those that are left out keep their defaults.
def readItems (vs : List Value) : Except Mismatch Config :=
  match vs with
  | [] => .ok {}
  | [b] => (readKind b).map fun k => { backend := k }
  | b :: p :: rest => do
    let k ← readKind b
    let path ← readBasePath p
    if rest.isEmpty then return { backend := k, basePath := path }
    else .error (.wrongLength vs.length "fewer elements in array")

def ofValue (v : Value) : Except Refusal Config :=
  match v with
  | .table t => ofEntries t
  | .array vs => (readItems vs).mapError fun m => .mismatch m none
  | v => .error (.mismatch (.wrongType (found v) "struct StorageConfig") none)

def sectionKey : String := "storage"

def ofTable (t : Table) : Except Refusal Config :=
  match Ordered.find? Prod.fst sectionKey t with
  | none => ofEntries t
  | some (_, v) =>
    match Ordered.erase Prod.fst sectionKey t with
    | [] => ofValue v
    | (key, _) :: _ => .error (.strayKey key)

def ofToml (text : String) : Except Refusal Config :=
  match Toml.read? text with
  | none => .error .notToml
  | some t => ofTable t

end Roster.Config
