import Roster.Config.File
import Roster.Proofs.Bytes.Utf8
import Roster.Proofs.Config.Section
import Roster.Proofs.Toml.Spelling

namespace Roster.Config

open Toml

-- The two keys at the top, behind the header of the section, behind its name and a point, or in braces.
inductive Layout
  | top
  | header
  | dotted
  | braces

def inOrder {α : Type} (swapped : Bool) (a b : α) : List α := if swapped then [b, a] else [a, b]

-- Both entries, with the same text in front of their keys.
def assignments (swapped : Bool) (front kind path : List Char) : List (List Char) :=
  inOrder swapped (assignment (front ++ "backend".toList) kind)
    (assignment (front ++ "base_path".toList) path)

def document (layout : Layout) (swapped : Bool) (kind path : List Char) : List Char :=
  match layout with
  | .top => onLines (assignments swapped [] kind path)
  | .header => "[storage]\n".toList ++ onLines (assignments swapped [] kind path)
  | .dotted => onLines (assignments swapped "storage.".toList kind path)
  | .braces => onLines [assignment "storage".toList (inBraces (assignments swapped [] kind path))]

variable {k : Backend} {p : String} {kind path x y : List Char} {text : String} {swapped : Bool}

theorem isName_backend : IsName "backend".toList := ⟨by decide, List.all_eq_true.1 (by decide)⟩

theorem isName_basePath : IsName "base_path".toList := ⟨by decide, List.all_eq_true.1 (by decide)⟩

theorem isName_section : IsName "storage".toList := ⟨by decide, List.all_eq_true.1 (by decide)⟩

section Entries

def entries (swapped : Bool) (front : List String) (k : Backend) (p : String) : List Entry :=
  inOrder swapped ⟨⟨front, "backend"⟩, .scalar (.string k.name)⟩
    ⟨⟨front, "base_path"⟩, .scalar (.string p)⟩

-- The table that they come to. Its keys stand in order.
def settings (k : Backend) (p : String) : Table :=
  [("backend", .scalar (.string k.name)), ("base_path", .scalar (.string p))]

def draft (swapped : Bool) (k : Backend) (p : String) : Draft :=
  inOrder swapped ("backend", .scalar (.string k.name)) ("base_path", .scalar (.string p))

theorem forall₂_inOrder {α β : Type} {R : α → β → Prop} {a b : α} {c d : β} (hac : R a c) (hbd : R b d)
    (swapped : Bool) : List.Forall₂ R (inOrder swapped a b) (inOrder swapped c d) := by
  cases swapped with
  | false => exact .cons hac (.cons hbd .nil)
  | true => exact .cons hbd (.cons hac .nil)

theorem writes_assignments (hk : StringText k.name kind) (hp : StringText p path) (swapped : Bool) :
    List.Forall₂ Writes (assignments swapped [] kind path) (entries swapped [] k p) :=
  forall₂_inOrder (writes_string isName_backend hk) (writes_string isName_basePath hp) swapped

theorem writes_dottedAssignments (hk : StringText k.name kind) (hp : StringText p path)
    (swapped : Bool) :
    List.Forall₂ Writes (assignments swapped "storage.".toList kind path)
      (entries swapped ["storage"] k p) :=
  forall₂_inOrder (writes_dotted isName_section isName_backend hk)
    (writes_dotted isName_section isName_basePath hp) swapped

theorem assignAll_entries (swapped : Bool) (k : Backend) (p : String) :
    assignAll (entries swapped [] k p) [] = some (draft swapped k p) := by
  cases swapped <;> simp [entries, inOrder, draft, assignAll, assign, lookUp, enter]

theorem assignAll_dotted (swapped : Bool) (k : Backend) (p : String) :
    assignAll (entries swapped ["storage"] k p) [] =
      some [("storage", .table .dotted (draft swapped k p))] := by
  cases swapped <;> simp [entries, inOrder, draft, assignAll, assign, lookUp, enter]

theorem finishEntries_draft (swapped : Bool) (k : Backend) (p : String) :
    finishEntries (draft swapped k p) = some (settings k p) := by
  have hlt : "backend" < "base_path" := by decide
  have hne : "base_path" ≠ "backend" := by decide
  have hnlt : ¬"base_path" < "backend" := by decide
  cases swapped <;>
    simp [draft, inOrder, settings, finishEntries, Node.finish, Ordered.put, hlt, hne, hnlt]

theorem tableValue_draft (swapped : Bool) (k : Backend) (p : String) :
    tableValue (draft swapped k p) (finishEntries (draft swapped k p)) =
      some (.table (settings k p)) := by
  rw [tableValue_of_ne, finishEntries_draft]
  · rfl
  · have hbackend : "backend" ≠ dateTimeKey := by decide
    have hbasePath : "base_path" ≠ dateTimeKey := by decide
    cases swapped with
    | false =>
      rintro _ ⟨⟩
      exact hbackend
    | true =>
      rintro _ ⟨⟩
      exact hbasePath

theorem finish_section (origin : Origin) (swapped : Bool) (k : Backend) (p : String) :
    finishEntries [("storage", .table origin (draft swapped k p))] =
      some [("storage", .table (settings k p))] := by
  simp [finishEntries, Node.finish, tableValue_draft, Ordered.put]

theorem ofValue_settings (k : Backend) (p : String) :
    ofValue (.table (settings k p)) = .ok ⟨k, Bytes.ofString p⟩ := by
  have hkind : readEntry {} ("backend", .scalar (.string k.name)) = .ok { backend := k } :=
    readEntry_eq_ok_iff.2 (.backend (.name k))
  have hpath : readEntry { backend := k } ("base_path", .scalar (.string p)) =
      .ok ⟨k, Bytes.ofString p⟩ :=
    readEntry_eq_ok_iff.2 (.basePath (.text p))
  have hfold : ofEntries (settings k p) =
      (readEntry {} ("backend", .scalar (.string k.name))).bind fun c =>
        (readEntry c ("base_path", .scalar (.string p))).bind .ok := rfl
  rw [ofValue, hfold, hkind]
  exact congrArg (Except.bind · .ok) hpath

end Entries

section Layouts

theorem read?_top (hk : StringText k.name kind) (hp : StringText p path)
    (htext : text.toList = document .top swapped kind path) :
    Toml.read? text = some (settings k p) := by
  have hread := read?_onLines (writes_assignments hk hp swapped) htext
  rw [read?_eq_of_entries hread, assignAll_entries, Option.bind_some, finishEntries_draft]

theorem read?_header (hk : StringText k.name kind) (hp : StringText p path)
    (htext : text.toList = document .header swapped kind path) :
    Toml.read? text = some [("storage", .table (settings k p))] := by
  let lines := String.ofList (onLines (assignments swapped [] kind path))
  have hlines : lines.toList = onLines (assignments swapped [] kind path) := String.toList_ofList
  have hsplit : text = "[storage]\n" ++ lines := by
    rw [← String.toList_inj, htext, @String.toList_append "[storage]\n" lines, hlines]
    rfl
  have hmark : lines.toList.head? ≠ some '\uFEFF' := by
    rw [hlines]
    cases swapped <;> (intro h; cases h)
  have hread := read?_onLines (writes_assignments hk hp swapped) hlines
  rw [hsplit, read?_eq_of_section hread hmark, assignAll_entries, Option.bind_some, tableValue_draft]
  rfl

theorem read?_dotted (hk : StringText k.name kind) (hp : StringText p path)
    (htext : text.toList = document .dotted swapped kind path) :
    Toml.read? text = some [("storage", .table (settings k p))] := by
  have hread := read?_onLines (writes_dottedAssignments hk hp swapped) htext
  rw [read?_eq_of_entries hread, assignAll_dotted, Option.bind_some, finish_section]

theorem writes_braces (hk : StringText k.name kind) (hp : StringText p path) (swapped : Bool) :
    Writes (assignment "storage".toList (inBraces (assignments swapped [] kind path)))
      ⟨⟨[], "storage"⟩, .table .closed (draft swapped k p)⟩ := by
  have hassign := assignAll_entries swapped k p
  cases swapped with
  | false => exact writes_inBraces isName_section isName_backend isName_basePath hk hp hassign
  | true => exact writes_inBraces isName_section isName_basePath isName_backend hp hk hassign

theorem read?_braces (hk : StringText k.name kind) (hp : StringText p path)
    (htext : text.toList = document .braces swapped kind path) :
    Toml.read? text = some [("storage", .table (settings k p))] := by
  have hread := read?_onLines (.cons (writes_braces hk hp swapped) .nil) htext
  have hassign : assignAll [⟨⟨[], "storage"⟩, .table .closed (draft swapped k p)⟩] [] =
      some [("storage", .table .closed (draft swapped k p))] := rfl
  rw [read?_eq_of_entries hread, hassign, Option.bind_some, finish_section]

theorem ofToml_layout (layout : Layout) (swapped : Bool) (hk : StringText k.name kind)
    (hp : StringText p path) (htext : text.toList = document layout swapped kind path) :
    ofToml text = .ok ⟨k, Bytes.ofString p⟩ := by
  rw [← ofValue_settings]
  cases layout with
  | top =>
    refine ofToml_of_read? (read?_top hk hp htext) (.inr ⟨fun v hv => ?_, rfl⟩)
    simp [settings] at hv
  | header => exact ofToml_of_read? (read?_header hk hp htext) (.inl rfl)
  | dotted => exact ofToml_of_read? (read?_dotted hk hp htext) (.inl rfl)
  | braces => exact ofToml_of_read? (read?_braces hk hp htext) (.inl rfl)

-- Every path has a spelling between quotes, and whatever the spelling is, it is read back.
theorem ofToml_document (layout : Layout) (swapped : Bool) (k : Backend) (p : String) :
    (∃ x, BasicText p.toList x) ∧
      ∀ kind path text, StringText k.name kind → StringText p path →
        text.toList = document layout swapped kind path →
        ofToml text = .ok ⟨k, Bytes.ofString p⟩ ∧
          ∀ (read : FileReader) file, read file = .ok (Bytes.ofString text) →
            ofFile read file = .ok ⟨k, Bytes.ofString p⟩ := by
  refine ⟨exists_basicText p.toList, fun kind path text hk hp htext => ?_⟩
  have hread := ofToml_layout layout swapped hk hp htext
  refine ⟨hread, fun read file hfile => ?_⟩
  rw [ofFile, hfile]
  simp only [Bytes.text?_ofString, hread]
  rfl

-- A path with a quote and a line end, in braces and with the path first.
theorem ofToml_document_braces :
    ofToml "storage = \x7b base_path = \"a\\\"b\\u000A\", backend = 'file' \x7d\n" =
      .ok ⟨.file, Bytes.ofString "a\"b\n"⟩ := by
  have hkind : StringText Backend.file.name "'file'".toList :=
    .literal (List.all_eq_true.1 (by decide))
  have hend : BasicText ['\n'] "\\u000A".toList :=
    BasicText.number (show ['0', '0', '0', 'A'].length = 4 from rfl) (by decide) (by decide) .nil
  have hpath : StringText "a\"b\n" "\"a\\\"b\\u000A\"".toList :=
    .basic (x := "a\\\"b\\u000A".toList) (.raw rfl (by decide) (by decide) (.escaped (.inl rfl)
      (.raw rfl (by decide) (by decide) hend)))
  exact ((ofToml_document .braces true .file "a\"b\n").2 _ _ _ hkind hpath (by decide)).1

end Layouts

end Roster.Config
