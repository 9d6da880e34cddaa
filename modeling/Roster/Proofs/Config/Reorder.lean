import Roster.Proofs.Config.Section
import Roster.Proofs.Toml.Reorder
import Roster.Proofs.Toml.Written

namespace Roster.Config

open Toml

variable {xs xs' : List (List Char)} {text text' : String}

theorem isValue_of_mem_entriesOf : ∀ e ∈ entriesOf xs, IsValue e.value := by
  intro e he
  obtain ⟨x, -, hx⟩ := List.mem_filterMap.1 he
  exact isValue_of_readEntry (readEntry_of_expression? hx)

theorem allRead_of_perm (h : xs.Perm xs') : AllRead xs ↔ AllRead xs' :=
  ⟨fun hxs x hx => hxs x (h.mem_iff.2 hx), fun hxs x hx => hxs x (h.mem_iff.1 hx)⟩

theorem read?_of_allRead (hxs : ∀ x ∈ xs, ExpressionText x) (h : Written xs text.toList)
    (hall : AllRead xs) :
    Toml.read? text = (assignAll (entriesOf xs) []).bind finishEntries := by
  have hread := read?_of_written h hxs
  rw [if_pos hall] at hread
  exact read?_eq_of_entries hread

theorem read?_of_not_allRead (hxs : ∀ x ∈ xs, ExpressionText x) (h : Written xs text.toList)
    (hall : ¬AllRead xs) : Toml.read? text = none := by
  have hread := read?_of_written h hxs
  rw [if_neg hall] at hread
  rw [Toml.read?, hread, Option.bind_none]

theorem read?_reordered (hxs : ∀ x ∈ xs, ExpressionText x) (h : Written xs text.toList)
    (h' : Written xs' text'.toList) (hperm : xs.Perm xs')
    (hfirst : ∀ path ≠ [], StartsAsDateTime (belowAll path (entriesOf xs)) ↔
      StartsAsDateTime (belowAll path (entriesOf xs'))) : Toml.read? text = Toml.read? text' := by
  have hxs' : ∀ x ∈ xs', ExpressionText x := fun x hx => hxs x (hperm.mem_iff.2 hx)
  by_cases hall : AllRead xs
  · have hall' := (allRead_of_perm hperm).1 hall
    rw [read?_of_allRead hxs h hall, read?_of_allRead hxs' h' hall']
    exact finish_of_perm isValue_of_mem_entriesOf (hperm.filterMap expression?) hfirst
  · have hall' : ¬AllRead xs' := fun h => hall ((allRead_of_perm hperm).2 h)
    rw [read?_of_not_allRead hxs h hall, read?_of_not_allRead hxs' h' hall']

-- The one exception are tables of dotted keys that start with the key of written date-times in one
-- order and not in the other.
theorem ofToml_reordered (hxs : ∀ x ∈ xs, ExpressionText x) (h : Written xs text.toList)
    (h' : Written xs' text'.toList) (hperm : xs.Perm xs')
    (hfirst : ∀ path ≠ [], StartsAsDateTime (belowAll path (entriesOf xs)) ↔
      StartsAsDateTime (belowAll path (entriesOf xs'))) : ofToml text = ofToml text' := by
  rw [ofToml, ofToml, read?_reordered hxs h h' hperm hfirst]

def dottedKey : List Char := "a.b = 1".toList
def badPath : List Char := "base_path = 2".toList

theorem expressionText_dottedKey : ExpressionText dottedKey := by
  have hkey : KeyText "a.b ".toList :=
    .point (x := ['a']) (b := []) (q := []) (.bare nofun rfl) rfl rfl
      (.last (x := ['b']) (b := [' ']) (.bare nofun rfl) rfl)
  have hone : NumeralText ['1'] :=
    .decimal .none (.digits (c := '1') rfl (by decide) .nil) .none .none
  exact ⟨_, _, hkey, .numeral hone, .equals (b := [' ']) rfl⟩

theorem expressionText_badPath : ExpressionText badPath := by
  have hkey : KeyText "base_path ".toList :=
    .last (x := "base_path".toList) (b := [' ']) (.bare nofun rfl) rfl
  have htwo : NumeralText ['2'] :=
    .decimal .none (.digits (c := '2') rfl (by decide) .nil) .none .none
  exact ⟨_, _, hkey, .numeral htwo, .equals (b := [' ']) rfl⟩

-- The same two expressions, among comments and with other line ends.
theorem ofToml_reordered_commented :
    ofToml "a.b = 1\nbase_path = 2\n" = ofToml "# c\r\n\r\nbase_path = 2 # d\r\n  a.b = 1" := by
  have hxs : ∀ x ∈ [dottedKey, badPath], ExpressionText x :=
    List.forall_mem_cons.2 ⟨expressionText_dottedKey, List.forall_mem_singleton.2 expressionText_badPath⟩
  have h : Written [dottedKey, badPath] "a.b = 1\nbase_path = 2\n".toList := by
    have htext : "a.b = 1\nbase_path = 2\n".toList = onLines [dottedKey, badPath] := by decide
    rw [htext]
    exact written_onLines hxs
  have h' : Written [badPath, dottedKey] "# c\r\n\r\nbase_path = 2 # d\r\n  a.b = 1".toList := by
    have hsplit : "# c\r\n\r\nbase_path = 2 # d\r\n  a.b = 1".toList =
        ([] ++ '#' :: [' ', 'c']) ++ (['\r', '\n'] ++ ([] ++ (['\r', '\n'] ++
          ([] ++ (badPath ++ (([' '] ++ '#' :: [' ', 'd']) ++ (['\r', '\n'] ++
            ([' ', ' '] ++ (dottedKey ++ []))))))))) := by
      decide
    rw [hsplit]
    refine .blank (.comment rfl rfl) (.inr rfl) (.blank (.blanks rfl) (.inr rfl) ?_)
    refine .line rfl expressionText_badPath.sameLines_self (.comment rfl rfl) (.inr rfl) ?_
    exact .lastLine rfl expressionText_dottedKey.sameLines_self (.blanks rfl)
  have hkeys : ∀ e ∈ entriesOf [dottedKey, badPath],
      dateTimeKey ∉ e.key.path ∧ e.key.name ≠ dateTimeKey := by
    have hentries : entriesOf [dottedKey, badPath] =
        [⟨⟨["a"], "b"⟩, .scalar (.integer 1)⟩, ⟨⟨[], "base_path"⟩, .scalar (.integer 2)⟩] := by
      cbv
    rw [hentries]
    simp [dateTimeKey]
  have hkeys' : ∀ e ∈ entriesOf [badPath, dottedKey],
      dateTimeKey ∉ e.key.path ∧ e.key.name ≠ dateTimeKey := fun e he =>
    hkeys e (((List.Perm.swap ..).filterMap expression?).mem_iff.1 he)
  exact ofToml_reordered hxs h h' (List.Perm.swap ..) fun path _ =>
    iff_of_false (not_startsAsDateTime hkeys path) (not_startsAsDateTime hkeys' path)

def dateTimeFirstKey : List Char := "storage.\"$__toml_private_datetime\" = \"1979-05-27\"".toList
def otherKey : List Char := "storage.z = 1".toList

-- A text without quotes and escapes stands between quotes as it is.
theorem bodyText_of_all {s : List Char} (h : s.all fun c => isText c && c ≠ '"' && c ≠ '\\') :
    BodyText s := by
  induction s with
  | nil => exact .nil
  | cons c s ih =>
    simp only [List.all_cons, Bool.and_eq_true, decide_eq_true_eq] at h
    exact .text h.1.1.1 h.1.1.2 h.1.2 (ih h.2)

theorem expressionText_dateTimeFirstKey : ExpressionText dateTimeFirstKey := by
  have hquoted : QuotedText "\"$__toml_private_datetime\"".toList :=
    .basic (s := "$__toml_private_datetime".toList) (bodyText_of_all rfl)
  have hkey : KeyText "storage.\"$__toml_private_datetime\" ".toList :=
    .point (x := "storage".toList) (b := []) (q := []) (.bare nofun rfl) rfl rfl
      (.last (b := [' ']) (.quoted hquoted) rfl)
  have hdate : QuotedText "\"1979-05-27\"".toList :=
    .basic (s := "1979-05-27".toList) (bodyText_of_all rfl)
  exact ⟨_, _, hkey, .string hdate, .equals (b := [' ']) rfl⟩

theorem expressionText_otherKey : ExpressionText otherKey := by
  have hkey : KeyText "storage.z ".toList :=
    .point (x := "storage".toList) (b := []) (q := []) (.bare nofun rfl) rfl rfl
      (.last (x := ['z']) (b := [' ']) (.bare nofun rfl) rfl)
  have hone : NumeralText ['1'] :=
    .decimal .none (.digits (c := '1') rfl (by decide) .nil) .none .none
  exact ⟨_, _, hkey, .numeral hone, .equals (b := [' ']) rfl⟩

theorem expression?_dateTimeFirstKey :
    expression? dateTimeFirstKey =
      some ⟨⟨["storage"], dateTimeKey⟩, .scalar (.string "1979-05-27")⟩ := by
  cbv

theorem expression?_otherKey :
    expression? otherKey = some ⟨⟨["storage"], "z"⟩, .scalar (.integer 1)⟩ := by
  cbv

theorem table_dateTimeFirst :
    (assignAll (entriesOf [dateTimeFirstKey, otherKey]) []).bind finishEntries =
      some [("storage", .scalar (.dateTime (.date ⟨1979, 5, 27⟩)))] := by
  have hdate : DateTime.ofString? "1979-05-27" = some (.date ⟨1979, 5, 27⟩) := by cbv
  simp [entriesOf, expression?_dateTimeFirstKey, expression?_otherKey, assignAll, assign, lookUp, enter,
    finishEntries, Node.finish, tableValue, writtenDateTime, hdate, Ordered.put, dateTimeKey]

theorem table_dateTimeLast :
    (assignAll (entriesOf [otherKey, dateTimeFirstKey]) []).bind finishEntries =
      some [("storage", .table [(dateTimeKey, .scalar (.string "1979-05-27")),
        ("z", .scalar (.integer 1))])] := by
  have hne : "z" ≠ dateTimeKey := by decide
  have hlt : ¬"z" < dateTimeKey := by decide
  simp [entriesOf, expression?_dateTimeFirstKey, expression?_otherKey, assignAll, assign, lookUp, enter,
    finishEntries, Node.finish, tableValue, Ordered.put, hne, hne.symm, hlt]

-- The section is a date-time in one order and a table with unknown keys in the other.
theorem reordered_ne_dateTimeFirstKey :
    ¬∀ (xs xs' : List (List Char)) (text text' : String), (∀ x ∈ xs, ExpressionText x) →
      Written xs text.toList → Written xs' text'.toList → xs.Perm xs' →
      ofToml text = ofToml text' := by
  intro hsame
  have hxs : ∀ x ∈ [dateTimeFirstKey, otherKey], ExpressionText x :=
    List.forall_mem_cons.2
      ⟨expressionText_dateTimeFirstKey, List.forall_mem_singleton.2 expressionText_otherKey⟩
  have hxs' : ∀ x ∈ [otherKey, dateTimeFirstKey], ExpressionText x := fun x hx =>
    hxs x ((List.Perm.swap ..).mem_iff.1 hx)
  have h : Written [dateTimeFirstKey, otherKey]
      "storage.\"$__toml_private_datetime\" = \"1979-05-27\"\nstorage.z = 1\n".toList := by
    have htext : "storage.\"$__toml_private_datetime\" = \"1979-05-27\"\nstorage.z = 1\n".toList =
        onLines [dateTimeFirstKey, otherKey] := by decide
    rw [htext]
    exact written_onLines hxs
  have h' : Written [otherKey, dateTimeFirstKey]
      "storage.z = 1\nstorage.\"$__toml_private_datetime\" = \"1979-05-27\"\n".toList := by
    have htext : "storage.z = 1\nstorage.\"$__toml_private_datetime\" = \"1979-05-27\"\n".toList =
        onLines [otherKey, dateTimeFirstKey] := by decide
    rw [htext]
    exact written_onLines hxs'
  have hread : AllRead [dateTimeFirstKey, otherKey] := by
    simp [AllRead, expression?_dateTimeFirstKey, expression?_otherKey]
  have hread' : AllRead [otherKey, dateTimeFirstKey] := (allRead_of_perm (List.Perm.swap ..)).1 hread
  have heq := hsame _ _ _ _ hxs h h' (List.Perm.swap ..)
  rw [ofToml, ofToml, read?_of_allRead hxs h hread, read?_of_allRead hxs' h' hread',
    table_dateTimeFirst, table_dateTimeLast] at heq
  exact absurd heq (by decide)

end Roster.Config
