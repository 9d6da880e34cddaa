import Roster.Proofs.Config.Decode
import Roster.Proofs.Toml.Header
import Roster.Proofs.Toml.Keys

namespace Roster.Config

open Toml Ordered

variable {T : Table} {d : Draft} {entries : List Entry} {text : String}

theorem read?_eq_of_entries (hread : Document.read? text = some ⟨entries, []⟩) :
    Toml.read? text = (assignAll entries []).bind finishEntries := by
  rw [Toml.read?, hread, Option.bind_some, table?_entries]

theorem read?_eq_of_section (hread : Document.read? text = some ⟨entries, []⟩)
    (hmark : text.toList.head? ≠ some '\uFEFF') :
    Toml.read? ("[storage]\n" ++ text) =
      (assignAll entries []).bind fun d =>
        (tableValue d (finishEntries d)).map fun v => [("storage", v)] := by
  have htext : ("[storage]\n" ++ text).toList =
      '[' :: "storage".toList ++ ']' :: '\n' :: text.toList := by
    have hheader : "[storage]\n".toList = '[' :: "storage".toList ++ [']', '\n'] := by decide
    rw [@String.toList_append "[storage]\n" text, hheader, List.append_assoc]
    rfl
  have hbare : ∀ c ∈ "storage".toList, isBare c = true := by
    apply List.all_eq_true.1
    decide
  have hne : "storage".toList ≠ [] := by decide
  have hsection := read?_header hne hbare hread hmark htext
  rw [Toml.read?, hsection, Option.bind_some, String.ofList_toList, table?_section]

theorem ofToml_of_read?_eq_none (h : Toml.read? text = none) : ofToml text = .error .notToml := by
  rw [ofToml, h]

theorem ofToml_of_read? {V : Value} (hT : Toml.read? text = some T) (hV : IsSource T V) :
    ofToml text = ofValue V := by
  rw [ofToml, hT]
  exact ofTable_of_isSource hV

-- None of the entries is under the key of the section, so the document itself is what is read.
theorem isSource_of_assignAll (hd : assignAll entries [] = some d) (hT : finishEntries d = some T)
    (hkeys : ∀ e ∈ entries, e.key.top ≠ "storage") : IsSource T (.table T) := by
  refine .inr ⟨?_, rfl⟩
  intro v hv
  have hkey : "storage" ∈ keys T := List.mem_map_of_mem hv
  have hdraft : "storage" ∈ keys d := (mem_keys_finishEntries_iff hT).1 hkey
  rcases (mem_keys_assignAll_iff hd).1 hdraft with hnil | ⟨e, he, htop⟩
  · cases hnil
  · exact hkeys e he htop

theorem head?_keys (hd : assignAll entries [] = some d) :
    (keys d).head? = entries.head?.map fun e => e.key.top := by
  rw [head?_keys_assignAll hd, ← List.head?_map]
  rfl

theorem tableValue_of_ne (hfirst : ∀ k ∈ (keys d).head?, k ≠ dateTimeKey) :
    tableValue d (finishEntries d) = (finishEntries d).map .table := by
  cases d with
  | nil => rfl
  | cons e d =>
    have hne : e.1 ≠ dateTimeKey := hfirst e.1 rfl
    simp [tableValue, hne]

-- What a section comes to that starts with the key of date-times.
theorem tableValue_of_eq {v : Value} (hfirst : (keys d).head? = some dateTimeKey)
    (hv : tableValue d (finishEntries d) = some v) : ∃ x, v = .scalar (.dateTime x) := by
  cases d with
  | nil => cases hfirst
  | cons e d =>
    have heq : e.1 = dateTimeKey := Option.some.inj hfirst
    have hwritten : writtenDateTime e.2 = some v := by simpa [tableValue, heq] using hv
    unfold writtenDateTime at hwritten
    split at hwritten
    · obtain ⟨x, -, rfl⟩ := Option.map_eq_some_iff.1 hwritten
      exact ⟨x, rfl⟩
    · cases hwritten

-- A table is refused for a key that is not known or for the value of one that is.
def IsOfEntry (r : Refusal) : Prop :=
  (∃ key known, r = .mismatch (.unknownField key known) none) ∨ ∃ m key, r = .mismatch m (some key)

theorem isOfEntry_of_readEntry {c : Config} {e : String × Value} {r : Refusal}
    (h : readEntry c e = .error r) : IsOfEntry r := by
  obtain ⟨key, v⟩ := e
  by_cases hb : key = "backend"
  · subst hb
    rw [readEntry_backend, map_within_eq_error_iff] at h
    obtain ⟨m, -, rfl⟩ := h
    exact .inr ⟨m, _, rfl⟩
  · by_cases hp : key = "base_path"
    · subst hp
      rw [readEntry_basePath, map_within_eq_error_iff] at h
      obtain ⟨m, -, rfl⟩ := h
      exact .inr ⟨m, _, rfl⟩
    · rw [readEntry_unknown c v hb hp] at h
      cases h
      exact .inl ⟨_, _, rfl⟩

theorem isOfEntry_of_foldlM {c : Config} {r : Refusal} (h : T.foldlM readEntry c = .error r) :
    IsOfEntry r := by
  induction T generalizing c with
  | nil => cases h
  | cons e T ih =>
    rw [List.foldlM_cons] at h
    rcases Except.bind_eq_error_iff.1 h with he | ⟨c', -, hrest⟩
    · exact isOfEntry_of_readEntry he
    · exact ih hrest

theorem not_isOfEntry_notToml : ¬IsOfEntry .notToml := by
  rintro (⟨_, _, h⟩ | ⟨_, _, h⟩) <;> cases h

theorem not_isOfEntry_struct (x : Found) :
    ¬IsOfEntry (.mismatch (.wrongType x "struct StorageConfig") none) := by
  rintro (⟨_, _, h⟩ | ⟨_, _, h⟩) <;> cases h

-- The key of date-times is none of a config's, so the table is refused.
theorem exists_refusal_of_dateTimeKey (hT : finishEntries d = some T) (hkey : dateTimeKey ∈ keys d) :
    ∃ r, ofValue (.table T) = .error r ∧ IsOfEntry r := by
  cases hvalue : ofValue (.table T) with
  | error r => exact ⟨r, rfl, isOfEntry_of_foldlM hvalue⟩
  | ok c =>
    exfalso
    have hfits : Fits T {} c := (foldlM_readEntry_eq_ok_iff (sorted_finishEntries hT)).1 hvalue
    obtain ⟨e, he, htop⟩ := List.mem_map.1 ((mem_keys_finishEntries_iff hT).2 hkey)
    have hneither : dateTimeKey ≠ "backend" ∧ dateTimeKey ≠ "base_path" := by decide
    rcases hfits.keys e he with hb | hp
    · exact hneither.1 (htop.symm.trans hb)
    · exact hneither.2 (htop.symm.trans hp)

-- The section is a date-time, or the text is no document.
theorem exists_refusal_of_section (hread : Document.read? text = some ⟨entries, []⟩)
    (hmark : text.toList.head? ≠ some '\uFEFF') (hd : assignAll entries [] = some d)
    (hfirst : (keys d).head? = some dateTimeKey) :
    ∃ r, ofToml ("[storage]\n" ++ text) = .error r ∧ ¬IsOfEntry r := by
  have hsection := read?_eq_of_section hread hmark
  rw [hd, Option.bind_some] at hsection
  cases hv : tableValue d (finishEntries d) with
  | none =>
    rw [hv] at hsection
    exact ⟨_, ofToml_of_read?_eq_none hsection, not_isOfEntry_notToml⟩
  | some v =>
    obtain ⟨x, rfl⟩ := tableValue_of_eq hfirst hv
    rw [hv] at hsection
    exact ⟨_, ofToml_of_read? hsection (.inl rfl), not_isOfEntry_struct _⟩

theorem section_eq_document (hread : Document.read? text = some ⟨entries, []⟩)
    (hmark : text.toList.head? ≠ some '\uFEFF') (hkeys : ∀ e ∈ entries, e.key.top ≠ "storage")
    (hfirst : ∀ e ∈ entries.head?, e.key.top ≠ dateTimeKey) :
    ofToml ("[storage]\n" ++ text) = ofToml text := by
  have hdocument := read?_eq_of_entries hread
  have hsection := read?_eq_of_section hread hmark
  cases hd : assignAll entries [] with
  | none =>
    rw [hd] at hdocument hsection
    rw [ofToml_of_read?_eq_none hdocument, ofToml_of_read?_eq_none hsection]
  | some d =>
    have hvalue : tableValue d (finishEntries d) = (finishEntries d).map .table := by
      apply tableValue_of_ne
      intro k hk
      rw [head?_keys hd] at hk
      obtain ⟨e, he, rfl⟩ := Option.map_eq_some_iff.1 hk
      exact hfirst e he
    rw [hd, Option.bind_some] at hdocument hsection
    rw [hvalue] at hsection
    cases hT : finishEntries d with
    | none =>
      rw [hT] at hdocument hsection
      rw [ofToml_of_read?_eq_none hdocument, ofToml_of_read?_eq_none hsection]
    | some T =>
      rw [hT] at hdocument hsection
      rw [ofToml_of_read? hdocument (isSource_of_assignAll hd hT hkeys),
        ofToml_of_read? hsection (.inl rfl)]

theorem section_ne_document (hread : Document.read? text = some ⟨entries, []⟩)
    (hmark : text.toList.head? ≠ some '\uFEFF') (hkeys : ∀ e ∈ entries, e.key.top ≠ "storage")
    {e : Entry} (he : entries.head? = some e) (htop : e.key.top = dateTimeKey)
    (hT : Toml.read? text = some T) : ofToml ("[storage]\n" ++ text) ≠ ofToml text := by
  have hbuilt := (read?_eq_of_entries hread).symm.trans hT
  obtain ⟨d, hd, hfinish⟩ := Option.bind_eq_some_iff.1 hbuilt
  have hfirst : (keys d).head? = some dateTimeKey := by
    rw [head?_keys hd, he, Option.map_some, htop]
  obtain ⟨r, hr, hentry⟩ := exists_refusal_of_dateTimeKey hfinish (List.mem_of_head? hfirst)
  obtain ⟨r', hr', hnone⟩ := exists_refusal_of_section hread hmark hd hfirst
  have hdocument : ofToml text = .error r := by
    rw [ofToml_of_read? hT (isSource_of_assignAll hd hfinish hkeys), hr]
  intro hsame
  rw [hdocument, hr'] at hsame
  cases hsame
  exact hnone hentry

-- A document is always a table, but a section that starts with the key of written date-times is a
-- date-time.
theorem ofToml_section (hread : Document.read? text = some ⟨entries, []⟩)
    (hmark : text.toList.head? ≠ some '\uFEFF')
    (hkeys : ∀ e ∈ entries, e.key.top ≠ "storage") :
    ((∀ e ∈ entries.head?, e.key.top ≠ dateTimeKey) →
      ofToml ("[storage]\n" ++ text) = ofToml text) ∧
    ((∃ e ∈ entries.head?, e.key.top = dateTimeKey) → (Toml.read? text).isSome →
      ofToml ("[storage]\n" ++ text) ≠ ofToml text) := by
  constructor
  · exact section_eq_document hread hmark hkeys
  · rintro ⟨e, he, htop⟩ hsome
    obtain ⟨T, hT⟩ := Option.isSome_iff_exists.1 hsome
    exact section_ne_document hread hmark hkeys he htop hT

-- A key of two parts, a comment and a bad kind.
def mixture : String := "a.b = 1 # c\n\nbackend = 'x'"

theorem ofToml_section_mixture :
    ofToml ("[storage]\n" ++ mixture) = ofToml mixture ∧
      ofToml mixture =
        .error (.mismatch (.unknownField "a" ["backend", "base_path"]) none) := by
  have hread : Document.read? mixture =
      some ⟨[⟨⟨["a"], "b"⟩, .scalar (.integer 1)⟩, ⟨⟨[], "backend"⟩, .scalar (.string "x")⟩], []⟩ := by
    cbv
  have hmark : mixture.toList.head? ≠ some '\uFEFF' := by decide
  refine ⟨(ofToml_section hread hmark ?_).1 ?_, by cbv⟩
  · simp [Key.top]
  · simp [Key.top, dateTimeKey]

-- A string under the key of date-times, and nothing else.
def dateTimeFirst : String := "\"$__toml_private_datetime\" = \"1979-05-27\"\n"

-- The table has an unknown key; the section is no table.
theorem section_ne_document_dateTimeFirst :
    ¬∀ text entries, Document.read? text = some ⟨entries, []⟩ → (Toml.read? text).isSome →
      text.toList.head? ≠ some '\uFEFF' → (∀ e ∈ entries, e.key.top ≠ "storage") →
      ofToml ("[storage]\n" ++ text) = ofToml text := by
  intro hsame
  have hread : Document.read? dateTimeFirst =
      some ⟨[⟨⟨[], dateTimeKey⟩, .scalar (.string "1979-05-27")⟩], []⟩ := by
    cbv
  have htable : (Toml.read? dateTimeFirst).isSome := by cbv
  have hmark : dateTimeFirst.toList.head? ≠ some '\uFEFF' := by decide
  have hdocument : ofToml dateTimeFirst =
      .error (.mismatch (.unknownField dateTimeKey ["backend", "base_path"]) none) := by
    cbv
  have hsection : ofToml ("[storage]\n" ++ dateTimeFirst) =
      .error (.mismatch (.wrongType (.string "1979-05-27") "struct StorageConfig") none) := by
    cbv
  have heq := hsame dateTimeFirst _ hread htable hmark (by simp [Key.top, dateTimeKey])
  rw [hdocument, hsection] at heq
  cases heq

end Roster.Config
