import Mathlib.Data.List.Basic
import Roster.Toml.Document

namespace Roster.Toml

variable {name : List Char} {c : Char}

theorem ne_of_isBare {d : Char} (hc : isBare c = true) (hd : isBare d = false) : c ≠ d := by
  rintro rfl
  exact absurd hc (by simp [hd])

theorem skipWs_of_isBare (hc : isBare c = true) (s : List Char) : skipWs (c :: s) = c :: s := by
  have hblank : isWs c = false := by
    have hspace : c ≠ ' ' := ne_of_isBare hc (by decide)
    have htab : c ≠ '\t' := ne_of_isBare hc (by decide)
    simp [isWs, hspace, htab]
  rw [skipWs, List.dropWhile_cons_of_neg (by simp [hblank])]

-- Nothing that could go on with a part of a key.
def EndsPart (t : List Char) : Prop := ∀ c ∈ t.head?, isBare c = false

theorem endsPart_cons (hc : isBare c = false) (t : List Char) : EndsPart (c :: t) := by
  rintro _ ⟨⟩
  exact hc

-- A bare name goes as far as its characters do.
theorem readPart_bare (hne : name ≠ []) (hbare : ∀ c ∈ name, isBare c = true) {t : List Char}
    (ht : EndsPart t) : readPart (name ++ t) = some (String.ofList name, t) := by
  have htake : (name ++ t).takeWhile isBare = name := by
    rw [List.takeWhile_append_of_pos hbare]
    cases t with
    | nil => simp
    | cons c t => simp [ht c rfl]
  have hdrop : (name ++ t).dropWhile isBare = t := by
    rw [List.dropWhile_append_of_pos hbare]
    cases t with
    | nil => rfl
    | cons c t => simp [ht c rfl]
  obtain ⟨c, rest, rfl⟩ := List.exists_cons_of_ne_nil hne
  have hc := hbare c List.mem_cons_self
  have hquote : c ≠ '"' := ne_of_isBare hc (by decide)
  have happos : c ≠ '\'' := ne_of_isBare hc (by decide)
  rw [List.cons_append] at htake hdrop ⊢
  simp [readPart, hquote, happos, htake, hdrop]

theorem readKey_bare (hne : name ≠ []) (hbare : ∀ c ∈ name, isBare c = true) (s : List Char) :
    readKey (name ++ ']' :: s) = some (⟨[], String.ofList name⟩, ']' :: s) := by
  have hclosing : skipWs (']' :: s) = ']' :: s := rfl
  have hblanks : skipWs (name ++ ']' :: s) = name ++ ']' :: s := by
    obtain ⟨c, rest, rfl⟩ := List.exists_cons_of_ne_nil hne
    exact skipWs_of_isBare (hbare c List.mem_cons_self) _
  have hparts : readParts (name ++ ']' :: s) = some ([String.ofList name], ']' :: s) := by
    rw [readParts, hblanks, readPart_bare hne hbare (endsPart_cons rfl s)]
    simp [hclosing]
  simp [readKey, hparts, keyOf, depthLimit]

theorem readLine_header (hne : name ≠ []) (hbare : ∀ c ∈ name, isBare c = true) (s : List Char) :
    readLine ('[' :: name ++ ']' :: s) = some (.header false ⟨[], String.ofList name⟩, s) := by
  have hkey := readKey_bare hne hbare s
  obtain ⟨c, rest, rfl⟩ := List.exists_cons_of_ne_nil hne
  have hopening : c ≠ '[' := ne_of_isBare (hbare c List.mem_cons_self) (by decide)
  simp only [List.cons_append] at hkey ⊢
  simp [readLine, readHeader, hopening, hkey]

-- A line that defines something is read on its own.
theorem readLines_line {s r t rest : List Char} {line : Line} (hblanks : skipWs s = c :: r)
    (hcomment : c ≠ '#') (hnewline : newline? (c :: r) = none)
    (hline : readLine (c :: r) = some (line, t)) (hend : restOfLine? t = some rest)
    (hlt : rest.length < s.length) : readLines s = (readLines rest).map (line :: ·) := by
  rw [readLines]
  split
  · rename_i h
    rw [hblanks] at h
    cases h
  · rename_i d r' h
    rw [hblanks] at h
    obtain ⟨rfl, rfl⟩ := List.cons.inj h
    rw [if_neg hcomment]
    split
    · rename_i h
      rw [hnewline] at h
      cases h
    · simp only [hline, hend, Option.bind_eq_bind, Option.bind_some, if_pos hlt]
      cases readLines rest <;> rfl

theorem readLines_header (hne : name ≠ []) (hbare : ∀ c ∈ name, isBare c = true) (s : List Char) :
    readLines ('[' :: name ++ ']' :: '\n' :: s) =
      (readLines s).map (.header false ⟨[], String.ofList name⟩ :: ·) := by
  have hline := readLine_header hne hbare ('\n' :: s)
  have hlt : s.length < ('[' :: name ++ ']' :: '\n' :: s).length := by
    simp only [List.length_append, List.length_cons]
    omega
  exact readLines_line rfl (by decide) rfl hline rfl hlt

-- A text that does not start with a mark is read from its first character on.
theorem skipMark_of_ne {s : List Char} (h : s.head? ≠ some '\uFEFF') : skipMark s = s := by
  unfold skipMark
  split
  · exact absurd rfl h
  · rfl

theorem ofLines_entries_of_sections_nil {lines : List Line} {entries : List Entry}
    (h : Document.ofLines lines = ⟨entries, []⟩) (key : Key) :
    Document.ofLines (.header false key :: lines) = ⟨[], [⟨false, key, entries⟩]⟩ := by
  rw [Document.ofLines, h]

-- The entries of a document without headers become those of the section that is opened in front.
theorem read?_header (hne : name ≠ []) (hbare : ∀ c ∈ name, isBare c = true) {text : String}
    {entries : List Entry} (hread : Document.read? text = some ⟨entries, []⟩)
    (hmark : text.toList.head? ≠ some '\uFEFF') {headed : String}
    (hheaded : headed.toList = '[' :: name ++ ']' :: '\n' :: text.toList) :
    Document.read? headed = some ⟨[], [⟨false, ⟨[], String.ofList name⟩, entries⟩]⟩ := by
  rw [Document.read?, skipMark_of_ne hmark] at hread
  obtain ⟨lines, hlines, hdoc⟩ := Option.map_eq_some_iff.1 hread
  have hopening : headed.toList.head? ≠ some '\uFEFF' := by simp [hheaded]
  rw [Document.read?, skipMark_of_ne hopening, hheaded, readLines_header hne hbare, hlines]
  exact congrArg some (ofLines_entries_of_sections_nil hdoc _)

theorem table?_entries (entries : List Entry) :
    Document.table? ⟨entries, []⟩ = (assignAll entries []).bind finishEntries := by
  cases h : assignAll entries [] <;> simp [Document.table?, Document.draft?, h]

-- The entries of the only section make up the one value of the document.
theorem table?_section (name : String) (entries : List Entry) :
    Document.table? ⟨[], [⟨false, ⟨[], name⟩, entries⟩]⟩ =
      (assignAll entries []).bind fun d =>
        (tableValue d (finishEntries d)).map fun v => [(name, v)] := by
  have hnone : assignAll [] [] = some [] := rfl
  cases h : assignAll entries [] with
  | none => simp [Document.table?, Document.draft?, hnone, Section.addTo, update, openTable, lookUp, h]
  | some d =>
    cases hv : tableValue d (finishEntries d) <;>
      simp [Document.table?, Document.draft?, hnone, Section.addTo, update, openTable, lookUp, h,
        enter, finishEntries, Node.finish, hv, Ordered.put]

end Roster.Toml
