import Roster.Proofs.Except
import Roster.Config.Toml

namespace Roster.Config

open Toml

-- The name of a kind, alone or as the one key of a table that says nothing more.
inductive NamesKind : Value → Backend → Prop
  | name (k : Backend) : NamesKind (.scalar (.string k.name)) k
  | emptyTable (k : Backend) : NamesKind (.table [(k.name, .table [])]) k
  | emptyArray (k : Backend) : NamesKind (.table [(k.name, .array [])]) k

-- A date-time counts as its text.
inductive IsPath : Value → Bytes → Prop
  | text (s : String) : IsPath (.scalar (.string s)) (Bytes.ofString s)
  | dateTime (d : DateTime) : IsPath (.scalar (.dateTime d)) (Bytes.ofString d.text)

def unknownKind (s : String) : String :=
  "unknown variant `" ++ s ++ "`, expected `memory` or `file`"

-- What is said about a value that names no kind.
inductive BadKind : Value → String → Prop
  | name {s : String} : (∀ k : Backend, s ≠ k.name) →
    BadKind (.scalar (.string s)) (unknownKind s)
  | key {s : String} {v : Value} : (∀ k : Backend, s ≠ k.name) →
    BadKind (.table [(s, v)]) (unknownKind s)
  | items {k : Backend} {v : Value} {vs : List Value} :
    BadKind (.table [(k.name, .array (v :: vs))]) "expected empty array"
  | entries {k : Backend} {e : String × Value} {t : Table} :
    BadKind (.table [(k.name, .table (e :: t))]) "expected empty table"
  | content {k : Backend} {x : Scalar} :
    BadKind (.table [(k.name, .scalar x)]) ("expected table, found " ++ typeName x)
  | noKey : BadKind (.table []) "wanted exactly 1 element, found 0 elements"
  | severalKeys {d e : String × Value} {t : Table} :
    BadKind (.table (d :: e :: t)) "wanted exactly 1 element, more than 1 element"
  | array {vs : List Value} :
    BadKind (.array vs) "invalid type: unit variant, expected string only"
  | scalar {x : Scalar} : (∀ s, x ≠ .string s) →
    BadKind (.scalar x) "invalid type: unit variant, expected string only"

-- An entry that is in order, and what it changes about a config.
inductive Sets (c : Config) : String × Value → Config → Prop
  | backend {v : Value} {k : Backend} : NamesKind v k →
    Sets c ("backend", v) { c with backend := k }
  | basePath {v : Value} {p : Bytes} : IsPath v p →
    Sets c ("base_path", v) { c with basePath := p }

def IsGood (e : String × Value) : Prop :=
  (e.1 = "backend" ∧ ∃ k, NamesKind e.2 k) ∨ (e.1 = "base_path" ∧ ∃ p, IsPath e.2 p)

-- What is said about an entry that is not in order.
inductive BadEntry : String × Value → String → Prop
  | unknown {key : String} {v : Value} : key ≠ "backend" → key ≠ "base_path" →
    BadEntry (key, v) ("unknown field `" ++ key ++ "`, expected `backend` or `base_path`\n")
  | backend {v : Value} {text : String} : BadKind v text →
    BadEntry ("backend", v) (text ++ "\nin `backend`\n")
  | basePath {v : Value} : (∀ p, ¬IsPath v p) →
    BadEntry ("base_path", v)
      ("invalid type: " ++ (found v).describe ++ ", expected path string\nin `base_path`\n")

theorem named?_eq_some_iff {s : String} {k : Backend} :
    Backend.named? s = some k ↔ s = k.name := by
  constructor
  · intro h
    have hk := List.find?_some h
    exact (of_decide_eq_true hk).symm
  · rintro rfl
    cases k <;> rfl

theorem named?_eq_none_iff {s : String} :
    Backend.named? s = none ↔ ∀ k : Backend, s ≠ k.name := by
  rw [Option.eq_none_iff_forall_ne_some]
  exact forall_congr' fun k => not_congr named?_eq_some_iff

theorem readKindName_of_name (k : Backend) : readKindName k.name = .ok k := by
  rw [readKindName, named?_eq_some_iff.2 rfl]

theorem readKindName_eq_ok_iff {s : String} {k : Backend} :
    readKindName s = .ok k ↔ s = k.name := by
  rw [← named?_eq_some_iff, readKindName]
  cases Backend.named? s <;> simp

theorem message_unknownVariant (s : String) :
    (Mismatch.unknownVariant s (Backend.all.map Backend.name)).message = unknownKind s := by
  have hchoice : "`, expected " ++ Mismatch.choice (Backend.all.map Backend.name) =
      "`, expected `memory` or `file`" := by decide
  unfold Mismatch.message unknownKind
  rw [← hchoice]
  exact String.append_assoc

theorem readKindName_eq_error_iff {s : String} {m : Mismatch} :
    readKindName s = .error m ↔
      (∀ k : Backend, s ≠ k.name) ∧ m = .unknownVariant s (Backend.all.map Backend.name) := by
  rw [← named?_eq_none_iff, readKindName]
  cases Backend.named? s <;> simp [eq_comm]

theorem readKindContent_eq_ok_iff {v : Value} :
    readKindContent v = .ok () ↔ v = .array [] ∨ v = .table [] := by
  unfold readKindContent
  split <;> simp_all

theorem readKind_eq_ok_iff {v : Value} {k : Backend} : readKind v = .ok k ↔ NamesKind v k := by
  constructor
  · intro h
    unfold readKind at h
    split at h
    · rw [readKindName_eq_ok_iff.1 h]
      exact .name k
    · cases h
    · obtain ⟨j, hj, h⟩ := Except.bind_eq_ok_iff.1 h
      obtain ⟨_, hcontent, h⟩ := Except.bind_eq_ok_iff.1 h
      cases h
      rw [readKindName_eq_ok_iff.1 hj]
      rcases readKindContent_eq_ok_iff.1 hcontent with rfl | rfl
      · exact .emptyArray k
      · exact .emptyTable k
    · cases h
    · cases h
  · intro h
    cases h with
    | name => exact readKindName_of_name k
    | emptyTable | emptyArray =>
      have hname := readKindName_of_name k
      exact Except.bind_eq_ok_iff.2 ⟨k, hname, Except.bind_eq_ok_iff.2 ⟨(), rfl, rfl⟩⟩

theorem badKind_of_readKindContent {k : Backend} {v : Value} {m : Mismatch}
    (h : readKindContent v = .error m) : BadKind (.table [(k.name, v)]) m.message := by
  match v with
  | .array [] | .table [] => cases h
  | .array (v :: vs) =>
    cases h
    exact .items
  | .table (e :: t) =>
    cases h
    exact .entries
  | .scalar x =>
    cases h
    have htext : (Mismatch.variantContent ("table, found " ++ typeName x)).message =
        "expected table, found " ++ typeName x := String.append_assoc.symm
    rw [htext]
    exact .content

theorem badKind_of_readKind {v : Value} {m : Mismatch} (h : readKind v = .error m) :
    BadKind v m.message := by
  unfold readKind at h
  split at h
  · obtain ⟨hs, rfl⟩ := readKindName_eq_error_iff.1 h
    rw [message_unknownVariant]
    exact .name hs
  · cases h
    exact .noKey
  · rcases Except.bind_eq_error_iff.1 h with hname | ⟨k, hk, hrest⟩
    · obtain ⟨hs, rfl⟩ := readKindName_eq_error_iff.1 hname
      rw [message_unknownVariant]
      exact .key hs
    · rw [readKindName_eq_ok_iff.1 hk]
      rcases Except.bind_eq_error_iff.1 hrest with hcontent | ⟨_, -, hpure⟩
      · exact badKind_of_readKindContent hcontent
      · cases hpure
  · rename_i t hnil hone
    cases h
    match t with
    | [] => exact absurd rfl hnil
    | [(s, v)] => exact absurd rfl (hone s v)
    | d :: e :: t => exact .severalKeys
  · rename_i hstring _ _ htable
    cases h
    match v with
    | .scalar x => exact .scalar fun s hs => hstring s (congrArg Value.scalar hs)
    | .array vs => exact .array
    | .table t => exact absurd rfl (htable t)

theorem readKind_of_badKind {v : Value} {text : String} (h : BadKind v text) :
    ∃ m, readKind v = .error m ∧ m.message = text := by
  cases h with
  | @name s hs =>
    exact ⟨_, readKindName_eq_error_iff.2 ⟨hs, rfl⟩, message_unknownVariant s⟩
  | @key s v hs =>
    refine ⟨_, ?_, message_unknownVariant s⟩
    exact Except.bind_eq_error_iff.2 (.inl (readKindName_eq_error_iff.2 ⟨hs, rfl⟩))
  | @items k | @entries k =>
    refine ⟨_, Except.bind_eq_error_iff.2 (.inr ⟨k, readKindName_of_name k, rfl⟩), ?_⟩
    decide
  | @content k x =>
    refine ⟨_, Except.bind_eq_error_iff.2 (.inr ⟨k, readKindName_of_name k, rfl⟩), ?_⟩
    unfold Mismatch.message
    exact (String.append_assoc ..).symm
  | noKey => exact ⟨_, rfl, rfl⟩
  | severalKeys => exact ⟨_, rfl, rfl⟩
  | array => exact ⟨_, rfl, rfl⟩
  | @scalar x hx =>
    cases x with
    | string s => exact absurd rfl (hx s)
    | _ => exact ⟨_, rfl, rfl⟩

theorem readBasePath_eq_ok_iff {v : Value} {p : Bytes} : readBasePath v = .ok p ↔ IsPath v p := by
  constructor
  · intro h
    unfold readBasePath at h
    split at h
    · cases h
      exact .text _
    · cases h
      exact .dateTime _
    · cases h
  · intro h
    cases h with
    | text s => rfl
    | dateTime d => rfl

theorem readBasePath_eq_error_iff {v : Value} {m : Mismatch} :
    readBasePath v = .error m ↔
      (∀ p, ¬IsPath v p) ∧ m = .wrongType (found v) "path string" := by
  constructor
  · intro h
    refine ⟨fun p hp => ?_, ?_⟩
    · rw [readBasePath_eq_ok_iff.2 hp] at h
      cases h
    · unfold readBasePath at h
      split at h <;> cases h
      rfl
  · rintro ⟨hno, rfl⟩
    unfold readBasePath
    split
    · exact absurd (.text _) (hno _)
    · exact absurd (.dateTime _) (hno _)
    · rfl

theorem readEntry_backend (c : Config) (v : Value) : readEntry c ("backend", v) =
    (within "backend" (readKind v)).map fun k => { c with backend := k } :=
  if_pos rfl

theorem readEntry_basePath (c : Config) (v : Value) : readEntry c ("base_path", v) =
    (within "base_path" (readBasePath v)).map fun p => { c with basePath := p } := by
  have hne : ¬"base_path" = backendKey := by decide
  exact (if_neg hne).trans (if_pos rfl)

theorem readEntry_unknown (c : Config) {key : String} (v : Value) (hb : key ≠ "backend")
    (hp : key ≠ "base_path") : readEntry c (key, v) =
      .error (.mismatch (.unknownField key [backendKey, basePathKey]) none) :=
  (if_neg hb).trans (if_neg hp)

theorem within_eq_ok_iff {α : Type} {key : String} {r : Except Mismatch α} {a : α} :
    within key r = .ok a ↔ r = .ok a := Except.mapError_eq_ok_iff

theorem map_within_eq_error_iff {α β : Type} {key : String} {x : Except Mismatch α} {f : α → β}
    {r : Refusal} : (within key x).map f = .error r ↔
      ∃ m, x = .error m ∧ r = .mismatch m (some key) := by
  cases x with
  | error m =>
    constructor
    · intro h
      cases h
      exact ⟨m, rfl, rfl⟩
    · rintro ⟨m', h, rfl⟩
      cases h
      rfl
  | ok a =>
    constructor
    · intro h
      cases h
    · rintro ⟨m, h, -⟩
      cases h

theorem readEntry_eq_ok_iff {c c' : Config} {e : String × Value} :
    readEntry c e = .ok c' ↔ Sets c e c' := by
  obtain ⟨key, v⟩ := e
  constructor
  · intro h
    by_cases hb : key = "backend"
    · subst hb
      rw [readEntry_backend] at h
      obtain ⟨k, hk, rfl⟩ := Except.map_eq_ok_iff.1 h
      exact .backend (readKind_eq_ok_iff.1 (within_eq_ok_iff.1 hk))
    by_cases hp : key = "base_path"
    · subst hp
      rw [readEntry_basePath] at h
      obtain ⟨p, hp, rfl⟩ := Except.map_eq_ok_iff.1 h
      exact .basePath (readBasePath_eq_ok_iff.1 (within_eq_ok_iff.1 hp))
    · rw [readEntry_unknown c v hb hp] at h
      cases h
  · intro h
    cases h with
    | backend hk =>
      rw [readEntry_backend]
      exact Except.map_eq_ok_iff.2 ⟨_, within_eq_ok_iff.2 (readKind_eq_ok_iff.2 hk), rfl⟩
    | basePath hp =>
      rw [readEntry_basePath]
      exact Except.map_eq_ok_iff.2 ⟨_, within_eq_ok_iff.2 (readBasePath_eq_ok_iff.2 hp), rfl⟩

theorem isGood_iff {c : Config} {e : String × Value} : IsGood e ↔ ∃ c', readEntry c e = .ok c' := by
  constructor
  · obtain ⟨key, v⟩ := e
    rintro (⟨rfl, k, hk⟩ | ⟨rfl, p, hp⟩)
    · exact ⟨_, readEntry_eq_ok_iff.2 (.backend hk)⟩
    · exact ⟨_, readEntry_eq_ok_iff.2 (.basePath hp)⟩
  · rintro ⟨c', h⟩
    cases readEntry_eq_ok_iff.1 h with
    | backend hk => exact .inl ⟨rfl, _, hk⟩
    | basePath hp => exact .inr ⟨rfl, _, hp⟩

theorem append_joined {a b c d : String} (s : String) (h : a ++ b ++ c = d) :
    s ++ a ++ b ++ c = s ++ d := by
  rw [← h]
  simp only [String.append_assoc]

theorem message_backend (m : Mismatch) :
    (Refusal.mismatch m (some "backend")).message = m.message ++ "\nin `backend`\n" :=
  append_joined m.message (by decide)

theorem message_basePath (v : Value) :
    (Refusal.mismatch (.wrongType (found v) "path string") (some "base_path")).message =
      "invalid type: " ++ (found v).describe ++ ", expected path string\nin `base_path`\n" := by
  have htail : ", expected " ++ "path string" ++ "\nin `base_path`\n" =
      ", expected path string\nin `base_path`\n" := by decide
  rw [← append_joined _ htail]
  exact append_joined _ (by decide)

theorem message_unknownField (key : String) :
    (Refusal.mismatch (.unknownField key [backendKey, basePathKey]) none).message =
      "unknown field `" ++ key ++ "`, expected `backend` or `base_path`\n" :=
  append_joined _ (by decide)

theorem readEntry_eq_error_iff {c : Config} {e : String × Value} {text : String} :
    (∃ r, readEntry c e = .error r ∧ r.message = text) ↔ BadEntry e text := by
  obtain ⟨key, v⟩ := e
  constructor
  · rintro ⟨r, h, rfl⟩
    by_cases hb : key = "backend"
    · subst hb
      rw [readEntry_backend] at h
      obtain ⟨m, hm, rfl⟩ := map_within_eq_error_iff.1 h
      rw [message_backend]
      exact .backend (badKind_of_readKind hm)
    by_cases hp : key = "base_path"
    · subst hp
      rw [readEntry_basePath] at h
      obtain ⟨m, hm, rfl⟩ := map_within_eq_error_iff.1 h
      obtain ⟨hno, rfl⟩ := readBasePath_eq_error_iff.1 hm
      rw [message_basePath]
      exact .basePath hno
    · rw [readEntry_unknown c v hb hp] at h
      cases h
      rw [message_unknownField]
      exact .unknown hb hp
  · intro h
    cases h with
    | unknown hb hp =>
      exact ⟨_, readEntry_unknown c v hb hp, message_unknownField key⟩
    | backend hk =>
      obtain ⟨m, hm, rfl⟩ := readKind_of_badKind hk
      refine ⟨_, ?_, message_backend m⟩
      rw [readEntry_backend]
      exact map_within_eq_error_iff.2 ⟨m, hm, rfl⟩
    | basePath hno =>
      refine ⟨_, ?_, message_basePath v⟩
      rw [readEntry_basePath]
      exact map_within_eq_error_iff.2 ⟨_, readBasePath_eq_error_iff.2 ⟨hno, rfl⟩, rfl⟩

end Roster.Config
