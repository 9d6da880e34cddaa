import Mathlib
import Roster.Proofs.Config.Entry
import Roster.Proofs.Toml.Order

namespace Roster.Config

open Toml Ordered

-- The value of a key, or the default where there is no such key.
def IsField {α : Type} (key : String) (P : Value → α → Prop) (t : Table) (default x : α) : Prop :=
  (∃ v, (key, v) ∈ t ∧ P v x) ∨ (∀ v, (key, v) ∉ t) ∧ x = default

structure Fits (t : Table) (base c : Config) : Prop where
  keys : ∀ e ∈ t, e.1 = "backend" ∨ e.1 = "base_path"
  backend : IsField "backend" NamesKind t base.backend c.backend
  basePath : IsField "base_path" IsPath t base.basePath c.basePath

-- The values that give a config. In a list the values come without their keys.
inductive Decodes : Value → Config → Prop
  | table {t : Table} {c : Config} : Fits t {} c → Decodes (.table t) c
  | nothing : Decodes (.array []) {}
  | backend {b : Value} {k : Backend} : NamesKind b k → Decodes (.array [b]) { backend := k }
  | both {b p : Value} {k : Backend} {path : Bytes} : NamesKind b k → IsPath p path →
    Decodes (.array [b, p]) { backend := k, basePath := path }

-- The value that a config is read from: that of the only key, or the whole document.
def IsSource (T : Table) (V : Value) : Prop :=
  T = [("storage", V)] ∨ (∀ v, ("storage", v) ∉ T) ∧ V = .table T

variable {α : Type} {key : String} {P : Value → α → Prop} {t : Table} {d x : α}

theorem isField_of_fresh (h : ∀ v, (key, v) ∉ t) : IsField key P t d x ↔ x = d := by
  constructor
  · rintro (⟨v, hv, -⟩ | ⟨-, hx⟩)
    · exact absurd hv (h v)
    · exact hx
  · intro hx
    exact .inr ⟨h, hx⟩

theorem isField_cons_self {v : Value} (h : ∀ u, (key, u) ∉ t) :
    IsField key P ((key, v) :: t) d x ↔ P v x := by
  constructor
  · rintro (⟨u, hu, hx⟩ | ⟨hno, -⟩)
    · rcases List.mem_cons.1 hu with heq | hu
      · cases heq
        exact hx
      · exact absurd hu (h u)
    · exact absurd List.mem_cons_self (hno v)
  · intro hx
    exact .inl ⟨v, List.mem_cons_self, hx⟩

theorem isField_cons_of_ne {e : String × Value} (h : e.1 ≠ key) :
    IsField key P (e :: t) d x ↔ IsField key P t d x := by
  have hmem (v : Value) : (key, v) ∈ e :: t ↔ (key, v) ∈ t := by
    rw [List.mem_cons, or_iff_right]
    rintro rfl
    exact h rfl
  simp only [IsField, hmem]

theorem fits_nil_iff {base c : Config} : Fits [] base c ↔ base = c := by
  constructor
  · intro h
    have hb := (isField_of_fresh (fun _ => List.not_mem_nil)).1 h.backend
    have hp := (isField_of_fresh (fun _ => List.not_mem_nil)).1 h.basePath
    cases base
    cases c
    cases hb
    cases hp
    rfl
  · rintro rfl
    exact ⟨nofun, .inr ⟨fun _ => List.not_mem_nil, rfl⟩, .inr ⟨fun _ => List.not_mem_nil, rfl⟩⟩

-- Reading the first entry leaves the others to decide, and none of them has its key.
theorem fits_cons_iff {e : String × Value} {base c : Config} (hfresh : ∀ v, (e.1, v) ∉ t) :
    Fits (e :: t) base c ↔ ∃ c', Sets base e c' ∧ Fits t c' c := by
  have hne : "backend" ≠ "base_path" := by decide
  constructor
  · rintro ⟨hall, hb, hp⟩
    obtain ⟨hkey, hkeys⟩ := List.forall_mem_cons.1 hall
    obtain ⟨key, v⟩ := e
    rcases hkey with rfl | rfl
    · rw [isField_cons_self hfresh] at hb
      rw [isField_cons_of_ne hne] at hp
      exact ⟨_, .backend hb, hkeys, (isField_of_fresh hfresh).2 rfl, hp⟩
    · rw [isField_cons_of_ne hne.symm] at hb
      rw [isField_cons_self hfresh] at hp
      exact ⟨_, .basePath hp, hkeys, hb, (isField_of_fresh hfresh).2 rfl⟩
  · rintro ⟨c', hsets, hkeys, hb, hp⟩
    cases hsets with
    | backend hk =>
      have hck := (isField_of_fresh hfresh).1 hb
      refine ⟨List.forall_mem_cons.2 ⟨.inl rfl, hkeys⟩, ?_, ?_⟩
      · rw [isField_cons_self hfresh, hck]
        exact hk
      · rw [isField_cons_of_ne hne]
        exact hp
    | basePath hpath =>
      have hcp := (isField_of_fresh hfresh).1 hp
      refine ⟨List.forall_mem_cons.2 ⟨.inr rfl, hkeys⟩, ?_, ?_⟩
      · rw [isField_cons_of_ne hne.symm]
        exact hb
      · rw [isField_cons_self hfresh, hcp]
        exact hpath

theorem fresh_of_sorted {e : String × Value} (h : Sorted Prod.fst (e :: t)) (v : Value) :
    (e.1, v) ∉ t := by
  intro hv
  have hlt := (List.pairwise_cons.1 h).1 (e.1, v) hv
  exact String.lt_irrefl e.1 hlt

theorem foldlM_readEntry_eq_ok_iff (hs : Sorted Prod.fst t) {base c : Config} :
    t.foldlM readEntry base = .ok c ↔ Fits t base c := by
  induction t generalizing base with
  | nil =>
    rw [fits_nil_iff, List.foldlM_nil]
    constructor
    · intro h
      exact Except.ok.inj h
    · rintro rfl
      rfl
  | cons e t ih =>
    rw [fits_cons_iff (fresh_of_sorted hs), List.foldlM_cons]
    refine Except.bind_eq_ok_iff.trans (exists_congr fun c' => ?_)
    rw [readEntry_eq_ok_iff, ih (List.pairwise_cons.1 hs).2]

theorem foldlM_cons_eq_error_iff {e : String × Value} {base : Config} {text : String} :
    (∃ r, (e :: t).foldlM readEntry base = .error r ∧ r.message = text) ↔
      BadEntry e text ∨ ∃ c, readEntry base e = .ok c ∧
        ∃ r, t.foldlM readEntry c = .error r ∧ r.message = text := by
  have hbind (r : Refusal) : (e :: t).foldlM readEntry base = .error r ↔
      readEntry base e = .error r ∨
        ∃ c, readEntry base e = .ok c ∧ t.foldlM readEntry c = .error r := by
    rw [List.foldlM_cons]
    exact Except.bind_eq_error_iff
  simp only [hbind, or_and_right, exists_or, readEntry_eq_error_iff]
  refine or_congr_right ⟨?_, ?_⟩
  · rintro ⟨r, ⟨c, hc, hr⟩, htext⟩
    exact ⟨c, hc, r, hr, htext⟩
  · rintro ⟨c, hc, r, hr, htext⟩
    exact ⟨r, ⟨c, hc, hr⟩, htext⟩

-- The first entry has the least key, so it is looked at before all others.
theorem foldlM_readEntry_eq_error_iff (hs : Sorted Prod.fst t) {base : Config} {text : String} :
    (∃ r, t.foldlM readEntry base = .error r ∧ r.message = text) ↔
      ∃ e ∈ t, BadEntry e text ∧ ∀ d ∈ t, d.1 < e.1 → IsGood d := by
  induction t generalizing base with
  | nil =>
    constructor
    · rintro ⟨r, h, -⟩
      cases h
    · rintro ⟨e, he, -⟩
      cases he
  | cons e t ih =>
    obtain ⟨hleast, ht⟩ := List.pairwise_cons.1 hs
    rw [foldlM_cons_eq_error_iff]
    constructor
    · rintro (hbad | ⟨c, hc, h⟩)
      · refine ⟨e, List.mem_cons_self, hbad, fun d hd hlt => ?_⟩
        rcases List.mem_cons.1 hd with rfl | hd
        · exact absurd hlt (String.lt_irrefl d.1)
        · exact absurd (String.lt_trans hlt (hleast d hd)) (String.lt_irrefl d.1)
      · obtain ⟨e', he', hbad, hgood⟩ := (ih ht).1 h
        refine ⟨e', List.mem_cons_of_mem e he', hbad, fun d hd hlt => ?_⟩
        rcases List.mem_cons.1 hd with rfl | hd
        · exact isGood_iff.2 ⟨c, hc⟩
        · exact hgood d hd hlt
    · rintro ⟨e', he', hbad, hgood⟩
      rcases List.mem_cons.1 he' with rfl | he'
      · exact .inl hbad
      · obtain ⟨c, hc⟩ := (isGood_iff (c := base)).1 (hgood e List.mem_cons_self (hleast e' he'))
        exact .inr ⟨c, hc, (ih ht).2
          ⟨e', he', hbad, fun d hd => hgood d (List.mem_cons_of_mem e hd)⟩⟩

theorem readItems_eq_ok_iff {vs : List Value} {c : Config} :
    readItems vs = .ok c ↔ Decodes (.array vs) c := by
  match vs with
  | [] =>
    constructor
    · intro h
      cases h
      exact .nothing
    · intro h
      cases h
      rfl
  | [b] =>
    apply Except.map_eq_ok_iff.trans
    constructor
    · rintro ⟨k, hk, rfl⟩
      exact .backend (readKind_eq_ok_iff.1 hk)
    · intro h
      cases h with
      | backend hk => exact ⟨_, readKind_eq_ok_iff.2 hk, rfl⟩
  | b :: p :: rest =>
    apply Except.bind_eq_ok_iff.trans
    constructor
    · rintro ⟨k, hk, h⟩
      obtain ⟨path, hp, hrest⟩ := Except.bind_eq_ok_iff.1 h
      cases rest with
      | nil =>
        cases hrest
        exact .both (readKind_eq_ok_iff.1 hk) (readBasePath_eq_ok_iff.1 hp)
      | cons v rest => cases hrest
    · intro h
      cases h with
      | both hk hp =>
        exact ⟨_, readKind_eq_ok_iff.2 hk,
          Except.bind_eq_ok_iff.2 ⟨_, readBasePath_eq_ok_iff.2 hp, rfl⟩⟩

theorem ofValue_eq_ok_iff {V : Value} {c : Config} (hs : ∀ t, V = .table t → Sorted Prod.fst t) :
    ofValue V = .ok c ↔ Decodes V c := by
  cases V with
  | scalar x =>
    constructor
    · intro h
      cases h
    · intro h
      cases h
  | table t =>
    apply (foldlM_readEntry_eq_ok_iff (hs t rfl)).trans
    constructor
    · exact .table
    · intro h
      cases h with
      | table h => exact h
  | array vs => exact Except.mapError_eq_ok_iff.trans readItems_eq_ok_iff

variable {T : Table} {V : Value}

theorem find?_section_eq_none (h : ∀ v, ("storage", v) ∉ T) :
    find? Prod.fst sectionKey T = none := by
  rw [← Option.isNone_iff_eq_none, ← Option.not_isSome, Bool.not_eq_true',
    Bool.eq_false_iff, Ne, isSome_find?_iff, List.mem_map]
  rintro ⟨⟨key, v⟩, hv, rfl⟩
  exact h v hv

theorem ofTable_of_isSource (h : IsSource T V) : ofTable T = ofValue V := by
  rcases h with rfl | ⟨hno, rfl⟩
  · rfl
  · rw [ofTable, find?_section_eq_none hno]
    rfl

-- The least key beside the section is named, whatever its value and that of the section are.
theorem ofTable_of_stray (hs : Sorted Prod.fst T) (hv : ("storage", V) ∈ T)
    {e : String × Value} (he : e ∈ T) (hne : e.1 ≠ "storage") :
    ∃ d ∈ T, d.1 ≠ "storage" ∧ (∀ e ∈ T, e.1 ≠ "storage" → e = d ∨ d.1 < e.1) ∧
      ofTable T = .error (.strayKey d.1) := by
  have hmem (e : String × Value) : e ∈ erase Prod.fst sectionKey T ↔ e ∈ T ∧ e.1 ≠ "storage" := by
    rw [erase, List.mem_filter, decide_eq_true_eq]
    rfl
  have hsome : (find? Prod.fst sectionKey T).isSome = true :=
    (isSome_find?_iff Prod.fst sectionKey T).2 (List.mem_map.2 ⟨_, hv, rfl⟩)
  obtain ⟨f, hf⟩ := Option.isSome_iff_exists.1 hsome
  cases hothers : erase Prod.fst sectionKey T with
  | nil =>
    have hin := (hmem e).2 ⟨he, hne⟩
    rw [hothers] at hin
    cases hin
  | cons d rest =>
    have hsorted := sorted_erase Prod.fst sectionKey hs
    rw [hothers] at hmem hsorted
    obtain ⟨hd, hdne⟩ := (hmem d).1 List.mem_cons_self
    refine ⟨d, hd, hdne, fun e he hne => ?_, ?_⟩
    · rcases List.mem_cons.1 ((hmem e).2 ⟨he, hne⟩) with rfl | hrest
      · exact .inl rfl
      · exact .inr ((List.pairwise_cons.1 hsorted).1 e hrest)
    · rw [ofTable, hf, hothers]

theorem sorted_of_isSource {text : String} (hT : Toml.read? text = some T) (h : IsSource T V)
    {t : Table} (ht : V = .table t) : Sorted Prod.fst t := by
  subst ht
  rcases h with rfl | ⟨-, heq⟩
  · exact sorted_of_mem_read? hT (List.mem_singleton.2 rfl)
  · cases heq
    exact sorted_read? hT

-- Keys compare by the bytes of their text.
theorem ofToml_decides {text : String} (hT : Toml.read? text = some T) :
    (∀ V, ("storage", V) ∈ T → (∃ e ∈ T, e.1 ≠ "storage") →
      ∃ d ∈ T, d.1 ≠ "storage" ∧
        (∀ e ∈ T, e.1 ≠ "storage" → e = d ∨ Bytes.ofString d.1 < Bytes.ofString e.1) ∧
        (ofToml text).mapError Refusal.error =
          .error (.config ("unexpected key `" ++ d.1 ++ "` alongside [storage]"))) ∧
    ∀ V, IsSource T V →
      (∀ c, (ofToml text).mapError Refusal.error = .ok c ↔ Decodes V c) ∧
      ∀ t, V = .table t → ∀ message,
        ((ofToml text).mapError Refusal.error = .error (.config message) ↔
          ∃ e ∈ t, BadEntry e message ∧
            ∀ d ∈ t, Bytes.ofString d.1 < Bytes.ofString e.1 → IsGood d) := by
  have hread : ofToml text = ofTable T := by rw [ofToml, hT]
  rw [hread]
  refine ⟨fun V hV ⟨e, he, hne⟩ => ?_, fun V hsource => ⟨fun c => ?_, ?_⟩⟩
  · obtain ⟨d, hd, hdne, hleast, herror⟩ := ofTable_of_stray (sorted_read? hT) hV he hne
    refine ⟨d, hd, hdne, fun e he hne => ?_, by rw [herror]; rfl⟩
    exact (hleast e he hne).imp_right Bytes.ofString_lt_iff.2
  · rw [ofTable_of_isSource hsource, Except.mapError_eq_ok_iff,
      ofValue_eq_ok_iff fun t ht => sorted_of_isSource hT hsource ht]
  · rintro t rfl message
    have hs := sorted_of_isSource hT hsource rfl
    have herror : (∃ r, ofValue (.table t) = .error r ∧ r.message = message) ↔
        ∃ e ∈ t, BadEntry e message ∧ ∀ d ∈ t, d.1 < e.1 → IsGood d :=
      foldlM_readEntry_eq_error_iff hs
    simp only [Bytes.ofString_lt_iff]
    rw [ofTable_of_isSource hsource, Except.mapError_eq_error_iff, ← herror]
    refine exists_congr fun r => and_congr_right fun _ => ?_
    rw [Refusal.error, StorageError.config.injEq]

-- Both values are bad, and the path comes first in the text.
def twoFaults : String := "base_path = 1\nbackend = 'tape'"

theorem ofToml_decides_twoFaults :
    Toml.read? twoFaults = some [("backend", .scalar (.string "tape")),
      ("base_path", .scalar (.integer 1))] ∧
    (ofToml twoFaults).mapError Refusal.error = .error
      (.config "unknown variant `tape`, expected `memory` or `file`\nin `backend`\n") := by
  have hT : Toml.read? twoFaults = some [("backend", .scalar (.string "tape")),
      ("base_path", .scalar (.integer 1))] := by cbv
  have hsource : IsSource [("backend", .scalar (.string "tape")),
      ("base_path", .scalar (.integer 1))] (.table [("backend", .scalar (.string "tape")),
      ("base_path", .scalar (.integer 1))]) := .inr ⟨by simp, rfl⟩
  have hkind : ∀ k : Backend, "tape" ≠ k.name := by
    rintro (_ | _) <;> decide
  refine ⟨hT, (((ofToml_decides hT).2 _ hsource).2 _ rfl _).2 ⟨_, List.mem_cons_self, ?_, ?_⟩⟩
  · exact .backend (.name hkind)
  · intro d hd hlt
    rcases List.mem_cons.1 hd with rfl | hd
    · exact absurd hlt (by decide)
    · obtain rfl := List.mem_singleton.1 hd
      exact absurd hlt (by decide)

end Roster.Config
