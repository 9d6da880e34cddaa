import Mathlib
import Roster.Backend.Json
import Roster.Config.Environment
import Roster.Proofs.Backend.Name
import Roster.Proofs.CommandLine.Line
import Roster.Proofs.Config.Section
import Roster.Proofs.Json.Value
import Roster.Proofs.Json.Write
import Roster.Proofs.Ordered
import Roster.Proofs.Toml.Spelling

namespace Roster.Backend

variable {x : String} {k : Backend}

section CommandLine

open CommandLine

theorem parse_eq_ok_iff_writesName : parse x = .ok k ↔ WritesName x k :=
  parse_eq_ok_iff.trans parse?_eq_some_iff_writesName

theorem parse_of_forall_not (h : ∀ k, ¬WritesName x k) : parse x = .error (.unknownBackend x) := by
  rw [parse, parse?_eq_none_of_forall h]

theorem ofEnvironment_backend (x : String) (basePath : Option Bytes) :
    Config.ofEnvironment ⟨some (Bytes.ofString x), basePath⟩ =
      (parse x).map fun k => ⟨k, basePath.getD (Bytes.ofString "./data")⟩ := by
  have hread : Config.readVariable (Bytes.ofString x) = parse x := by
    simp only [Config.readVariable, Bytes.text?_ofString]
  rw [Config.ofEnvironment, Option.map_some, Option.getD_some, hread]
  cases parse x <;> rfl

theorem accepts_of_writesName (h : WritesName x k) : Flag.backend.Accepts (Bytes.ofString x) :=
  ⟨x, k, rfl, parse_eq_ok_iff_writesName.2 h⟩

theorem put_backend_of_forall_not (h : ∀ k, ¬WritesName x k) (s : Settings) :
    s.put .backend (Bytes.ofString x) = .error (.unknownBackend x) := by
  rw [Settings.put, readBackend, readText, Bytes.text?_ofString]
  simp only [bind, Except.bind, parse?_eq_none_of_forall h]
  rfl

-- The value of the flag counts unless there is another one behind the subcommand.
theorem effective_of_takes {l l' : Line} {f : Flag} {v : Bytes} (h : l.Takes (.attached f v) l')
    (hbehind : given f l.behind = []) : effective f l'.front l'.behind = some v := by
  cases h with
  | front _ hnew =>
    have hfront := given_insert_self hnew
    rw [effective, hbehind]
    exact congrArg List.head? hfront
  | behind _ hnew =>
    have hself := given_insert_self hnew
    rw [effective, Option.or_eq_some_iff]
    exact .inl (congrArg List.head? hself)

theorem exists_parse_backend {l l' : Line} (h : l.IsAccepted)
    (hx : l.Takes (.attached .backend (Bytes.ofString x)) l') (hk : WritesName x k) :
    ∃ i, CommandLine.parse l'.arguments = .ok i ∧
      (given .backend l.behind = [] → i.backend = some k) := by
  obtain ⟨i, hi, hmeans⟩ := exists_parse_of_takes h hx (accepts_of_writesName hk)
  refine ⟨i, hi, fun hbehind => (hmeans.backend k).2 ⟨x, ?_, parse_eq_ok_iff_writesName.2 hk⟩⟩
  exact effective_of_takes hx hbehind

end CommandLine

section Json

theorem ofJson_stringText {text : String} {b t b' : List Char} (hb : Json.Blanks b)
    (hb' : Json.Blanks b') (ht : Json.StringText x t) (htext : text.toList = b ++ (t ++ b')) :
    ofJson text = match named? x with
      | some k => .ok k
      | none => .error (.data (.unknownVariant x (all.map name))) := by
  obtain ⟨ps, hps, hs⟩ := Json.exists_spelling_of_stringText ht
  have hend : Json.Ends (.string ps) b' := nofun
  have hblank : Json.scan b' = ([], .done) := by
    rw [← List.append_nil b', Json.scan_blanks hb', Json.scan_nil]
  have hscan : Json.scan text.toList = ([.string ps], .done) := by
    rw [htext, Json.scan_blanks hb, Json.scan_spelling hps hend, hblank]
  have hread : Reading.step .start (.string ps) = (match named? x with
      | some k => .ok (.finished k)
      | none => .error (.data (.unknownVariant x (all.map name)))) := by
    simp only [Reading.step, Reading.readName, hs]
    cases named? x <;> rfl
  rw [ofJson, hscan]
  simp only [ofTokens, List.foldlM_cons, hread]
  cases named? x <;> rfl

theorem ofJson_stringText_eq_ok_iff {text : String} {b t b' : List Char} (hb : Json.Blanks b)
    (hb' : Json.Blanks b') (ht : Json.StringText x t) (htext : text.toList = b ++ (t ++ b')) :
    ofJson text = .ok k ↔ x = k.name := by
  rw [ofJson_stringText hb hb' ht htext, ← Config.named?_eq_some_iff]
  cases named? x <;> simp

end Json

section Toml

open Toml

theorem eq_of_mem_sorted {t : Table} (hs : Ordered.Sorted Prod.fst t) {key : String} {v w : Value}
    (hv : (key, v) ∈ t) (hw : (key, w) ∈ t) : v = w := by
  have hv' := Ordered.find?_of_mem hs hv
  have hw' := Ordered.find?_of_mem hs hw
  exact congrArg Prod.snd (Option.some.inj (hv'.symm.trans hw'))

theorem exists_isField_basePath {t : Table} (hgood : ∀ e ∈ t, e.1 ≠ "backend" → Config.IsGood e)
    (d : Bytes) : ∃ p, Config.IsField "base_path" Config.IsPath t d p := by
  by_cases hp : ∃ v, ("base_path", v) ∈ t
  · obtain ⟨v, hv⟩ := hp
    have hne : "base_path" ≠ "backend" := by decide
    rcases hgood ("base_path", v) hv hne with ⟨heq, -⟩ | ⟨-, p, hpath⟩
    · exact absurd heq hne
    · exact ⟨p, .inl ⟨v, hv, hpath⟩⟩
  · exact ⟨d, .inr ⟨fun v hv => hp ⟨v, hv⟩, rfl⟩⟩

-- With the rest of a table in order, the name decides.
theorem exists_fits_iff {t : Table} (hs : Ordered.Sorted Prod.fst t)
    (hmem : ("backend", .scalar (.string x)) ∈ t)
    (hgood : ∀ e ∈ t, e.1 ≠ "backend" → Config.IsGood e) :
    (∃ c, Config.Fits t {} c ∧ c.backend = k) ↔ x = k.name := by
  constructor
  · rintro ⟨c, hfits, rfl⟩
    rcases hfits.backend with ⟨v, hv, hk⟩ | ⟨hno, -⟩
    · rw [← eq_of_mem_sorted hs hmem hv] at hk
      cases hk
      rfl
    · exact absurd hmem (hno _)
  · rintro rfl
    obtain ⟨p, hp⟩ := exists_isField_basePath hgood ({} : Config).basePath
    refine ⟨⟨k, p⟩, ⟨fun e he => ?_, .inl ⟨_, hmem, .name k⟩, hp⟩, rfl⟩
    by_cases hkey : e.1 = "backend"
    · exact .inl hkey
    · exact (hgood e he hkey).imp And.left And.left

theorem exists_ofToml_iff {text : String} {T t : Table} (hT : Toml.read? text = some T)
    (hsource : Config.IsSource T (.table t)) (hmem : ("backend", .scalar (.string x)) ∈ t)
    (hgood : ∀ e ∈ t, e.1 ≠ "backend" → Config.IsGood e) :
    (∃ c, Config.ofToml text = .ok c ∧ c.backend = k) ↔ x = k.name := by
  have hs : Ordered.Sorted Prod.fst t := Config.sorted_of_isSource hT hsource rfl
  rw [Config.ofToml_of_read? hT hsource, ← exists_fits_iff hs hmem hgood]
  refine exists_congr fun c => and_congr_left fun _ => ?_
  exact Config.foldlM_readEntry_eq_ok_iff hs

theorem read?_backend {text : String} {t : List Char} (ht : Toml.StringText x t)
    (htext : text.toList = onLines [assignment "backend".toList t]) :
    Toml.read? text = some [("backend", .scalar (.string x))] := by
  have hname : IsName "backend".toList := ⟨by decide, List.all_eq_true.1 (by decide)⟩
  have hread := read?_onLines (.cons (writes_string hname ht) .nil) htext
  rw [Config.read?_eq_of_entries hread]
  rfl

theorem basicText_self {p : List Char}
    (hp : ∀ c ∈ p, isText c = true ∧ c ≠ '"' ∧ c ≠ '\\') : BasicText p p := by
  induction p with
  | nil => exact .nil
  | cons c p ih =>
    obtain ⟨⟨hc, hquote, hescape⟩, hp⟩ := List.forall_mem_cons.1 hp
    exact .raw hc hquote hescape (ih hp)

end Toml

-- A kind as it is written out is a string of both kinds of documents.
theorem stringText_toJson (k : Backend) :
    Json.StringText k.name k.toJson.toList ∧ Toml.StringText k.name k.toJson.toList := by
  constructor
  · rw [toJson, String.toList_ofList]
    exact Json.stringText_writeString k.name
  · have hletters : ∀ c ∈ k.name.toList, Toml.isText c = true ∧ c ≠ '"' ∧ c ≠ '\\' := by
      cases k <;> simp [name, Toml.isText]
    have hquoted : Json.writeString k.name = '"' :: (k.name.toList ++ ['"']) := by
      cases k <;> rfl
    rw [toJson, String.toList_ofList, hquoted]
    exact .basic (basicText_self hletters)

section Together

-- What every reader makes of a text. `verbatim` compares what is written in documents with what people
-- may write.
structure ReadAlike (x : String) : Prop where
  parsed : (∀ k, parse x = .ok k ↔ WritesName x k) ∧
    ((∀ k, ¬WritesName x k) → parse x = .error (.unknownBackend x))
  environment : ∀ basePath,
    (∀ k, WritesName x k → Config.ofEnvironment ⟨some (Bytes.ofString x), basePath⟩ =
      .ok ⟨k, basePath.getD (Bytes.ofString "./data")⟩) ∧
    ((∀ k, ¬WritesName x k) →
      Config.ofEnvironment ⟨some (Bytes.ofString x), basePath⟩ = .error (.unknownBackend x))
  flag : ∀ l l' : CommandLine.Line, l.IsAccepted →
    l.Takes (.attached .backend (Bytes.ofString x)) l' →
    (∀ k, WritesName x k → ∃ i, CommandLine.parse l'.arguments = .ok i ∧
      (CommandLine.given .backend l.behind = [] → i.backend = some k)) ∧
    ((∀ k, ¬WritesName x k) →
      CommandLine.parse l'.arguments = .error (.usage (.unknownBackend x)))
  json : ∀ text b t b', Json.Blanks b → Json.Blanks b' → Json.StringText x t →
    String.toList text = b ++ (t ++ b') → ∀ k, ofJson text = .ok k ↔ x = k.name
  toml : ∀ text T t, Toml.read? text = some T → Config.IsSource T (.table t) →
    ("backend", .scalar (.string x)) ∈ t →
    (∀ e ∈ t, e.1 ≠ "backend" → Config.IsGood e) →
    ∀ k, (∃ c, Config.ofToml text = .ok c ∧ c.backend = k) ↔ x = k.name
  tomlText : ∀ text t, Toml.StringText x t →
    String.toList text = Toml.onLines [Toml.assignment "backend".toList t] →
    Toml.read? text = some [("backend", .scalar (.string x))]
  verbatim : ∀ k : Backend, x = k.name →
    WritesName x k ∧ Json.StringText x k.toJson.toList ∧ Toml.StringText x k.toJson.toList

-- What every reader of documents accepts is accepted by the others too.
theorem readAlike (x : String) : ReadAlike x where
  parsed := ⟨fun k => parse_eq_ok_iff_writesName, parse_of_forall_not⟩
  environment := by
    intro basePath
    rw [ofEnvironment_backend]
    refine ⟨fun k hk => ?_, fun hno => ?_⟩
    · rw [parse_eq_ok_iff_writesName.2 hk]
      rfl
    · rw [parse_of_forall_not hno]
      rfl
  flag := by
    intro l l' hl hx
    refine ⟨fun k hk => exists_parse_backend hl hx hk, fun hno => ?_⟩
    exact CommandLine.parse_of_takes_refused hl hx (put_backend_of_forall_not hno)
  json := by
    intro text b t b' hb hb' ht htext k
    exact ofJson_stringText_eq_ok_iff hb hb' ht htext
  toml := by
    intro text T t hT hsource hmem hgood k
    exact exists_ofToml_iff hT hsource hmem hgood
  tomlText := by
    intro text t ht htext
    exact read?_backend ht htext
  verbatim := by
    rintro k rfl
    exact ⟨writesName_name k, stringText_toJson k⟩

-- An em space and capitals are fine on a command line, an escape in a document.
theorem readAlike_file :
    (∃ i, CommandLine.parse (CommandLine.Line.arguments
        ⟨[], .info, [.attached .backend (Bytes.ofString "\u2003FILE")], false⟩) = .ok i ∧
      i.backend = some .file) ∧
    ofJson "\"\\u0066ile\"\n" = .ok .file := by
  constructor
  · have hname : WritesName "\u2003FILE" .file :=
      ((readAlike "\u2003FILE").parsed.1 .file).1 (by cbv)
    have haccepted : CommandLine.Accepted [] .info [] := by
      refine ⟨?_, ?_, fun _ => Nat.zero_le 1, fun _ => Nat.zero_le 1, ?_, ?_⟩ <;> simp
    have hplace : CommandLine.Line.Takes (.attached .backend (Bytes.ofString "\u2003FILE"))
        ⟨[], .info, [], false⟩
        ⟨[], .info, [.attached .backend (Bytes.ofString "\u2003FILE")], false⟩ :=
      @CommandLine.Line.Takes.behind _ [] [] [] .info false (.inl rfl) rfl
    obtain ⟨i, hi, hkind⟩ :=
      ((readAlike "\u2003FILE").flag ⟨[], .info, [], false⟩ _ haccepted hplace).1 .file hname
    exact ⟨i, hi, hkind rfl⟩
  · have hf : Json.PartText (.char 'f') "\\u0066".toList :=
      .code (n := 0x66) (@Json.HexCode.digits 0 0 6 6 '0' '0' '6' '6' ⟨by decide, .inl rfl⟩
        ⟨by decide, .inl rfl⟩ ⟨by decide, .inl rfl⟩ ⟨by decide, .inl rfl⟩) (.inl (by decide))
    have raw (c : Char) (hc : c ≠ '"' ∧ c ≠ '\\' ∧ 0x20 ≤ c.toNat) : Json.PartText (.char c) [c] :=
      .raw hc.1 hc.2.1 hc.2.2
    have htext : Json.StringText "file" "\"\\u0066ile\"".toList :=
      ⟨"\\u0066ile".toList, .char hf (.char (raw 'i' (by decide)) (.char (raw 'l' (by decide))
        (.char (raw 'e' (by decide)) .nil))), by decide⟩
    have hblank : Json.Blanks ['\n'] := by simp [Json.Blanks]
    exact ((readAlike "file").json _ [] _ ['\n'] .nil hblank htext (by decide) .file).2 rfl

end Together

end Roster.Backend
