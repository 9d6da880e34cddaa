import Roster.Proofs.Toml.Header
import Roster.Proofs.Toml.Scalar

namespace Roster.Toml

variable {α : Type} {c : Char} {b k q r s t v x y : List Char} {item : Reader Node}

section Keys

theorem readPart_quoted (hc : c = '"' ∨ c = '\'') (r : List Char) :
    readPart (c :: r) = readQuoted (c :: r) := by
  rcases hc with rfl | rfl <;> rfl

theorem PartText.gives (h : PartText x) : Gives EndsPart readPart x := by
  cases h with
  | quoted h =>
    refine (h.gives.mono fun _ _ => trivial).congr fun t _ => ?_
    obtain ⟨c, r, rfl, hc⟩ := h.exists_cons
    exact readPart_quoted hc _
  | bare hne h =>
    exact ⟨some (String.ofList x), fun t ht => readPart_bare hne (List.all_eq_true.1 h) ht⟩

theorem PartText.exists_cons (h : PartText x) :
    ∃ c r, x = c :: r ∧ (isBare c = true ∨ c = '"' ∨ c = '\'') := by
  cases h with
  | quoted h =>
    obtain ⟨c, r, rfl, hc⟩ := h.exists_cons
    exact ⟨c, r, rfl, .inr hc⟩
  | bare hne h =>
    obtain ⟨c, r, rfl⟩ := List.exists_cons_of_ne_nil hne
    rw [List.all_cons, Bool.and_eq_true] at h
    exact ⟨c, r, rfl, .inl h.1⟩

theorem readParts_of_readPart_eq_none (h : readPart (skipWs s) = none) : readParts s = none := by
  rw [readParts, h]
  rfl

-- One more part behind a point.
theorem readParts_point {part : String} (hpart : readPart (skipWs s) = some (part, q))
    (hpoint : skipWs q = '.' :: r) (hlt : r.length < s.length) :
    readParts s = (readParts r).map fun (ps, t) => (part :: ps, t) := by
  rw [readParts, hpart]
  simp only [Option.bind_eq_bind, Option.bind_some, hpoint, if_pos hlt]
  cases readParts r <;> rfl

theorem readParts_last {part : String} (hpart : readPart (skipWs s) = some (part, q))
    (hlast : (skipWs q).head? ≠ some '.') : readParts s = some ([part], skipWs q) := by
  rw [readParts, hpart]
  simp only [Option.bind_eq_bind, Option.bind_some]
  split
  · rename_i hpoint
    rw [hpoint] at hlast
    exact absurd rfl hlast
  · rfl

theorem PartText.skipWs_append (hx : PartText x) (hb : b.all isWs) (r : List Char) :
    skipWs (b ++ (x ++ r)) = x ++ r := by
  obtain ⟨c, s, rfl, hc⟩ := hx.exists_cons
  have hws : isWs c = false := by
    rw [Bool.eq_false_iff]
    intro hws
    rcases isWs_iff.1 hws with rfl | rfl <;> rcases hc with hc | hc | hc <;> cases hc
  rw [skipWs_append_of_blanks hb, List.cons_append, skipWs_cons_of_not hws]

theorem endsPart_blanks (hb : b.all isWs) (hc : isBare c = false) (r : List Char) :
    EndsPart (b ++ c :: r) := by
  cases b with
  | nil => exact endsPart_cons hc r
  | cons d b =>
    rw [List.all_cons, Bool.and_eq_true] at hb
    refine endsPart_cons ?_ _
    rcases isWs_iff.1 hb.1 with rfl | rfl <;> rfl

theorem KeyText.exists_read (h : KeyText k) :
    ∃ o : Option (List String), ∀ b t, b.all isWs → readParts (b ++ (k ++ '=' :: t)) =
      o.map fun ps => (ps, '=' :: t) := by
  induction h with
  | @last x b hx hb =>
    obtain ⟨o, ho⟩ := hx.gives
    refine ⟨o.map fun part => [part], fun b' t hb' => ?_⟩
    have hpart := ho (b ++ '=' :: t) (endsPart_blanks hb rfl t)
    have hskip := hx.skipWs_append hb' (b ++ '=' :: t)
    rw [← hskip] at hpart
    rw [List.append_assoc]
    cases o with
    | none => exact readParts_of_readPart_eq_none hpart
    | some part =>
      have hws : skipWs (b ++ '=' :: t) = '=' :: t := skipWs_append_of_blanks hb _
      rw [readParts_last hpart (by simp [hws]), hws]
      rfl
  | @point x b b' s hx hb hb' _ ih =>
    obtain ⟨o, ho⟩ := hx.gives
    obtain ⟨os, hos⟩ := ih
    refine ⟨o.bind fun part => os.map fun parts => part :: parts, fun b₀ t hb₀ => ?_⟩
    have hpart := ho (b ++ '.' :: (b' ++ (s ++ '=' :: t))) (endsPart_blanks hb rfl _)
    have hskip := hx.skipWs_append hb₀ (b ++ '.' :: (b' ++ (s ++ '=' :: t)))
    rw [← hskip] at hpart
    have hsplit : b₀ ++ (x ++ (b ++ '.' :: (b' ++ s)) ++ '=' :: t) =
        b₀ ++ (x ++ (b ++ '.' :: (b' ++ (s ++ '=' :: t)))) := by simp
    rw [hsplit]
    cases o with
    | none => exact readParts_of_readPart_eq_none hpart
    | some part =>
      have hws : skipWs (b ++ '.' :: (b' ++ (s ++ '=' :: t))) = '.' :: (b' ++ (s ++ '=' :: t)) :=
        skipWs_append_of_blanks hb _
      have hlt : (b' ++ (s ++ '=' :: t)).length <
          (b₀ ++ (x ++ (b ++ '.' :: (b' ++ (s ++ '=' :: t))))).length := by
        simp only [List.length_append, List.length_cons]
        omega
      rw [readParts_point hpart hws hlt, hos b' t hb']
      cases os <;> rfl

theorem KeyText.exists_readKey (h : KeyText k) :
    ∃ o : Option Key, ∀ b t, b.all isWs → readKey (b ++ (k ++ '=' :: t)) =
      o.map fun key => (key, '=' :: t) := by
  obtain ⟨o, ho⟩ := h.exists_read
  cases o with
  | none =>
    refine ⟨none, fun b t hb => ?_⟩
    rw [readKey, ho b t hb]
    rfl
  | some parts =>
    by_cases hlen : parts.length ≤ depthLimit
    · refine ⟨keyOf parts, fun b t hb => ?_⟩
      rw [readKey, ho b t hb]
      simp only [Option.map_some, Option.bind_eq_bind, Option.bind_some, if_pos hlen]
      cases keyOf parts <;> rfl
    · refine ⟨none, fun b t hb => ?_⟩
      rw [readKey, ho b t hb]
      simp only [Option.map_some, Option.bind_eq_bind, Option.bind_some, if_neg hlen]
      rfl

end Keys

section Entries

-- What is read is the same however the lines of the text end.
def Settles (read : List Char → Option (α × List Char)) (x : List Char) : Prop :=
  ∃ o, ∀ y, SameLines x y → Settled read y o

-- A text that can be told apart from the layout around it.
structure Solid (x : List Char) : Prop where
  head : ∃ c r, x = c :: r ∧ isEnd c = false
  last : x.getLast? ≠ some '\r'

theorem isInline_of_not_isEnd (hc : isEnd c = false) : isInline c = true :=
  isInline_of_not (p := fun c => !isEnd c) (by simp [hc]) rfl rfl

theorem Solid.head_of_sameLines (hx : Solid x) (h : SameLines x y) :
    ∃ c r, y = c :: r ∧ isEnd c = false := by
  obtain ⟨c, r, rfl, hc⟩ := hx.head
  obtain ⟨r', rfl, -⟩ := h.of_cons (isInline_of_not_isEnd hc)
  exact ⟨c, r', rfl, hc⟩

theorem isWs_of_not_isEnd (hc : isEnd c = false) : isWs c = false := by
  rw [Bool.eq_false_iff]
  intro hws
  rw [isEnd, hws] at hc
  cases hc

theorem getLast?_ne_of_inline (hx : x.all isInline) : x.getLast? ≠ some '\r' := by
  intro hlast
  have hinline := List.all_eq_true.1 hx '\r' (List.mem_of_getLast? hlast)
  cases hinline

theorem readEntry_of_key {key : Key} (hkey : readKey s = some (key, '=' :: r)) :
    readEntry item s = (item (skipWs r)).map fun (v, t) => (⟨key, v⟩, t) := by
  rw [readEntry, hkey]
  simp only [Option.bind_eq_bind, Option.bind_some]
  cases item (skipWs r) <;> rfl

theorem Assigns.of_sameLines (hx : Assigns k v x) (hk : KeyText k) (h : SameLines (x ++ s) y)
    (hv : v.getLast? ≠ some '\r') :
    ∃ v' x' s', y = x' ++ s' ∧ Assigns k v' x' ∧ SameLines v v' ∧ SameLines s s' := by
  obtain ⟨hb⟩ := hx
  rename_i b
  have hfront : (k ++ '=' :: b).all isInline := by
    rw [List.all_append, List.all_cons, hk.inline, all_inline hb rfl rfl]
    rfl
  have hsplit : k ++ '=' :: (b ++ v) ++ s = k ++ '=' :: b ++ (v ++ s) := by simp
  rw [hsplit] at h
  obtain ⟨y', rfl, hy⟩ := h.of_inline hfront
  obtain ⟨v', s', rfl, hvv, hss⟩ := hy.of_append (.inl hv)
  exact ⟨v', k ++ '=' :: (b ++ v'), s', by simp, .equals hb, hvv, hss⟩

theorem Assigns.settled {o : Option Key} {ov : Option Node} (hx : Assigns k v x)
    (ho : ∀ b t, b.all isWs → readKey (b ++ (k ++ '=' :: t)) = o.map fun key => (key, '=' :: t))
    (hhead : ∃ c r, v = c :: r ∧ isEnd c = false) (hv : Settled item v ov) (hb : b.all isWs) :
    Settled (readEntry item) (b ++ x) (o.bind fun key => ov.map fun node => ⟨key, node⟩) := by
  obtain ⟨hb'⟩ := hx
  rename_i b'
  have hsplit (t : List Char) :
      b ++ (k ++ '=' :: (b' ++ v)) ++ t = b ++ (k ++ '=' :: (b' ++ (v ++ t))) := by simp
  have hws (t : List Char) : skipWs (b' ++ (v ++ t)) = v ++ t := by
    obtain ⟨c, r, rfl, hc⟩ := hhead
    rw [skipWs_append_of_blanks hb', List.cons_append, skipWs_cons_of_not (isWs_of_not_isEnd hc)]
  cases o with
  | none =>
    refine .refused fun t _ => ?_
    rw [hsplit, readEntry, ho b _ hb]
    exact stuck_none
  | some key =>
    have hentry (t : List Char) : readEntry item (b ++ (k ++ '=' :: (b' ++ v)) ++ t) =
        (item (v ++ t)).map fun (v, t) => (⟨key, v⟩, t) := by
      rw [hsplit, readEntry_of_key (ho b _ hb), hws]
    cases hv with
    | given node hv => exact .given _ fun t ht => by rw [hentry, hv t ht]; rfl
    | refused hv =>
      refine .refused fun t ht e r he => ?_
      rw [hentry] at he
      obtain ⟨⟨node, q⟩, hnode, heq⟩ := Option.map_eq_some_iff.1 he
      cases heq
      exact hv t ht node _ hnode

theorem Assigns.settles (hx : Assigns k v x) (hk : KeyText k) (hv : Settles item v) (hsolid : Solid v) :
    ∃ o, ∀ b y, b.all isWs → SameLines x y → Settled (readEntry item) (b ++ y) o := by
  obtain ⟨o, ho⟩ := hk.exists_readKey
  obtain ⟨ov, hov⟩ := hv
  refine ⟨o.bind fun key => ov.map fun node => ⟨key, node⟩, fun b y hb hy => ?_⟩
  rw [← List.append_nil x] at hy
  obtain ⟨v', x', s', rfl, hx', hvv, hs⟩ := hx.of_sameLines hk hy hsolid.last
  rw [hs.eq_nil, List.append_nil]
  exact hx'.settled ho (hsolid.head_of_sameLines hvv) (hov v' hvv) hb

theorem Assigns.getLast? (hx : Assigns k v x) (hv : Solid v) : x.getLast? ≠ some '\r' := by
  obtain ⟨-⟩ := hx
  obtain ⟨c, r, hcons, -⟩ := hv.head
  have hne : v ≠ [] := by simp [hcons]
  have hlast := hv.last
  rw [List.getLast?_eq_some_getLast hne] at hlast
  simpa [List.getLast?_append, List.getLast?_cons, List.getLast?_eq_some_getLast hne] using hlast

end Entries

section Braces

theorem readEntries_of_stuck (h : Stuck (readEntry item s)) : readEntries item s = none := by
  rw [readEntries]
  cases he : readEntry item s with
  | none => rfl
  | some x =>
    obtain ⟨e, q⟩ := x
    have hstuck := h e q he
    simp only [Option.bind_eq_bind, Option.bind_some]
    split
    · rename_i r hclose
      exact absurd (fun c hc => by rw [hclose] at hc; cases hc; rfl) hstuck
    · rename_i r hcomma
      exact absurd (fun c hc => by rw [hcomma] at hc; cases hc; rfl) hstuck
    · rfl

theorem readEntries_last {e : Entry} (he : readEntry item s = some (e, q))
    (hclose : skipWs q = '\x7d' :: r) : readEntries item s = some ([e], r) := by
  rw [readEntries, he]
  simp [hclose]

theorem readEntries_comma {e : Entry} (he : readEntry item s = some (e, q))
    (hcomma : skipWs q = ',' :: r) (hlt : r.length < s.length) :
    readEntries item s = (readEntries item r).map fun (es, t) => (e :: es, t) := by
  rw [readEntries, he]
  simp only [Option.bind_eq_bind, Option.bind_some, hcomma, if_pos hlt]
  cases readEntries item r <;> rfl

theorem Members.exists_read {ms : List (List Char × List Char)} (hs : Members ms s)
    (hk : ∀ m ∈ ms, KeyText m.1) (hv : ∀ m ∈ ms, Settles item m.2) (hsolid : ∀ m ∈ ms, Solid m.2) :
    ∃ o : Option (List Entry), ∀ b y t, b.all isWs → SameLines s y →
      readEntries item (b ++ (y ++ '\x7d' :: t)) = o.map fun es => (es, t) := by
  induction hs with
  | @last m x b hx hb =>
    obtain ⟨o, ho⟩ := hx.settles (hk m (by simp)) (hv m (by simp)) (hsolid m (by simp))
    refine ⟨o.map fun e => [e], fun b₀ y t hb₀ hy => ?_⟩
    obtain ⟨x', b₁, rfl, hxx, hbb⟩ := hy.of_append (.inl (hx.getLast? (hsolid m (by simp))))
    rw [hbb.eq_of_inline (all_inline hb rfl rfl)]
    have hclose : skipWs (b ++ '\x7d' :: t) = '\x7d' :: t := skipWs_append_of_blanks hb _
    have hends : EndsValue (b ++ '\x7d' :: t) := .blanks_append hb (endsValue_cons rfl rfl t)
    have hsplit : b₀ ++ (x' ++ b ++ '\x7d' :: t) = b₀ ++ x' ++ (b ++ '\x7d' :: t) := by simp
    rw [hsplit]
    cases ho b₀ x' hb₀ hxx with
    | given e he => exact readEntries_last (he _ hends) hclose
    | refused he => exact readEntries_of_stuck (he _ hends)
  | @comma m ms x b b' s hx hb hb' _ ih =>
    obtain ⟨o, ho⟩ := hx.settles (hk m (by simp)) (hv m (by simp)) (hsolid m (by simp))
    obtain ⟨os, hos⟩ := ih (fun m' hm => hk m' (List.mem_cons_of_mem m hm))
      (fun m' hm => hv m' (List.mem_cons_of_mem m hm)) fun m' hm => hsolid m' (List.mem_cons_of_mem m hm)
    refine ⟨o.bind fun e => os.map fun es => e :: es, fun b₀ y t hb₀ hy => ?_⟩
    have hfront : (b ++ ',' :: b').all isInline := by
      rw [List.all_append, List.all_cons, all_inline hb rfl rfl, all_inline hb' rfl rfl]
      rfl
    obtain ⟨x', y₁, rfl, hxx, hy₁⟩ := hy.of_append (.inl (hx.getLast? (hsolid m (by simp))))
    have hcons : b ++ ',' :: (b' ++ s) = b ++ ',' :: b' ++ s := by simp
    rw [hcons] at hy₁
    obtain ⟨s', rfl, hss⟩ := hy₁.of_inline hfront
    have hcomma : skipWs (b ++ ',' :: (b' ++ (s' ++ '\x7d' :: t))) =
        ',' :: (b' ++ (s' ++ '\x7d' :: t)) :=
      skipWs_append_of_blanks hb _
    have hends : EndsValue (b ++ ',' :: (b' ++ (s' ++ '\x7d' :: t))) :=
      .blanks_append hb (endsValue_cons rfl rfl _)
    have hsplit : b₀ ++ (x' ++ (b ++ ',' :: b' ++ s') ++ '\x7d' :: t) =
        b₀ ++ x' ++ (b ++ ',' :: (b' ++ (s' ++ '\x7d' :: t))) := by simp
    rw [hsplit]
    cases ho b₀ x' hb₀ hxx with
    | refused he => exact readEntries_of_stuck (he _ hends)
    | given e he =>
      have hlt : (b' ++ (s' ++ '\x7d' :: t)).length <
          (b₀ ++ x' ++ (b ++ ',' :: (b' ++ (s' ++ '\x7d' :: t)))).length := by
        simp only [List.length_append, List.length_cons]
        omega
      rw [readEntries_comma (he _ hends) hcomma hlt, hos b' s' t hb' hss]
      cases os <;> rfl

theorem readBraces_of_not (h : (skipWs s).head? ≠ some '\x7d') :
    readBraces item s = (readEntries item (skipWs s)).bind fun (es, t) =>
      (assignAll es []).bind fun draft => some (.table .closed draft, t) := by
  rw [readBraces]
  split
  · rename_i hclose
    rw [hclose] at h
    exact absurd rfl h
  · rfl

theorem KeyText.exists_cons (h : KeyText k) :
    ∃ c r, k = c :: r ∧ isEnd c = false ∧ c ≠ '[' ∧ c ≠ '\uFEFF' := by
  have part {x : List Char} (hx : PartText x) (r : List Char) :
      ∃ c r', x ++ r = c :: r' ∧ isEnd c = false ∧ c ≠ '[' ∧ c ≠ '\uFEFF' := by
    obtain ⟨c, s, rfl, hc⟩ := hx.exists_cons
    have hne {d : Char} (hd : isBare d = false) (hd' : d ≠ '"' ∧ d ≠ '\'') : c ≠ d := by
      rintro rfl
      rcases hc with hc | hc | hc
      · rw [hc] at hd
        cases hd
      · exact hd'.1 hc
      · exact hd'.2 hc
    refine ⟨c, s ++ r, rfl, ?_, hne rfl (by decide), hne rfl (by decide)⟩
    rw [Bool.eq_false_iff]
    intro hend
    rcases isEnd_iff.1 hend with h | h | h | h | h | h | h | h <;> exact hne rfl (by decide) h
  cases h with
  | last hx => exact part hx _
  | point hx => exact part hx _

theorem Members.exists_cons {ms : List (List Char × List Char)} (hs : Members ms s)
    (hk : ∀ m ∈ ms, KeyText m.1) : ∃ c r, s = c :: r ∧ isEnd c = false := by
  have assigns {m : List Char × List Char} {x : List Char} (hm : m ∈ ms) (hx : Assigns m.1 m.2 x)
      (r : List Char) : ∃ c r', x ++ r = c :: r' ∧ isEnd c = false := by
    obtain ⟨-⟩ := hx
    obtain ⟨c, k, hcons, hc, -⟩ := (hk m hm).exists_cons
    rw [hcons]
    exact ⟨c, _, rfl, hc⟩
  cases hs with
  | last hx => exact assigns List.mem_cons_self hx _
  | comma hx => exact assigns List.mem_cons_self hx _

-- A table in braces, with all behind the first one.
theorem Members.gives_readBraces {ms : List (List Char × List Char)} (hb : b.all isWs)
    (hs : Members ms s) (hk : ∀ m ∈ ms, KeyText m.1) (hv : ∀ m ∈ ms, Settles item m.2)
    (hsolid : ∀ m ∈ ms, Solid m.2) :
    ∃ o : Option Node, ∀ y t, SameLines s y →
      readBraces item (b ++ (y ++ '\x7d' :: t)) = o.map fun v => (v, t) := by
  obtain ⟨c, r, hcons, hc⟩ := hs.exists_cons hk
  obtain ⟨o, ho⟩ := hs.exists_read hk hv hsolid
  refine ⟨o.bind fun es => (assignAll es []).map fun draft => .table .closed draft, fun y t hy => ?_⟩
  have hws : skipWs (b ++ (y ++ '\x7d' :: t)) = y ++ '\x7d' :: t ∧
      (y ++ '\x7d' :: t).head? ≠ some '\x7d' := by
    rw [hcons] at hy
    obtain ⟨y, rfl, -⟩ := hy.of_cons (isInline_of_not_isEnd hc)
    rw [skipWs_append_of_blanks hb, List.cons_append, skipWs_cons_of_not (isWs_of_not_isEnd hc)]
    refine ⟨rfl, ?_⟩
    rintro heq
    cases heq
    cases hc
  have hread := ho [] y t rfl hy
  rw [List.nil_append] at hread
  rw [readBraces_of_not (by rw [hws.1]; exact hws.2), hws.1, hread]
  cases o with
  | none => rfl
  | some es => simp only [Option.map_some, Option.bind_some]; cases assignAll es [] <;> rfl

end Braces

end Roster.Toml
