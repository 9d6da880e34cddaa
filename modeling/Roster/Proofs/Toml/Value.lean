import Roster.Proofs.Toml.Entry

namespace Roster.Toml

open Number

variable {c : Char} {b q r s t x y : List Char} {item : Reader Node}

section Layout

theorem skipLayout_of_isWs (hc : isWs c = true) (r : List Char) :
    skipLayout (c :: r) = skipLayout r := by
  rw [skipLayout, if_pos hc]

theorem skipLayout_comment (h : newline? (skipComment r) = some q) :
    skipLayout ('#' :: r) = skipLayout q := by
  rw [skipLayout, if_neg (by decide), if_pos rfl]
  split
  · rename_i h'
    rw [h] at h'
    cases h'
    rfl
  · rename_i h'
    rw [h] at h'
    cases h'

theorem skipLayout_lineEnd {e : List Char} (he : LineEnd e) (s : List Char) :
    skipLayout (e ++ s) = skipLayout s := by
  have hnewline := newline?_ends he s
  obtain ⟨c, r, hcons, -⟩ := exists_cons_of_lineEnd he s
  have hc : ¬isWs c = true ∧ c ≠ '#' := by
    rcases he with rfl | rfl <;> (obtain ⟨rfl, -⟩ := List.cons.inj hcons; decide)
  rw [hcons] at hnewline ⊢
  rw [skipLayout, if_neg hc.1, if_neg hc.2]
  split
  · rename_i h
    rw [hnewline] at h
    cases h
    rfl
  · rename_i h
    rw [hnewline] at h
    cases h

theorem skipLayout_of_not (hc : isEnd c = false) (r : List Char) : skipLayout (c :: r) = c :: r := by
  have hmark : c ≠ '#' := (ne_of_isEnd rfl hc).symm
  have hnewline := newline?_of_isInline (isInline_of_not_isEnd hc) r
  rw [skipLayout, if_neg (by simp [isWs_of_not_isEnd hc]), if_neg hmark]
  split
  · rename_i h
    rw [hnewline] at h
    cases h
  · rfl

-- A comma or a closing bracket.
theorem skipLayout_mark (hc : c = ',' ∨ c = ']') (r : List Char) : skipLayout (c :: r) = c :: r := by
  rw [skipLayout]
  rcases hc with rfl | rfl <;> rfl

theorem LayoutText.skipLayout_append (h : LayoutText b) (s : List Char) :
    skipLayout (b ++ s) = skipLayout s := by
  induction h with
  | nil => rfl
  | blank hc _ ih => rw [List.cons_append, skipLayout_of_isWs hc, ih]
  | newline he _ ih => rw [List.append_assoc, skipLayout_lineEnd he, ih]
  | @comment q e b hq he _ ih =>
    have hskip : skipComment (q ++ (e ++ (b ++ s))) = e ++ (b ++ s) := by
      rw [skipComment, List.dropWhile_append_of_pos (List.all_eq_true.1 hq)]
      rcases he with rfl | rfl <;> rfl
    have hsplit : '#' :: (q ++ (e ++ b)) ++ s = '#' :: (q ++ (e ++ (b ++ s))) := by simp
    rw [hsplit, skipLayout_comment (q := b ++ s) (by rw [hskip, newline?_ends he]), ih]

theorem LayoutText.endsValue (h : LayoutText b) (hs : EndsValue s) : EndsValue (b ++ s) := by
  induction h with
  | nil => exact hs
  | blank hc _ ih =>
    rw [EndsValue, List.cons_append, skipWs_cons_of_isWs hc]
    exact ih
  | newline he => rcases he with rfl | rfl <;> exact endsValue_cons rfl rfl _
  | comment => exact endsValue_cons rfl rfl _

theorem LayoutText.of_sameLines (h : LayoutText b) (hy : SameLines (b ++ s) y) :
    ∃ b' s', y = b' ++ s' ∧ LayoutText b' ∧ SameLines s s' := by
  induction h generalizing y with
  | nil => exact ⟨[], y, rfl, .nil, hy⟩
  | @blank c b hc _ ih =>
    obtain ⟨y, rfl, hy'⟩ := hy.of_cons (isInline_of_not hc rfl rfl)
    obtain ⟨b', s', rfl, hb', hs⟩ := ih hy'
    exact ⟨c :: b', s', rfl, .blank hc hb', hs⟩
  | newline he _ ih =>
    rw [List.append_assoc] at hy
    obtain ⟨e', y, he', rfl, hy'⟩ := hy.of_lineEnd he
    obtain ⟨b', s', rfl, hb', hs⟩ := ih hy'
    exact ⟨e' ++ b', s', by simp, .newline he' hb', hs⟩
  | @comment q e b hq he _ ih =>
    have hsplit : '#' :: (q ++ (e ++ b)) ++ s = '#' :: q ++ (e ++ (b ++ s)) := by simp
    have hinline : ('#' :: q).all isInline := by
      rw [List.all_cons, all_inline hq rfl rfl]
      rfl
    rw [hsplit] at hy
    obtain ⟨y, rfl, hy'⟩ := hy.of_inline hinline
    obtain ⟨e', y, he', rfl, hy''⟩ := hy'.of_lineEnd he
    obtain ⟨b', s', rfl, hb', hs⟩ := ih hy''
    exact ⟨'#' :: (q ++ (e' ++ b')), s', by simp, .comment hq he' hb', hs⟩

theorem length_skipLayout_le (s : List Char) : (skipLayout s).length ≤ s.length := by
  fun_induction skipLayout s with
  | case1 => exact Nat.le_refl _
  | case2 c r hc ih => exact Nat.le_succ_of_le ih
  | case3 r q h _ ih =>
    have h1 := length_newline?_lt h
    have h2 := length_skipComment_le r
    rw [List.length_cons]
    omega
  | case4 => exact Nat.le_refl _
  | case5 c r hc hmark q h ih => exact Nat.le_trans ih (Nat.le_of_lt (length_newline?_lt h))
  | case6 => exact Nat.le_refl _

end Layout

section Arrays

theorem skipLayout_skipWs (s : List Char) : skipLayout (skipWs s) = skipLayout s := by
  induction s with
  | nil => rfl
  | cons c s ih =>
    cases hc : isWs c with
    | true => rw [skipWs_cons_of_isWs hc, skipLayout_of_isWs hc, ih]
    | false => rw [skipWs_cons_of_not hc]

-- Behind an item that is stuck there is no comma and no closing bracket.
theorem exists_of_not_endsValue (h : ¬EndsValue s) : ∃ c r, skipLayout s = c :: r ∧ isEnd c = false := by
  rw [← skipLayout_skipWs]
  cases hs : skipWs s with
  | nil => exact absurd (fun c hc => by rw [hs] at hc; cases hc) h
  | cons c r =>
    have hc : isEnd c = false := by
      by_contra hend
      refine h fun d hd => ?_
      rw [hs] at hd
      cases hd
      simpa using hend
    exact ⟨c, r, skipLayout_of_not hc r, hc⟩

theorem readItems_of_stuck (h : Stuck (item (skipLayout s))) : readItems item s = none := by
  rw [readItems]
  cases hv : item (skipLayout s) with
  | none => rfl
  | some x =>
    obtain ⟨v, q⟩ := x
    obtain ⟨c, r, hq, hc⟩ := exists_of_not_endsValue (h v q hv)
    simp only [Option.bind_eq_bind, Option.bind_some, hq]
    split
    · rename_i heq
      obtain ⟨rfl, -⟩ := List.cons.inj heq
      cases hc
    · rename_i heq
      obtain ⟨rfl, -⟩ := List.cons.inj heq
      cases hc
    · rfl

theorem readItems_last {v : Node} (hv : item (skipLayout s) = some (v, q))
    (hclose : skipLayout q = ']' :: r) : readItems item s = some ([v], r) := by
  rw [readItems, hv]
  simp [hclose]

theorem readItems_lastComma {v : Node} {q' : List Char} (hv : item (skipLayout s) = some (v, q))
    (hcomma : skipLayout q = ',' :: q') (hclose : skipLayout q' = ']' :: r) :
    readItems item s = some ([v], r) := by
  rw [readItems, hv]
  simp [hcomma, hclose]

theorem readItems_comma {v : Node} {q' : List Char} (hv : item (skipLayout s) = some (v, q))
    (hcomma : skipLayout q = ',' :: q') (hopen : (skipLayout q').head? ≠ some ']')
    (hlt : (skipLayout q').length < s.length) :
    readItems item s = (readItems item (skipLayout q')).map fun (vs, t) => (v :: vs, t) := by
  rw [readItems, hv]
  simp only [Option.bind_eq_bind, Option.bind_some, hcomma]
  split
  · rename_i hclose
    rw [hclose] at hopen
    exact absurd rfl hopen
  · rw [if_pos hlt]
    cases readItems item (skipLayout q') <;> rfl

theorem Solid.skipLayout_append (hx : Solid x) (hy : SameLines x y) (hb : LayoutText b) (r : List Char) :
    skipLayout (b ++ (y ++ r)) = y ++ r := by
  obtain ⟨c, q, rfl, hc⟩ := hx.head_of_sameLines hy
  rw [hb.skipLayout_append, List.cons_append, skipLayout_of_not hc]

theorem LayoutText.sameLines (h : LayoutText b) (hy : SameLines b y) : LayoutText y := by
  rw [← List.append_nil b] at hy
  obtain ⟨b', s', rfl, hb', hs⟩ := h.of_sameLines hy
  rwa [hs.eq_nil, List.append_nil]

-- One item, up to the layout behind it.
theorem Solid.of_sameLines (hx : Solid x) (hb : LayoutText b) (h : SameLines (b ++ (x ++ s)) y) :
    ∃ b' x' s', y = b' ++ (x' ++ s') ∧ SameLines x x' ∧ SameLines s s' ∧
      ∀ r, skipLayout (b' ++ (x' ++ r)) = x' ++ r ∧ skipLayout (x' ++ r) = x' ++ r := by
  obtain ⟨b', y', rfl, hb', hy'⟩ := hb.of_sameLines h
  obtain ⟨x', s', rfl, hxx, hss⟩ := hy'.of_append (.inl hx.last)
  exact ⟨b', x', s', rfl, hxx, hss, fun r =>
    ⟨hx.skipLayout_append hxx hb' r, hx.skipLayout_append hxx .nil r⟩⟩

theorem Solid.head?_ne (hx : Solid x) (hy : SameLines x y) (r : List Char) :
    (y ++ r).head? ≠ some ']' := by
  obtain ⟨c, q, rfl, hc⟩ := hx.head_of_sameLines hy
  rintro heq
  cases heq
  cases hc

theorem Items.exists_read {xs : List (List Char)} (hs : Items xs s) (hx : ∀ x ∈ xs, Settles item x)
    (hsolid : ∀ x ∈ xs, Solid x) :
    ∃ o : Option (List Node), ∀ y t, SameLines s y →
      (skipLayout (y ++ ']' :: t)).head? ≠ some ']' ∧
        readItems item (skipLayout (y ++ ']' :: t)) = o.map fun vs => (vs, t) := by
  induction hs with
  | @last b x b' hb hb' =>
    have hsolid := hsolid x (by simp)
    obtain ⟨o, ho⟩ := hx x (by simp)
    refine ⟨o.map fun v => [v], fun y t hy => ?_⟩
    obtain ⟨b₁, x', b₂, rfl, hxx, hbb, hskip⟩ := hsolid.of_sameLines hb hy
    have hb₂ := hb'.sameLines hbb
    have hends : EndsValue (b₂ ++ ']' :: t) := hb₂.endsValue (endsValue_cons rfl rfl t)
    rw [List.append_assoc, List.append_assoc, (hskip _).1]
    refine ⟨hsolid.head?_ne hxx _, ?_⟩
    cases ho x' hxx with
    | given v hv =>
      have hread : item (skipLayout (x' ++ (b₂ ++ ']' :: t))) = some (v, b₂ ++ ']' :: t) := by
        rw [(hskip _).2, hv _ hends]
      have hclose : skipLayout (b₂ ++ ']' :: t) = ']' :: t := by
        rw [hb₂.skipLayout_append, skipLayout_mark (.inr rfl)]
      exact readItems_last hread hclose
    | refused hv => exact readItems_of_stuck (by rw [(hskip _).2]; exact hv _ hends)
  | @lastComma b x b' b'' hb hb' hb'' =>
    have hsolid := hsolid x (by simp)
    obtain ⟨o, ho⟩ := hx x (by simp)
    refine ⟨o.map fun v => [v], fun y t hy => ?_⟩
    obtain ⟨b₁, x', y₁, rfl, hxx, hy₁, hskip⟩ := hsolid.of_sameLines hb hy
    obtain ⟨b₂, y₂, rfl, hb₂, hy₂⟩ := hb'.of_sameLines hy₁
    obtain ⟨b₃, rfl, hbb⟩ := hy₂.of_cons (by decide)
    have hb₃ := hb''.sameLines hbb
    have hends : EndsValue (b₂ ++ ',' :: (b₃ ++ ']' :: t)) := hb₂.endsValue (endsValue_cons rfl rfl _)
    have hsplit : b₁ ++ (x' ++ (b₂ ++ ',' :: b₃)) ++ ']' :: t =
        b₁ ++ (x' ++ (b₂ ++ ',' :: (b₃ ++ ']' :: t))) := by simp
    rw [hsplit, (hskip _).1]
    refine ⟨hsolid.head?_ne hxx _, ?_⟩
    cases ho x' hxx with
    | given v hv =>
      have hread : item (skipLayout (x' ++ (b₂ ++ ',' :: (b₃ ++ ']' :: t)))) =
          some (v, b₂ ++ ',' :: (b₃ ++ ']' :: t)) := by
        rw [(hskip _).2, hv _ hends]
      have hcomma : skipLayout (b₂ ++ ',' :: (b₃ ++ ']' :: t)) = ',' :: (b₃ ++ ']' :: t) := by
        rw [hb₂.skipLayout_append, skipLayout_mark (.inl rfl)]
      have hclose : skipLayout (b₃ ++ ']' :: t) = ']' :: t := by
        rw [hb₃.skipLayout_append, skipLayout_mark (.inr rfl)]
      exact readItems_lastComma hread hcomma hclose
    | refused hv => exact readItems_of_stuck (by rw [(hskip _).2]; exact hv _ hends)
  | @comma b x b' s xs hb hb' _ ih =>
    obtain ⟨os, hos⟩ := ih (fun z hz => hx z (List.mem_cons_of_mem x hz)) fun z hz =>
      hsolid z (List.mem_cons_of_mem x hz)
    have hsolid := hsolid x (by simp)
    obtain ⟨o, ho⟩ := hx x (by simp)
    refine ⟨o.bind fun v => os.map fun vs => v :: vs, fun y t hy => ?_⟩
    obtain ⟨b₁, x', y₁, rfl, hxx, hy₁, hskip⟩ := hsolid.of_sameLines hb hy
    obtain ⟨b₂, y₂, rfl, hb₂, hy₂⟩ := hb'.of_sameLines hy₁
    obtain ⟨s', rfl, hss⟩ := hy₂.of_cons (by decide)
    obtain ⟨hopen, hrest⟩ := hos s' t hss
    have hends : EndsValue (b₂ ++ ',' :: (s' ++ ']' :: t)) := hb₂.endsValue (endsValue_cons rfl rfl _)
    have hsplit : b₁ ++ (x' ++ (b₂ ++ ',' :: s')) ++ ']' :: t =
        b₁ ++ (x' ++ (b₂ ++ ',' :: (s' ++ ']' :: t))) := by simp
    rw [hsplit, (hskip _).1]
    refine ⟨hsolid.head?_ne hxx _, ?_⟩
    cases ho x' hxx with
    | refused hv => exact readItems_of_stuck (by rw [(hskip _).2]; exact hv _ hends)
    | given v hv =>
      have hread : item (skipLayout (x' ++ (b₂ ++ ',' :: (s' ++ ']' :: t)))) =
          some (v, b₂ ++ ',' :: (s' ++ ']' :: t)) := by
        rw [(hskip _).2, hv _ hends]
      have hcomma : skipLayout (b₂ ++ ',' :: (s' ++ ']' :: t)) = ',' :: (s' ++ ']' :: t) := by
        rw [hb₂.skipLayout_append, skipLayout_mark (.inl rfl)]
      have hlt : (skipLayout (s' ++ ']' :: t)).length <
          (x' ++ (b₂ ++ ',' :: (s' ++ ']' :: t))).length := by
        have hle := length_skipLayout_le (s' ++ ']' :: t)
        simp only [List.length_append, List.length_cons] at hle ⊢
        omega
      rw [readItems_comma hread hcomma hopen hlt, hrest]
      cases os <;> rfl

theorem readArray_empty (h : skipLayout s = ']' :: r) : readArray item s = some ([], r) := by
  rw [readArray, h]
  rfl

theorem readArray_of_not (h : (skipLayout s).head? ≠ some ']') :
    readArray item s = readItems item (skipLayout s) := by
  rw [readArray]
  split
  · rename_i hclose
    rw [hclose] at h
    exact absurd rfl h
  · rfl

end Arrays

section Values

-- What a value starts with that holds no others.
def StartsLeaf (x : List Char) : Prop :=
  ∃ c r, x = c :: r ∧ isEnd c = false ∧ c ≠ '[' ∧ c ≠ '\x7b'

theorem startsLeaf_of_digit (hc : isDigit c = true) (r : List Char) : StartsLeaf (c :: r) := by
  refine ⟨c, r, rfl, ?_, ne_of_isDigit hc rfl, ne_of_isDigit hc rfl⟩
  rw [Bool.eq_false_iff]
  intro hend
  rw [isDigit_of_isEnd hend] at hc
  cases hc

theorem NumeralText.startsLeaf (h : NumeralText x) : StartsLeaf x := by
  obtain ⟨c, r, rfl, hc⟩ := h.exists_cons
  rcases hc with hc | hc
  · exact startsLeaf_of_digit hc r
  · simp only [List.mem_cons, List.not_mem_nil, or_false] at hc
    rcases hc with rfl | rfl | rfl | rfl <;> exact ⟨_, _, rfl, rfl, by decide, by decide⟩

theorem DateTimeText.startsLeaf (h : DateTimeText x) : StartsLeaf x := by
  have date {d : List Char} (hd : DateText d) (r : List Char) : StartsLeaf (d ++ r) := by
    obtain ⟨c, s, rfl, hc⟩ := hd.exists_cons
    exact startsLeaf_of_digit hc _
  cases h with
  | date hd =>
    rw [← List.append_nil x]
    exact date hd []
  | time ht =>
    obtain ⟨c, s, rfl, hc⟩ := ht.exists_cons
    exact startsLeaf_of_digit hc _
  | both hd => exact date hd _

theorem QuotedText.startsLeaf (h : QuotedText x) : StartsLeaf x := by
  obtain ⟨c, r, rfl, hc⟩ := h.exists_cons
  rcases hc with rfl | rfl <;> exact ⟨_, _, rfl, rfl, by decide, by decide⟩

theorem StartsLeaf.solid (h : StartsLeaf x) (hinline : x.all isInline) : Solid x := by
  obtain ⟨c, r, hx, hc, -⟩ := h
  exact ⟨⟨c, r, hx, hc⟩, getLast?_ne_of_inline hinline⟩

theorem ValueText.solid (h : ValueText x) : Solid x := by
  cases h with
  | true => exact ⟨⟨_, _, rfl, rfl⟩, by decide⟩
  | false => exact ⟨⟨_, _, rfl, rfl⟩, by decide⟩
  | numeral h => exact h.startsLeaf.solid h.inline
  | dateTime h => exact h.startsLeaf.solid h.inline
  | string h => exact h.startsLeaf.solid h.inline
  | emptyArray => exact ⟨⟨_, _, rfl, rfl⟩, by simp [List.getLast?_cons, List.getLast?_append]⟩
  | array => exact ⟨⟨_, _, rfl, rfl⟩, by simp [List.getLast?_cons, List.getLast?_append]⟩
  | emptyBraces => exact ⟨⟨_, _, rfl, rfl⟩, by simp [List.getLast?_cons, List.getLast?_append]⟩
  | braces => exact ⟨⟨_, _, rfl, rfl⟩, by simp [List.getLast?_cons, List.getLast?_append]⟩

theorem readValue_leaf (hlist : c ≠ '[') (htable : c ≠ '\x7b') (n : Nat) (r : List Char) :
    readValue n (c :: r) = readLeaf (c :: r) := by
  cases n <;> simp [readValue, hlist, htable]

-- A value that holds no others.
theorem settles_leaf {o : Option Scalar} (hinline : x.all isInline) (hstarts : StartsLeaf x)
    (hx : Settled readScalar x o) (n : Nat) : Settles (readValue n) x := by
  refine ⟨o.map .scalar, fun y hy => ?_⟩
  rw [hy.eq_of_inline hinline]
  refine (hx.map Node.scalar).congr fun t _ => ?_
  obtain ⟨c, r, rfl, -, hlist, htable⟩ := hstarts
  exact readValue_leaf hlist htable n (r ++ t)

theorem SameLines.of_enclosed {opening closing : Char} (hopening : isInline opening = true)
    (hclosing : isInline closing = true) (h : SameLines (opening :: (s ++ [closing])) y) :
    ∃ s', y = opening :: (s' ++ [closing]) ∧ SameLines s s' := by
  have hne : closing ≠ '\n' := by
    rintro rfl
    cases hclosing
  obtain ⟨y, rfl, hy⟩ := h.of_cons hopening
  obtain ⟨s', y, rfl, hss, hy'⟩ := hy.of_append (.inr (by simpa using hne))
  obtain ⟨y, rfl, hnil⟩ := hy'.of_cons hclosing
  rw [hnil.eq_nil]
  exact ⟨s', rfl, hss⟩

-- A value in brackets or braces, by what is read between them one level further down. Without a level
-- to go down to, it is refused at its first character.
theorem settles_nested {opening closing : Char} (read : Nat → Reader Node)
    (hopening : opening = '[' ∨ opening = '\x7b') (hclosing : isInline closing = true)
    (hvalue : ∀ n r, readValue (n + 1) (opening :: r) = read n r)
    (hread : ∀ n, ∃ o : Option Node, ∀ y t, SameLines s y →
      read n (y ++ closing :: t) = o.map fun v => (v, t)) (n : Nat) :
    Settles (readValue n) (opening :: (s ++ [closing])) := by
  have hinline : isInline opening = true := by rcases hopening with rfl | rfl <;> rfl
  cases n with
  | zero =>
    refine ⟨none, fun y hy => .refused fun t _ => ?_⟩
    obtain ⟨s', rfl, -⟩ := hy.of_enclosed hinline hclosing
    have hnone (r : List Char) : readValue 0 (opening :: r) = none := by
      rcases hopening with rfl | rfl <;> rfl
    rw [List.cons_append, hnone]
    exact stuck_none
  | succ n =>
    obtain ⟨o, ho⟩ := hread n
    refine ⟨o, fun y hy => ?_⟩
    obtain ⟨s', rfl, hss⟩ := hy.of_enclosed hinline hclosing
    have hnested (t : List Char) : readValue (n + 1) (opening :: (s' ++ [closing]) ++ t) =
        o.map fun v => (v, t) := by
      rw [List.cons_append, hvalue, List.append_assoc]
      exact ho s' t hss
    cases o with
    | none => exact .refused fun t _ => by rw [hnested]; exact stuck_none
    | some v => exact .given v fun t _ => hnested t

theorem settles_brackets
    (hread : ∀ n, ∃ o : Option (List Node), ∀ y t, SameLines s y →
      readArray (readValue n) (y ++ ']' :: t) = o.map fun ns => (ns, t)) (n : Nat) :
    Settles (readValue n) ('[' :: (s ++ [']'])) := by
  refine settles_nested (fun n r => (readArray (readValue n) r).map fun (ns, t) => (.list ns, t))
    (.inl rfl) rfl (fun _ _ => rfl) (fun n => ?_) n
  obtain ⟨o, ho⟩ := hread n
  refine ⟨o.map .list, fun y t hy => ?_⟩
  simp only [ho y t hy]
  cases o <;> rfl

theorem settles_braces
    (hread : ∀ n, ∃ o : Option Node, ∀ y t, SameLines s y →
      readBraces (readValue n) (y ++ '\x7d' :: t) = o.map fun v => (v, t)) (n : Nat) :
    Settles (readValue n) ('\x7b' :: (s ++ ['\x7d'])) :=
  settles_nested (fun n => readBraces (readValue n)) (.inr rfl) rfl (fun _ _ => rfl) hread n

theorem ValueText.settles (h : ValueText x) (n : Nat) : Settles (readValue n) x := by
  induction h generalizing n with
  | true =>
    have hread : Settled readScalar ['t', 'r', 'u', 'e'] (some (.boolean Bool.true)) :=
      .given _ fun _ _ => rfl
    exact settles_leaf rfl ⟨_, _, rfl, rfl, by decide, by decide⟩ hread n
  | false =>
    have hread : Settled readScalar ['f', 'a', 'l', 's', 'e'] (some (.boolean Bool.false)) :=
      .given _ fun _ _ => rfl
    exact settles_leaf rfl ⟨_, _, rfl, rfl, by decide, by decide⟩ hread n
  | numeral h =>
    obtain ⟨o, ho⟩ := h.gives_readScalar.exists_settled
    exact settles_leaf h.inline h.startsLeaf ho n
  | dateTime h =>
    obtain ⟨o, ho⟩ := h.exists_settled_readScalar
    exact settles_leaf h.inline h.startsLeaf ho n
  | string h =>
    obtain ⟨o, ho⟩ := h.gives_readScalar.exists_settled
    exact settles_leaf h.inline h.startsLeaf ho n
  | @emptyArray b hb =>
    refine settles_brackets (fun _ => ⟨some [], fun y t hy => readArray_empty ?_⟩) n
    rw [(hb.sameLines hy).skipLayout_append, skipLayout_mark (.inr rfl)]
  | @array xs s hs hx ih =>
    refine settles_brackets (fun n => ?_) n
    obtain ⟨o, ho⟩ := hs.exists_read (fun x hx => ih x hx n) fun x hxs => (hx x hxs).solid
    refine ⟨o, fun y t hy => ?_⟩
    obtain ⟨hopen, hread⟩ := ho y t hy
    rw [readArray_of_not hopen, hread]
  | @emptyBraces b hb =>
    refine settles_braces (fun _ => ⟨some (.table .closed []), fun y t hy => ?_⟩) n
    rw [hy.eq_of_inline (all_inline hb rfl rfl), readBraces, skipWs_append_of_blanks hb,
      skipWs_cons_of_not rfl]
    rfl
  | @braces ms b s hb hs hk hv ih =>
    have hsplit : '\x7b' :: (b ++ (s ++ ['\x7d'])) = '\x7b' :: (b ++ s ++ ['\x7d']) := by simp
    rw [hsplit]
    refine settles_braces (fun n => ?_) n
    obtain ⟨o, ho⟩ := hs.gives_readBraces hb hk (fun m hm => ih m hm n) fun m hm => (hv m hm).solid
    refine ⟨o, fun y t hy => ?_⟩
    obtain ⟨s', rfl, hss⟩ := hy.of_inline (all_inline hb rfl rfl)
    rw [List.append_assoc]
    exact ho s' t hss

-- An expression is an entry or is refused, however its lines end and whatever stands on the line behind.
theorem ExpressionText.settles (h : ExpressionText x) (n : Nat) :
    Settles (readEntry (readValue n)) x := by
  obtain ⟨k, v, hk, hv, hx⟩ := h
  obtain ⟨o, ho⟩ := hx.settles hk (hv.settles n) hv.solid
  exact ⟨o, fun y hy => ho [] y rfl hy⟩

end Values

end Roster.Toml
