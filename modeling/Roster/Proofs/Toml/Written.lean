import Roster.Proofs.Toml.Value

namespace Roster.Toml

-- Blanks on a line, and perhaps a comment behind them.
inductive Filler : List Char → Prop
  | blanks {b : List Char} (hb : b.all isWs) : Filler b
  | comment {b q : List Char} (hb : b.all isWs) (hq : q.all isText) :
      Filler (b ++ '#' :: q)

-- The line ends inside of an expression may change as well.
inductive Written : List (List Char) → List Char → Prop
  | last {f : List Char} (hf : Filler f) : Written [] f
  | blank {xs : List (List Char)} {f e s : List Char} (hf : Filler f) (he : LineEnd e)
      (h : Written xs s) : Written xs (f ++ (e ++ s))
  | lastLine {b x y f : List Char} (hb : b.all isWs) (hx : SameLines x y)
      (hf : Filler f) : Written [x] (b ++ (y ++ f))
  | line {xs : List (List Char)} {b x y f e s : List Char} (hb : b.all isWs)
      (hx : SameLines x y) (hf : Filler f) (he : LineEnd e) (h : Written xs s) :
      Written (x :: xs) (b ++ (y ++ (f ++ (e ++ s))))

-- The plainest of these texts.
def onLines (xs : List (List Char)) : List Char := xs.flatMap fun x => x ++ ['\n']

-- The entry that a text writes from its first character to its last.
def expression? (x : List Char) : Option Entry :=
  match readEntry (readValue depthLimit) x with
  | some (e, []) => some e
  | _ => none

def entriesOf (xs : List (List Char)) : List Entry := xs.filterMap expression?

variable {x y f e s t r rest : List Char} {xs : List (List Char)} {c : Char}

theorem written_onLines (h : ∀ x ∈ xs, ExpressionText x) : Written xs (onLines xs) := by
  induction xs with
  | nil => exact .last (.blanks rfl)
  | cons x xs ih =>
    obtain ⟨hx, hxs⟩ := List.forall_mem_cons.1 h
    have hsplit : onLines (x :: xs) = [] ++ (x ++ ([] ++ (['\n'] ++ onLines xs))) := by simp [onLines]
    rw [hsplit]
    exact .line rfl hx.sameLines_self (.blanks rfl) (.inl rfl) (ih hxs)

section Fillers

theorem skipComment_append_of_text {q : List Char} (hq : q.all isText) (he : LineEnd e)
    (s : List Char) : skipComment (q ++ (e ++ s)) = e ++ s := by
  rw [skipComment, List.dropWhile_append_of_pos (List.all_eq_true.1 hq)]
  rcases he with rfl | rfl <;> rfl

theorem skipWs_lineEnd (he : LineEnd e) (s : List Char) : skipWs (e ++ s) = e ++ s := by
  rcases he with rfl | rfl <;> rfl

theorem lineEnd?_append (he : LineEnd e) (s : List Char) : lineEnd? (e ++ s) = some s := by
  rcases he with rfl | rfl <;> rfl

theorem restOfLine?_line (hf : Filler f) (he : LineEnd e) (s : List Char) :
    restOfLine? (f ++ (e ++ s)) = some s := by
  cases hf with
  | blanks hb =>
    rw [restOfLine?, skipWs_append_of_blanks hb, skipWs_lineEnd he]
    rcases he with rfl | rfl <;> rfl
  | comment hb hq =>
    have hmark (q : List Char) : skipWs ('#' :: q) = '#' :: q := rfl
    rw [List.append_assoc, List.cons_append, restOfLine?, skipWs_append_of_blanks hb, hmark]
    simp only [skipComment_append_of_text hq he, lineEnd?_append he]

theorem restOfLine?_last (hf : Filler f) : restOfLine? f = some [] := by
  have hnil {q : List Char} {p : Char → Bool} (hq : q.all p) : q.dropWhile p = [] := by
    rw [← List.append_nil q, List.dropWhile_append_of_pos (List.all_eq_true.1 hq)]
    rfl
  cases hf with
  | blanks hb =>
    rw [restOfLine?, skipWs, hnil hb]
    rfl
  | comment hb hq =>
    have hmark (q : List Char) : skipWs ('#' :: q) = '#' :: q := rfl
    rw [restOfLine?, skipWs_append_of_blanks hb, hmark]
    simp only [skipComment, hnil hq]
    rfl

-- Where a line can end, a value ends.
theorem endsValue_of_restOfLine? (h : restOfLine? t = some rest) : EndsValue t := by
  intro c hc
  unfold restOfLine? at h
  cases hs : skipWs t with
  | nil =>
    rw [hs] at hc
    cases hc
  | cons d r =>
    rw [hs] at hc h
    obtain rfl : d = c := Option.some.inj hc
    split at h
    · rename_i heq
      cases heq
      rfl
    · by_contra hend
      have hnewline := newline?_of_isInline (isInline_of_not_isEnd (Bool.eq_false_iff.2 hend)) r
      rw [lineEnd?, hnewline] at h
      · cases h
      · nofun

theorem readLines_nil : readLines [] = some [] := by
  rw [readLines]
  rfl

-- A line that holds nothing but what may follow an expression.
theorem readLines_of_restOfLine? (h : restOfLine? s = some rest) : readLines s = readLines rest := by
  cases hs : skipWs s with
  | nil =>
    have hrest : rest = [] := by
      rw [restOfLine?, hs] at h
      exact (Option.some.inj h).symm
    rw [hrest, readLines_nil, readLines.eq_def]
    split
    · rfl
    · rename_i hcons
      rw [hs] at hcons
      cases hcons
  | cons c r =>
    rw [readLines.eq_def]
    split
    · rename_i hnil
      rw [hs] at hnil
      cases hnil
    · rename_i d q hcons
      rw [hs] at hcons
      obtain ⟨rfl, rfl⟩ := List.cons.inj hcons
      by_cases hmark : c = '#'
      · subst hmark
        have hend : lineEnd? (skipComment r) = some rest := by
          rw [restOfLine?, hs] at h
          exact h
        rw [if_pos rfl]
        split
        · rename_i h'
          rw [hend] at h'
          cases h'
          rfl
        · rename_i h'
          rw [hend] at h'
          cases h'
      · have hend : newline? (c :: r) = some rest := by
          rw [restOfLine?, hs] at h
          split at h
          · rename_i heq
            exact absurd (List.cons.inj heq).1 hmark
          · exact h
        rw [if_neg hmark]
        split
        · rename_i h'
          rw [hend] at h'
          cases h'
          rfl
        · rename_i h'
          rw [hend] at h'
          cases h'

end Fillers

section Expressions

-- An expression starts with a key.
theorem ExpressionText.exists_head (hx : ExpressionText x) (hy : SameLines x y) :
    ∃ c r, y = c :: r ∧ isEnd c = false ∧ c ≠ '[' ∧ c ≠ '\uFEFF' := by
  obtain ⟨k, v, hk, -, ⟨-⟩⟩ := hx
  obtain ⟨c, r, rfl, hc, hheader, hmark⟩ := hk.exists_cons
  obtain ⟨r', hr', -⟩ := hy.of_cons (isInline_of_not_isEnd hc)
  exact ⟨c, r', hr', hc, hheader, hmark⟩

-- What an expression comes to on a line is what it comes to alone.
theorem ExpressionText.settled (hx : ExpressionText x) (hy : SameLines x y) :
    Settled (readEntry (readValue depthLimit)) y (expression? x) := by
  obtain ⟨o, ho⟩ := hx.settles depthLimit
  suffices hexpression : expression? x = o by
    rw [hexpression]
    exact ho y hy
  have hread := ho x hx.sameLines_self
  cases o with
  | some e => rw [expression?, hread.read_self]
  | none =>
    unfold expression?
    split
    · rename_i e heq
      exact absurd endsValue_nil (hread.stuck_self e [] heq)
    · rfl

theorem readEntry_of_expression? {e : Entry} (h : expression? x = some e) :
    readEntry (readValue depthLimit) x = some (e, []) := by
  unfold expression? at h
  split at h
  · rename_i heq
    cases h
    exact heq
  · cases h

theorem readLine_of_ne (hc : c ≠ '[') (r : List Char) :
    readLine (c :: r) = (readEntry (readValue depthLimit) (c :: r)).map fun (e, r) => (.entry e, r) := by
  simp [readLine, hc]

-- Behind an entry that is stuck, the line does not end.
theorem readLines_of_stuck (hs : skipWs s = c :: r) (hc : isEnd c = false) (hheader : c ≠ '[')
    (h : Stuck (readEntry (readValue depthLimit) (c :: r))) : readLines s = none := by
  rw [readLines.eq_def]
  split
  · rename_i hnil
    rw [hs] at hnil
    cases hnil
  · rename_i d q hcons
    rw [hs] at hcons
    obtain ⟨rfl, rfl⟩ := List.cons.inj hcons
    have hcomment : c ≠ '#' := (ne_of_isEnd rfl hc).symm
    have hnewline := newline?_of_isInline (isInline_of_not_isEnd hc) r
    rw [if_neg hcomment]
    split
    · rename_i hline
      rw [hnewline] at hline
      cases hline
    · rw [readLine_of_ne hheader]
      cases he : readEntry (readValue depthLimit) (c :: r) with
      | none => rfl
      | some x =>
        have hend : restOfLine? x.2 = none := by
          rw [Option.eq_none_iff_forall_ne_some]
          exact fun rest hrest => h x.1 x.2 he (endsValue_of_restOfLine? hrest)
        simp [hend]

theorem readLines_expression (hb : f.all isWs) (hx : ExpressionText x) (hy : SameLines x y)
    (ht : restOfLine? t = some rest) :
    readLines (f ++ (y ++ t)) =
      (expression? x).bind fun e => (readLines rest).map (.entry e :: ·) := by
  have hends := endsValue_of_restOfLine? ht
  have hread := hx.settled hy
  generalize expression? x = o at hread ⊢
  obtain ⟨c, r, rfl, hc, hheader, -⟩ := hx.exists_head hy
  have hs : skipWs (f ++ (c :: r ++ t)) = c :: (r ++ t) := by
    rw [skipWs_append_of_blanks hb, List.cons_append, skipWs_cons_of_not (isWs_of_not_isEnd hc)]
  cases hread with
  | refused h => exact readLines_of_stuck hs hc hheader (h t hends)
  | given e h =>
    have hcomment : c ≠ '#' := (ne_of_isEnd rfl hc).symm
    have hnewline := newline?_of_isInline (isInline_of_not_isEnd hc) (r ++ t)
    have hline : readLine (c :: (r ++ t)) = some (.entry e, t) := by
      rw [readLine_of_ne hheader, ← List.cons_append, h t hends]
      rfl
    have hlen : rest.length < (f ++ (c :: r ++ t)).length := by
      have hle := length_restOfLine?_le ht
      simp only [List.length_append, List.length_cons]
      omega
    exact readLines_line hs hcomment hnewline hline ht hlen

end Expressions

section Documents

def AllRead (xs : List (List Char)) : Prop := ∀ x ∈ xs, (expression? x).isSome

instance (xs : List (List Char)) : Decidable (AllRead xs) := List.decidableBAll _ xs

theorem linesOf_cons (x : List Char) (xs : List (List Char)) :
    (if AllRead (x :: xs) then some ((entriesOf (x :: xs)).map Line.entry) else none) =
      (expression? x).bind fun e =>
        (if AllRead xs then some ((entriesOf xs).map Line.entry) else none).map (.entry e :: ·) := by
  cases he : expression? x with
  | none => simp [AllRead, he]
  | some e =>
    have hcons : AllRead (x :: xs) ↔ AllRead xs := by simp [AllRead, he]
    by_cases hxs : AllRead xs
    · rw [if_pos (hcons.2 hxs), if_pos hxs]
      simp [entriesOf, he]
    · rw [if_neg fun h => hxs (hcons.1 h), if_neg hxs]
      rfl

theorem readLines_written (h : Written xs s) (hxs : ∀ x ∈ xs, ExpressionText x) :
    readLines s = if AllRead xs then some ((entriesOf xs).map .entry) else none := by
  have hnil : (if AllRead [] then some ((entriesOf []).map Line.entry) else none) = some [] := by
    simp [AllRead, entriesOf]
  induction h with
  | last hf => rw [readLines_of_restOfLine? (restOfLine?_last hf), readLines_nil, hnil]
  | blank hf he _ ih =>
    rw [readLines_of_restOfLine? (restOfLine?_line hf he _)]
    exact ih hxs
  | lastLine hb hy hf =>
    rw [readLines_expression hb (hxs _ List.mem_cons_self) hy (restOfLine?_last hf), readLines_nil,
      linesOf_cons, hnil]
  | line hb hy hf he _ ih =>
    rw [readLines_expression hb (hxs _ List.mem_cons_self) hy (restOfLine?_line hf he _),
      ih fun x hx => hxs x (List.mem_cons_of_mem _ hx), linesOf_cons]

theorem ofLines_entries (es : List Entry) : Document.ofLines (es.map .entry) = ⟨es, []⟩ := by
  induction es with
  | nil => rfl
  | cons e es ih => rw [List.map_cons, Document.ofLines, ih]

theorem head?_append_of_blanks (hb : f.all isWs) (hs : s.head? ≠ some '\uFEFF') :
    (f ++ s).head? ≠ some '\uFEFF' := by
  cases f with
  | nil => exact hs
  | cons c f =>
    intro hc
    obtain rfl : c = '\uFEFF' := Option.some.inj hc
    exact absurd (List.all_eq_true.1 hb _ List.mem_cons_self) (by decide)

theorem head?_append_of_filler (hf : Filler f) (hs : s.head? ≠ some '\uFEFF') :
    (f ++ s).head? ≠ some '\uFEFF' := by
  cases hf with
  | blanks hb => exact head?_append_of_blanks hb hs
  | comment hb hq =>
    rw [List.append_assoc]
    exact head?_append_of_blanks hb (by simp)

-- A byte order mark is no part of such a document.
theorem head?_written (h : Written xs s) (hxs : ∀ x ∈ xs, ExpressionText x) :
    s.head? ≠ some '\uFEFF' := by
  have expression {x y : List Char} (hx : x ∈ xs) (hy : SameLines x y) (t : List Char) :
      (y ++ t).head? ≠ some '\uFEFF' := by
    obtain ⟨c, r, rfl, -, -, hmark⟩ := (hxs x hx).exists_head hy
    simpa using hmark
  cases h with
  | last hf =>
    rw [← List.append_nil s]
    exact head?_append_of_filler hf (by simp)
  | blank hf he _ =>
    refine head?_append_of_filler hf ?_
    rcases he with rfl | rfl <;> simp
  | lastLine hb hy hf => exact head?_append_of_blanks hb (expression List.mem_cons_self hy _)
  | line hb hy hf he _ => exact head?_append_of_blanks hb (expression List.mem_cons_self hy _)

-- One expression that is refused is enough for the document to be refused.
theorem read?_of_written {text : String} (h : Written xs text.toList)
    (hxs : ∀ x ∈ xs, ExpressionText x) :
    Document.read? text = if AllRead xs then some ⟨entriesOf xs, []⟩ else none := by
  rw [Document.read?, skipMark_of_ne (head?_written h hxs), readLines_written h hxs]
  split
  · rw [Option.map_some, ofLines_entries]
  · rfl

end Documents

end Roster.Toml
