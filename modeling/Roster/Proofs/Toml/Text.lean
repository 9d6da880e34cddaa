import Roster.Proofs.Toml.Gives
import Roster.Toml.Text

namespace Roster.Toml

open Number

variable {c d : Char} {r r' s t x : List Char}

theorem isText_iff : isText c = true ↔ c = '\t' ∨ (0x20 ≤ c.toNat ∧ c.toNat ≠ 0x7F) := by
  simp [isText]

section Escapes

theorem gives_readCode {n : Nat} (hlen : x.length = n) (hx : x.all fun c => (hexValue? c).isSome) :
    Gives Anything (readCode n) x := by
  refine ⟨scalar? (ofBase 16 x), fun t _ => ?_⟩
  have htake : (x ++ t).take n = x := List.take_left' hlen
  have hdrop : (x ++ t).drop n = t := List.drop_left' hlen
  rw [readCode, htake, hdrop, if_pos ⟨hlen, hx⟩]

theorem EscapeText.gives (h : EscapeText x) : Gives Anything readEscape x := by
  cases h with
  | @plain c hc =>
    have hu : c ≠ 'u' := by
      rintro rfl
      cases hc
    have hU : c ≠ 'U' := by
      rintro rfl
      cases hc
    refine ⟨plainEscape? c, fun t _ => ?_⟩
    rw [List.cons_append, List.nil_append, readEscape, if_neg hu, if_neg hU]
  | short hlen h => exact (gives_readCode hlen h).congr fun t _ => rfl
  | long hlen h => exact (gives_readCode hlen h).congr fun t _ => rfl

end Escapes

section Strings

theorem basicBody_quote (r : List Char) : basicBody ('"' :: r) = some ([], r) := by
  rw [basicBody]
  exact if_pos rfl

theorem basicBody_escape (h : readEscape r = some (d, r')) :
    basicBody ('\\' :: r) = (basicBody r').map fun (cs, t) => (d :: cs, t) := by
  rw [basicBody.eq_def]
  simp only [Char.reduceEq, if_false, if_true]
  split
  · rename_i heq
    rw [h] at heq
    cases heq
  · rename_i heq
    rw [h] at heq
    cases heq
    rfl

theorem basicBody_badEscape (h : readEscape r = none) : basicBody ('\\' :: r) = none := by
  rw [basicBody.eq_def]
  simp only [Char.reduceEq, if_false, if_true]
  split
  · rfl
  · rename_i heq
    rw [h] at heq
    cases heq

theorem basicBody_text (hquote : c ≠ '"') (hescape : c ≠ '\\') (hc : isText c = true)
    (r : List Char) : basicBody (c :: r) = (basicBody r).map fun (cs, t) => (c :: cs, t) := by
  rw [basicBody.eq_def]
  simp [hquote, hescape, hc]

theorem BodyText.gives (h : BodyText x) : Gives Anything basicBody (x ++ ['"']) := by
  induction h with
  | nil => exact ⟨some [], fun t _ => basicBody_quote t⟩
  | @text c s hc hquote hescape _ ih =>
    exact (ih.map (c :: ·)).congr fun t _ => basicBody_text hquote hescape hc _
  | @escape e s he _ ih =>
    obtain ⟨o, ho⟩ := he.gives
    have hread (t : List Char) := ho (s ++ ['"'] ++ t) trivial
    cases o with
    | none =>
      refine gives_none fun t _ => ?_
      rw [List.cons_append, List.append_assoc, List.cons_append, List.append_assoc]
      exact basicBody_badEscape (hread t)
    | some d =>
      refine (ih.map (d :: ·)).congr fun t _ => ?_
      rw [List.cons_append, List.append_assoc, List.cons_append, List.append_assoc]
      exact basicBody_escape (hread t)

theorem literalBody_append (hx : x.all isLiteral) (t : List Char) :
    literalBody (x ++ '\'' :: t) = some (x, t) := by
  have hall := List.all_eq_true.1 hx
  rw [literalBody, List.dropWhile_append_of_pos hall, List.takeWhile_append_of_pos hall]
  simp [isLiteral]

theorem QuotedText.gives (h : QuotedText x) : Gives Anything readQuoted x := by
  cases h with
  | basic h => exact (h.gives.map String.ofList).congr fun t _ => rfl
  | @literal s h =>
    refine ⟨some (String.ofList s), fun t _ => ?_⟩
    have hsplit : '\'' :: (s ++ ['\'']) ++ t = '\'' :: (s ++ '\'' :: t) := by simp
    rw [hsplit, readQuoted, literalBody_append h]
    rfl

theorem readString_of_not (hd : ¬['"', '"', '"'] <+: s) (hd' : ¬['\'', '\'', '\''] <+: s) :
    readString s = readQuoted s := by
  unfold readString
  split
  · exact absurd ⟨_, rfl⟩ hd
  · exact absurd ⟨_, rfl⟩ hd'
  · rfl

theorem BodyText.head (h : BodyText x) : ∀ c ∈ x.head?, c ≠ '"' := by
  cases h with
  | nil => nofun
  | text _ hquote =>
    rintro c ⟨⟩
    exact hquote
  | escape =>
    rintro c ⟨⟩
    decide

-- Two quotes with nothing between them are not the start of a string on several lines.
theorem not_isPrefix_quotes {quote : Char} (hx : ∀ c ∈ x.head?, c ≠ quote)
    (ht : ∀ c ∈ t.head?, c ≠ quote) : ¬[quote, quote, quote] <+: quote :: (x ++ quote :: t) := by
  intro h
  have hrest := (List.cons_prefix_cons.1 h).2
  cases x with
  | nil =>
    obtain ⟨s, hs⟩ := (List.cons_prefix_cons.1 hrest).2
    rw [← hs] at ht
    exact ht quote rfl rfl
  | cons c x => exact hx c rfl (List.cons_prefix_cons.1 hrest).1.symm

theorem QuotedText.readString_append (h : QuotedText x) (ht : EndsValue t) :
    readString (x ++ t) = readQuoted (x ++ t) := by
  have hends (c : Char) (hc : c ∈ t.head?) : c ≠ '"' ∧ c ≠ '\'' := by
    rcases isEnd_iff.1 (ht.head c hc) with rfl | rfl | rfl | rfl | rfl | rfl | rfl | rfl <;> decide
  cases h with
  | @basic s h =>
    have hsplit : '"' :: (s ++ ['"']) ++ t = '"' :: (s ++ '"' :: t) := by simp
    rw [hsplit]
    exact readString_of_not (not_isPrefix_quotes h.head fun c hc => (hends c hc).1) (by simp)
  | @literal s h =>
    have hsplit : '\'' :: (s ++ ['\'']) ++ t = '\'' :: (s ++ '\'' :: t) := by simp
    have hhead : ∀ c ∈ s.head?, c ≠ '\'' := by
      intro c hc
      have hliteral := List.all_eq_true.1 h c (List.mem_of_head? hc)
      rintro rfl
      cases hliteral
    rw [hsplit]
    exact readString_of_not (by simp) (not_isPrefix_quotes hhead fun c hc => (hends c hc).2)

theorem QuotedText.gives_readString (h : QuotedText x) : Gives EndsValue readString x :=
  (h.gives.mono fun _ _ => trivial).congr fun _ ht => h.readString_append ht

end Strings

end Roster.Toml
