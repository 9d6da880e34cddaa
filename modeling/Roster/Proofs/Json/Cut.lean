import Roster.Proofs.Json.Scan

namespace Roster.Json

open Number

variable {p q : List Char}

section Words

theorem scanWord_cut {w : List Char} (h : w = p ++ q) (hq : q ≠ []) :
    scanWord w p = .error .truncated := by
  induction p generalizing w with
  | nil =>
    obtain ⟨c, r, rfl⟩ := List.exists_cons_of_ne_nil hq
    rw [h]
    rfl
  | cons c p ih =>
    rw [h, List.cons_append, scanWord, if_pos rfl]
    exact ih rfl

-- A word of the format.
def Token.IsWord (t : Token) : Prop := t = .null ∨ ∃ b, t = .boolean b

theorem scan_word_cut {t : Token} {x : List Char} (ht : t.IsWord) (h : Spelling t x)
    (hx : x = p ++ q) (hp : p ≠ []) (hq : q ≠ []) : scan p = ([], .word .truncated) := by
  obtain ⟨c, p, rfl⟩ := List.exists_cons_of_ne_nil hp
  have word {w : List Char} {u : Token} (hw : w = p ++ q) :
      wordToken w u p = .error (.word .truncated) := by
    rw [wordToken, scanWord_cut hw hq]
  rcases ht with rfl | ⟨b, rfl⟩
  · cases h
    obtain ⟨rfl, htail⟩ := List.cons.inj hx
    exact scan_of_stop rfl (word htail)
  · cases h with
    | true =>
      obtain ⟨rfl, htail⟩ := List.cons.inj hx
      exact scan_of_stop rfl (word htail)
    | false =>
      obtain ⟨rfl, htail⟩ := List.cons.inj hx
      exact scan_of_stop rfl (word htail)

end Words

section Strings

theorem byteCount_of_hexCode {n : Nat} (h : HexCode n (p ++ q)) : byteCount p = p.length := by
  have hsize : ∀ c ∈ p, c.utf8Size = 1 := by
    have hall : ∀ m < 16, m.digitChar.utf8Size = 1 ∧ m.digitChar.toUpper.utf8Size = 1 := by decide
    have digit {m : Nat} {c : Char} (hc : HexDigit m c) : c.utf8Size = 1 := by
      obtain ⟨hm, rfl | rfl⟩ := hc
      · exact (hall m hm).1
      · exact (hall m hm).2
    intro c hc
    have hmem := List.mem_append_left q hc
    generalize p ++ q = x at h hmem
    obtain ⟨ha, hb, hc, hd⟩ := h
    simp only [List.mem_cons, List.not_mem_nil, or_false] at hmem
    rcases hmem with rfl | rfl | rfl | rfl
    · exact digit ha
    · exact digit hb
    · exact digit hc
    · exact digit hd
  clear h
  induction p with
  | nil => rfl
  | cons c p ih =>
    have hp := ih fun d hd => hsize d (List.mem_cons_of_mem c hd)
    have hc := hsize c List.mem_cons_self
    rw [byteCount] at hp ⊢
    rw [List.foldr_cons, hp, hc, List.length_cons, Nat.add_comm]

theorem scanCode_cut {n : Nat} (h : HexCode n (p ++ q)) (hq : q ≠ []) :
    scanCode p = .error .truncated := by
  have hlength : (p ++ q).length = 4 := by
    generalize p ++ q = x at h
    cases h
    rfl
  have hshort : p.length < 4 := by
    have := List.length_pos_iff.2 hq
    rw [List.length_append] at hlength
    omega
  have hcount : byteCount (p.take 4) < 4 := by
    rw [List.take_of_length_le (Nat.le_of_lt hshort), byteCount_of_hexCode h]
    exact hshort
  unfold scanCode
  rw [if_pos hcount]

theorem scanPiece_cut {piece : Piece} (h : PartText piece (p ++ q)) (hq : q ≠ []) :
    scanPiece p = .error .truncated := by
  have single {c : Char} {p : List Char} (h : [c] = p ++ q) : p = [] := by
    rcases List.append_eq_singleton_iff.1 h.symm with ⟨hp, -⟩ | ⟨-, hq'⟩
    · exact hp
    · exact absurd hq' hq
  have code {n : Nat} {s p : List Char} (hs : HexCode n s) (h : '\\' :: 'u' :: s = p ++ q) :
      scanPiece p = .error .truncated := by
    cases p with
    | nil => rfl
    | cons c p =>
      obtain ⟨rfl, htail⟩ := List.cons.inj h
      cases p with
      | nil => rfl
      | cons d p =>
        obtain ⟨rfl, rfl⟩ := List.cons.inj htail
        rw [scanPiece, if_neg (by decide), if_pos rfl, scanEscape, if_pos rfl, scanCode_cut hs hq]
        rfl
  generalize hx : p ++ q = x at h
  cases h with
  | raw =>
    obtain rfl := single hx.symm
    rfl
  | named =>
    cases p with
    | nil => rfl
    | cons d p =>
      obtain ⟨rfl, htail⟩ := List.cons.inj hx
      obtain rfl := single htail.symm
      rfl
  | code hs => exact code hs hx.symm
  | half hs => exact code hs hx.symm

-- A string that is cut before its closing quote.
theorem scanString_cut {ps : List Piece} {t : List Char} (h : Inside ps t) (ht : t = p ++ q) :
    ∃ ps', ps' <+: ps ∧ scanString p = (ps', .error .truncated) := by
  induction h generalizing p with
  | nil =>
    obtain ⟨rfl, -⟩ := List.append_eq_nil_iff.1 ht.symm
    refine ⟨[], List.nil_prefix, ?_⟩
    rw [scanString]
    rfl
  | @cons piece ps x t hp _ ih =>
    have whole (p' : List Char) (h : t = p' ++ q) :
        ∃ ps', ps' <+: piece :: ps ∧ scanString (x ++ p') = (ps', .error .truncated) := by
      obtain ⟨ps', hps', hscan⟩ := ih h
      refine ⟨piece :: ps', List.cons_prefix_cons.2 ⟨rfl, hps'⟩, ?_⟩
      have hpiece := scanPiece_append hp p'
      rw [scanString]
      split <;> rename_i h <;> cases h.symm.trans hpiece
      rw [hscan]
    rcases List.append_eq_append_iff.1 ht with ⟨p', rfl, h⟩ | ⟨x', rfl, h⟩
    · exact whole p' h
    · by_cases hx : x' = []
      · rw [hx, List.nil_append] at h
        rw [hx, List.append_nil] at whole
        simpa using whole [] h.symm
      · refine ⟨[], List.nil_prefix, ?_⟩
        have hpiece := scanPiece_cut hp hx
        rw [scanString]
        split <;> rename_i h <;> cases h.symm.trans hpiece
        rfl

theorem exists_of_append_singleton {c : Char} {x : List Char} (h : x ++ [c] = p ++ q)
    (hq : q ≠ []) : ∃ q', x = p ++ q' ∧ q = q' ++ [c] := by
  rcases List.append_eq_append_iff.1 h with ⟨p', rfl, hp'⟩ | ⟨q', rfl, rfl⟩
  · rcases List.append_eq_singleton_iff.1 hp'.symm with ⟨rfl, rfl⟩ | ⟨-, hq'⟩
    · exact ⟨[], by simp⟩
    · exact absurd hq' hq
  · exact ⟨q', rfl, rfl⟩

-- Nothing that a string has said before the cut is wrong.
theorem scan_string_cut {ps : List Piece} {x : List Char} (h : Spelling (.string ps) x)
    (hx : x = p ++ q) (hp : p ≠ []) (hq : q ≠ []) :
    ∃ ps', ps' <+: ps ∧ scan p = ([], .string ps' .truncated) := by
  obtain ⟨c, p, rfl⟩ := List.exists_cons_of_ne_nil hp
  cases h with
  | string h =>
    obtain ⟨rfl, htail⟩ := List.cons.inj hx
    obtain ⟨q', ht, -⟩ := exists_of_append_singleton htail hq
    obtain ⟨ps', hps', hscan⟩ := scanString_cut h ht
    refine ⟨ps', hps', scan_of_stop rfl ?_⟩
    have htoken : readToken '"' p = stringToken p := rfl
    rw [htoken, stringToken, hscan]

-- What has been said so far is not wrong where the whole is right.
theorem isLone_of_prefix {ps ps' : List Piece} (h : ps' <+: ps) (hps : (Piece.text? ps).isSome) :
    Piece.isLone ps' = false := by
  obtain ⟨rest, rfl⟩ := h
  fun_induction Piece.isLone ps' with
  | case1 => rfl
  | case2 c r ih =>
    rw [List.cons_append, Piece.text?, Option.isSome_map] at hps
    exact ih hps
  | case3 high low r hpair ih =>
    rw [List.cons_append, List.cons_append, Piece.text?, if_pos hpair, Option.isSome_map] at hps
    exact ih hps
  | case4 high low r hpair =>
    rw [List.cons_append, List.cons_append, Piece.text?, if_neg hpair] at hps
    cases hps
  | case5 high =>
    cases rest with
    | nil => cases hps
    | cons next rest =>
      cases next with
      | char c => cases hps
      | half low =>
        rw [List.cons_append, List.nil_append, Piece.text?] at hps
        split_ifs at hps with hpair
        · rw [Bool.and_eq_true] at hpair
          rw [hpair.1]
          rfl
        · cases hps
  | case6 => cases hps

end Strings

section Numbers

theorem Digits.cut {ds : List Char} (h : Digits ds) (hds : ds = p ++ q) (hp : p ≠ []) : Digits p := by
  refine ⟨hp, fun c hc => h.2 c ?_⟩
  rw [hds]
  exact List.mem_append_left q hc

theorem WholeText.cut {w : List Char} (h : WholeText w) (hw : w = p ++ q) (hp : p ≠ []) :
    WholeText p := by
  obtain ⟨c, p, rfl⟩ := List.exists_cons_of_ne_nil hp
  cases h with
  | zero =>
    obtain ⟨rfl, htail⟩ := List.cons.inj hw
    obtain ⟨rfl, -⟩ := List.append_eq_nil_iff.1 htail.symm
    exact .zero
  | row h0 h =>
    have hdigits := h.cut hw hp
    obtain ⟨rfl, -⟩ := List.cons.inj hw
    exact .row h0 hdigits

theorem FractionText.cut {f : Option (List Char)} {x : List Char} (h : FractionText f x)
    (hx : x = p ++ q) : (∃ f', FractionText f' p) ∨ p = ['.'] := by
  cases p with
  | nil => exact .inl ⟨none, .absent⟩
  | cons c p =>
    cases h with
    | absent => cases hx
    | present h =>
      obtain ⟨rfl, htail⟩ := List.cons.inj hx
      by_cases hp : p = []
      · exact .inr (by rw [hp])
      · exact .inl ⟨some p, .present (h.cut htail hp)⟩

theorem ExponentText.cut {e : Option (Bool × List Char)} {x : List Char} (h : ExponentText e x)
    (hx : x = p ++ q) : (∃ e', ExponentText e' p) ∨ scanExponent p = .error .truncated := by
  have letter {c : Char} (hc : c = 'e' ∨ c = 'E') : scanExponent [c] = .error .truncated := by
    rcases hc with rfl | rfl <;> rfl
  have sign {c d : Char} (hc : c = 'e' ∨ c = 'E') (hd : d = '+' ∨ d = '-') :
      scanExponent [c, d] = .error .truncated := by
    rcases hc with rfl | rfl <;> rcases hd with rfl | rfl <;> rfl
  cases p with
  | nil => exact .inl ⟨none, .absent⟩
  | cons c p =>
    cases h with
    | absent => cases hx
    | plain he h =>
      obtain ⟨rfl, htail⟩ := List.cons.inj hx
      by_cases hp : p = []
      · exact .inr (hp ▸ letter he)
      · exact .inl ⟨_, .plain he (h.cut htail hp)⟩
    | plus he h =>
      obtain ⟨rfl, htail⟩ := List.cons.inj hx
      cases p with
      | nil => exact .inr (letter he)
      | cons d p =>
        obtain ⟨rfl, hdigits⟩ := List.cons.inj htail
        by_cases hp : p = []
        · exact .inr (hp ▸ sign he (.inl rfl))
        · exact .inl ⟨_, .plus he (h.cut hdigits hp)⟩
    | minus he h =>
      obtain ⟨rfl, htail⟩ := List.cons.inj hx
      cases p with
      | nil => exact .inr (letter he)
      | cons d p =>
        obtain ⟨rfl, hdigits⟩ := List.cons.inj htail
        by_cases hp : p = []
        · exact .inr (hp ▸ sign he (.inr rfl))
        · exact .inl ⟨_, .minus he (h.cut hdigits hp)⟩

-- The number behind its sign. Where it is cut, it is a shorter number or lacks a digit.
theorem scanNumeral_cut {w x y : List Char} {f : Option (List Char)} {e : Option (Bool × List Char)}
    (hw : WholeText w) (hx : FractionText f x) (hy : ExponentText e y)
    (h : w ++ (x ++ y) = p ++ q) (hp : p ≠ []) (negative : Bool) :
    (∃ w' x' y' f' e', WholeText w' ∧ FractionText f' x' ∧ ExponentText e' y' ∧
      p = w' ++ (x' ++ y')) ∨ scanNumeral negative p = .error .truncated := by
  rcases List.append_eq_append_iff.1 h with ⟨p₁, rfl, h₁⟩ | ⟨w', rfl, -⟩
  · rcases List.append_eq_append_iff.1 h₁ with ⟨p₂, rfl, h₂⟩ | ⟨x', rfl, -⟩
    · rcases hy.cut h₂ with ⟨e', he'⟩ | herror
      · exact .inl ⟨w, x, p₂, f, e', hw, hx, he', rfl⟩
      · right
        have hhead : ∀ c ∈ p₂.head?, isDigit c = false ∧ c ≠ '.' := by
          intro c hc
          refine head?_exponent (r := []) hy nofun c ?_
          rw [List.append_nil, h₂, List.head?_append, Option.mem_def.1 hc]
          rfl
        have hdigit : StartsNoDigit p₂ := fun c hc => (hhead c hc).1
        have hwhole := scanWhole_append hw (head?_fraction hx hdigit)
        have hfraction := scanFraction_append hx hdigit fun c hc => (hhead c hc).2
        simp only [scanNumeral, hwhole, hfraction, herror, bind, Except.bind]
    · rcases hx.cut rfl with ⟨f', hf'⟩ | rfl
      · exact .inl ⟨w, p₁, [], f', none, hw, hf', .absent, by rw [List.append_nil]⟩
      · right
        have hwhole := scanWhole_append (r := ['.']) hw (by rintro c ⟨⟩; rfl)
        have hfraction : scanFraction ['.'] = .error .truncated := rfl
        simp only [scanNumeral, hwhole, hfraction, bind, Except.bind]
  · have hw' := hw.cut rfl hp
    exact .inl ⟨p, [], [], none, none, hw', .absent, .absent, by simp⟩

end Numbers

section Units

theorem numberToken_of_error {negative : Bool} (h : scanNumeral negative p = .error .truncated) :
    numberToken negative p = .error (.number .truncated) := by
  rw [numberToken, h]

theorem numberText_or_stop {n : Numeral} {x : List Char} (h : NumberText n x) (hx : x = p ++ q)
    (hp : p ≠ []) : (∃ n', NumberText n' p) ∨ scan p = ([], .number .truncated) := by
  obtain ⟨c, p, rfl⟩ := List.exists_cons_of_ne_nil hp
  cases h with
  | plain hw hf he =>
    rcases scanNumeral_cut hw hf he hx hp false with ⟨w', x', y', f', e', hw', hf', he', h⟩ | herror
    · rw [h]
      exact .inl ⟨_, .plain hw' hf' he'⟩
    · obtain ⟨d, ds, rfl, hd⟩ := hw.exists_cons
      obtain ⟨rfl, -⟩ := List.cons.inj hx
      refine .inr (scan_of_stop (isBlank_of_isDigit hd) ?_)
      rw [readToken_digit hd, numberToken_of_error herror]
  | negative hw hf he =>
    obtain ⟨rfl, htail⟩ := List.cons.inj hx
    have stop (herror : scanNumeral true p = .error .truncated) :
        scan ('-' :: p) = ([], .number .truncated) :=
      scan_of_stop rfl (numberToken_of_error herror)
    by_cases hp' : p = []
    · exact .inr (stop (hp' ▸ rfl))
    · rcases scanNumeral_cut hw hf he htail hp' true with
        ⟨w', x', y', f', e', hw', hf', he', rfl⟩ | herror
      · exact .inl ⟨_, .negative hw' hf' he'⟩
      · exact .inr (stop herror)

end Units

end Roster.Json
