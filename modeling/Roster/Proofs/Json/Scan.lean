import Mathlib.Tactic.SplitIfs
import Roster.Json.Scan
import Roster.Proofs.Except
import Roster.Proofs.Json.Grammar
import Roster.Proofs.Number.Decimal
import Roster.Proofs.Number.Hexadecimal

namespace Roster.Json

open Number

-- The text of a unit.
inductive Spelling : Token → List Char → Prop
  | mark {m : Mark} {c : Char} (h : markOf? c = some m) : Spelling (.mark m) [c]
  | null : Spelling .null ['n', 'u', 'l', 'l']
  | true : Spelling (.boolean true) ['t', 'r', 'u', 'e']
  | false : Spelling (.boolean false) ['f', 'a', 'l', 's', 'e']
  | number {n : Numeral} {x : List Char} (h : NumberText n x) : Spelling (.number n) x
  | string {ps : List Piece} {t : List Char} (h : Inside ps t) :
      Spelling (.string ps) ('"' :: (t ++ ['"']))

section Characters

theorem isBlank_iff {c : Char} : isBlank c = true ↔ c ∈ [' ', '\t', '\n', '\r'] := by
  simp [isBlank, or_assoc]

theorem isDigit_of_isDigit {c : Char} (h : c.isDigit = true) : isDigit c = true :=
  (isDigit_eq c).trans h

theorem hexDigit_of_hexValue? {c : Char} {n : Nat} (h : hexValue? c = some n) : HexDigit n c := by
  have hsmall : c.toNat < 128 := by
    unfold hexValue? at h
    split_ifs at h with h1 h2 h3
    · exact Nat.lt_of_le_of_lt (isDigit_iff.1 h1).2 (by decide)
    · simp only [Bool.and_eq_true, decide_eq_true_eq, Char.le_def, UInt32.le_iff_toNat_le] at h2
      exact Nat.lt_of_le_of_lt h2.2 (by decide)
    · simp only [Bool.and_eq_true, decide_eq_true_eq, Char.le_def, UInt32.le_iff_toNat_le] at h3
      exact Nat.lt_of_le_of_lt h3.2 (by decide)
  have hall : ∀ k < 128, (hexValue? (Char.ofNat k)).all fun n =>
      decide (n < 16 ∧ (Char.ofNat k = n.digitChar ∨ Char.ofNat k = n.digitChar.toUpper)) := by
    decide
  have hc := hall c.toNat hsmall
  rw [Char.ofNat_toNat, h, Option.all_some, decide_eq_true_eq] at hc
  exact hc

theorem hexValue?_of_hexDigit {c : Char} {n : Nat} (h : HexDigit n c) : hexValue? c = some n := by
  obtain ⟨hn, rfl | rfl⟩ := h
  · exact (hexValue?_digitChar hn).1
  · exact (hexValue?_digitChar hn).2

theorem plainEscape?_eq_some_iff {c d : Char} :
    plainEscape? c = some d ↔ (c, d) ∈ namedEscapes := by
  constructor
  · intro h
    unfold plainEscape? at h
    split at h <;> cases h <;> decide
  · intro h
    simp only [namedEscapes, List.mem_cons, Prod.mk.injEq, List.not_mem_nil, or_false] at h
    rcases h with ⟨rfl, rfl⟩ | ⟨rfl, rfl⟩ | ⟨rfl, rfl⟩ | ⟨rfl, rfl⟩ | ⟨rfl, rfl⟩ | ⟨rfl, rfl⟩ |
      ⟨rfl, rfl⟩ | ⟨rfl, rfl⟩ <;> rfl

theorem isSurrogate_iff {n : Nat} :
    (Piece.isHigh n || Piece.isLow n) = true ↔ 0xD800 ≤ n ∧ n < 0xE000 := by
  simp only [Piece.isHigh, Piece.isLow, Bool.or_eq_true, Bool.and_eq_true, decide_eq_true_eq]
  omega

end Characters

section Sound

theorem eq_append_of_scanWord {w s r : List Char} (h : scanWord w s = .ok r) : s = w ++ r := by
  fun_induction scanWord w s with
  | case1 s => cases h; rfl
  | case2 => cases h
  | case3 ws c s ih => rw [ih h, List.cons_append]
  | case4 => cases h

theorem eq_append_of_scanDigits {s ds r : List Char} (h : scanDigits s = .ok (ds, r)) :
    s = ds ++ r ∧ Digits ds := by
  have hs := List.takeWhile_append_dropWhile (p := isDigit) (l := s)
  have hall : ∀ c ∈ s.takeWhile isDigit, c.isDigit = true := by
    intro c hc
    rw [← isDigit_eq]
    exact List.all_eq_true.1 List.all_takeWhile c hc
  unfold scanDigits at h
  split at h
  · cases h
  · cases h
  · rename_i hnil hcons
    cases h
    refine ⟨hs.symm, ?_, hall⟩
    intro ht
    cases hd : s.dropWhile isDigit with
    | nil => exact hnil ht hd
    | cons c r => exact hcons c r ht hd

theorem eq_append_of_scanWhole {s w r : List Char} (h : scanWhole s = .ok (w, r)) :
    s = w ++ r ∧ WholeText w := by
  unfold scanWhole at h
  split at h
  · split at h
    · cases h
    · cases h
      exact ⟨rfl, .zero⟩
  · rename_i hzero
    obtain ⟨rfl, hw⟩ := eq_append_of_scanDigits h
    cases w with
    | nil => exact absurd rfl hw.1
    | cons d ds => exact ⟨rfl, .row (fun hd => hzero (ds ++ r) (by rw [hd]; rfl)) hw⟩

theorem eq_append_of_scanFraction {s r : List Char} {f : Option (List Char)}
    (h : scanFraction s = .ok (f, r)) : ∃ x, s = x ++ r ∧ FractionText f x := by
  unfold scanFraction at h
  split at h
  · obtain ⟨⟨ds, t⟩, hd, hm⟩ := exists_of_map_eq_ok h
    cases hm
    obtain ⟨rfl, hds⟩ := eq_append_of_scanDigits hd
    exact ⟨_, rfl, .present hds⟩
  · cases h
    exact ⟨[], rfl, .absent⟩

theorem eq_append_of_scanExponent {s r : List Char} {e : Option (Bool × List Char)}
    (h : scanExponent s = .ok (e, r)) : ∃ x, s = x ++ r ∧ ExponentText e x := by
  unfold scanExponent at h
  split at h
  · split_ifs at h with he
    · have he' := by simpa using he
      split at h
      · obtain ⟨⟨ds, t⟩, hd, hm⟩ := exists_of_map_eq_ok h
        cases hm
        obtain ⟨rfl, hds⟩ := eq_append_of_scanDigits hd
        exact ⟨_, rfl, .minus he' hds⟩
      · obtain ⟨⟨ds, t⟩, hd, hm⟩ := exists_of_map_eq_ok h
        cases hm
        obtain ⟨rfl, hds⟩ := eq_append_of_scanDigits hd
        exact ⟨_, rfl, .plus he' hds⟩
      · obtain ⟨⟨ds, t⟩, hd, hm⟩ := exists_of_map_eq_ok h
        cases hm
        obtain ⟨rfl, hds⟩ := eq_append_of_scanDigits hd
        exact ⟨_, rfl, .plain he' hds⟩
    · cases h
      exact ⟨[], rfl, .absent⟩
  · cases h
    exact ⟨[], rfl, .absent⟩

theorem eq_append_of_scanNumeral {negative : Bool} {s r : List Char} {n : Numeral}
    (h : scanNumeral negative s = .ok (n, r)) :
    ∃ x, s = x ++ r ∧ NumberText n (if negative then '-' :: x else x) := by
  obtain ⟨⟨w, s₁⟩, hw, h⟩ := Except.bind_eq_ok_iff.1 h
  obtain ⟨⟨f, s₂⟩, hf, h⟩ := Except.bind_eq_ok_iff.1 h
  obtain ⟨⟨e, s₃⟩, he, h⟩ := Except.bind_eq_ok_iff.1 h
  cases h
  obtain ⟨rfl, hwhole⟩ := eq_append_of_scanWhole hw
  obtain ⟨x, rfl, hfraction⟩ := eq_append_of_scanFraction hf
  obtain ⟨y, rfl, hexponent⟩ := eq_append_of_scanExponent he
  refine ⟨w ++ (x ++ y), by simp only [List.append_assoc], ?_⟩
  cases negative with
  | false => exact .plain hwhole hfraction hexponent
  | true => exact .negative hwhole hfraction hexponent

theorem eq_append_of_scanCode {s r : List Char} {n : Nat} (h : scanCode s = .ok (n, r)) :
    ∃ x, s = x ++ r ∧ HexCode n x := by
  unfold scanCode at h
  split_ifs at h with hshort
  split at h
  · split at h
    · rename_i ha hb hc hd
      cases h
      exact ⟨[_, _, _, _], rfl, .digits (hexDigit_of_hexValue? ha) (hexDigit_of_hexValue? hb)
        (hexDigit_of_hexValue? hc) (hexDigit_of_hexValue? hd)⟩
    · cases h
  · cases h

theorem partText_ofCode {n : Nat} {x : List Char} (h : HexCode n x) :
    PartText (Piece.ofCode n) ('\\' :: 'u' :: x) := by
  unfold Piece.ofCode
  split_ifs with hs
  · obtain ⟨hlow, hhigh⟩ := isSurrogate_iff.1 hs
    exact .half h hlow hhigh
  · rw [isSurrogate_iff] at hs
    exact .code h (by omega)

theorem eq_append_of_scanEscape {s r : List Char} {p : Piece} (h : scanEscape s = .ok (p, r)) :
    ∃ x, s = x ++ r ∧ PartText p ('\\' :: x) := by
  unfold scanEscape at h
  split at h
  · cases h
  · split_ifs at h with hu
    · obtain ⟨⟨n, t⟩, hc, hm⟩ := exists_of_map_eq_ok h
      cases hm
      obtain ⟨x, rfl, hx⟩ := eq_append_of_scanCode hc
      exact ⟨'u' :: x, by rw [hu, List.cons_append], partText_ofCode hx⟩
    · split at h
      · rename_i hp
        cases h
        exact ⟨[_], rfl, .named (plainEscape?_eq_some_iff.1 hp)⟩
      · cases h

theorem eq_append_of_scanPiece {s r : List Char} {p : Piece} (h : scanPiece s = .ok (some p, r)) :
    ∃ x, s = x ++ r ∧ PartText p x := by
  unfold scanPiece at h
  split at h
  · cases h
  · split_ifs at h with hq hb hc
    · cases h
    · obtain ⟨⟨q, t⟩, he, hm⟩ := exists_of_map_eq_ok h
      cases hm
      obtain ⟨x, rfl, hx⟩ := eq_append_of_scanEscape he
      exact ⟨'\\' :: x, by rw [hb, List.cons_append], hx⟩
    · cases h
      exact ⟨[_], rfl, .raw hq hb (Nat.le_of_not_lt hc)⟩

theorem eq_cons_of_scanPiece {s r : List Char} (h : scanPiece s = .ok (none, r)) :
    s = '"' :: r := by
  unfold scanPiece at h
  split at h
  · cases h
  · split_ifs at h with hq hb hc
    · cases h
      rw [hq]
    · obtain ⟨⟨q, t⟩, he, hm⟩ := exists_of_map_eq_ok h
      cases hm
    · cases h

theorem eq_append_of_scanString {s r : List Char} {ps : List Piece}
    (h : scanString s = (ps, .ok r)) : ∃ t, s = t ++ '"' :: r ∧ Inside ps t := by
  fun_induction scanString s generalizing ps with
  | case1 => cases h
  | case2 s r hp =>
    cases h
    exact ⟨[], eq_cons_of_scanPiece hp, .nil⟩
  | case3 s p s' hp ps' e hs ih =>
    cases h
    obtain ⟨x, rfl, hx⟩ := eq_append_of_scanPiece hp
    obtain ⟨t, rfl, ht⟩ := ih hs
    exact ⟨x ++ t, by rw [List.append_assoc], .cons hx ht⟩

theorem exists_spelling_of_readToken {c : Char} {s r : List Char} {t : Token}
    (h : readToken c s = .ok (t, r)) : ∃ x, c :: s = x ++ r ∧ Spelling t x := by
  have word {w : List Char} {u : Token} (hu : Spelling u (c :: w))
      (h : wordToken w u s = .ok (t, r)) : ∃ x, c :: s = x ++ r ∧ Spelling t x := by
    unfold wordToken at h
    split at h
    · rename_i hw
      cases h
      exact ⟨c :: w, by rw [eq_append_of_scanWord hw, List.cons_append], hu⟩
    · cases h
  unfold readToken at h
  split at h
  · rename_i hm
    cases h
    exact ⟨[c], rfl, .mark hm⟩
  · split_ifs at h with hn ht hf hq hd hdigit
    · subst hn
      exact word .null h
    · subst ht
      exact word .true h
    · subst hf
      exact word .false h
    · subst hq
      unfold stringToken at h
      split at h
      · rename_i hs
        cases h
        obtain ⟨t, rfl, hps⟩ := eq_append_of_scanString hs
        exact ⟨'"' :: (t ++ ['"']), by simp, .string hps⟩
      · cases h
    · subst hd
      unfold numberToken at h
      split at h
      · rename_i hn'
        cases h
        obtain ⟨x, rfl, hx⟩ := eq_append_of_scanNumeral hn'
        exact ⟨'-' :: x, rfl, .number hx⟩
      · cases h
    · unfold numberToken at h
      split at h
      · rename_i hn'
        cases h
        obtain ⟨x, hx, hnum⟩ := eq_append_of_scanNumeral hn'
        exact ⟨x, hx, .number hnum⟩
      · cases h

end Sound

section Complete

def StartsNoDigit (r : List Char) : Prop := ∀ c ∈ r.head?, isDigit c = false

-- Text that does not go on with the numeral in front of it.
def EndsNumeral (r : List Char) : Prop :=
  ∀ c ∈ r.head?, isDigit c = false ∧ c ≠ '.' ∧ c ≠ 'e' ∧ c ≠ 'E'

theorem EndsNumeral.startsNoDigit {r : List Char} (h : EndsNumeral r) : StartsNoDigit r :=
  fun c hc => (h c hc).1

theorem takeWhile_digits {ds r : List Char} (hd : ∀ d ∈ ds, isDigit d = true)
    (hr : StartsNoDigit r) :
    (ds ++ r).takeWhile isDigit = ds ∧ (ds ++ r).dropWhile isDigit = r := by
  have hr' : r.takeWhile isDigit = [] ∧ r.dropWhile isDigit = r := by
    cases r with
    | nil => exact ⟨rfl, rfl⟩
    | cons c r =>
      have hc := hr c rfl
      exact ⟨by rw [List.takeWhile_cons, hc]; rfl, by rw [List.dropWhile_cons, hc]; rfl⟩
  rw [List.takeWhile_append_of_pos hd, List.dropWhile_append_of_pos hd, hr'.1, hr'.2,
    List.append_nil]
  exact ⟨rfl, rfl⟩

theorem scanDigits_append {ds r : List Char} (hd : Digits ds) (hr : StartsNoDigit r) :
    scanDigits (ds ++ r) = .ok (ds, r) := by
  obtain ⟨ht, hd'⟩ := takeWhile_digits (fun d h => isDigit_of_isDigit (hd.2 d h)) hr
  rw [scanDigits, ht, hd']
  split
  · exact absurd rfl hd.1
  · exact absurd rfl hd.1
  · rfl

theorem scanWhole_append {w r : List Char} (hw : WholeText w) (hr : StartsNoDigit r) :
    scanWhole (w ++ r) = .ok (w, r) := by
  cases hw with
  | zero =>
    have hd : r.head?.any isDigit = false := by
      cases r with
      | nil => rfl
      | cons c r => exact hr c rfl
    simp only [List.cons_append, List.nil_append, scanWhole, hd, Bool.false_eq_true, if_false]
  | row h0 h =>
    rw [← scanDigits_append h hr, List.cons_append, scanWhole]
    exact fun r' hr' => h0 (List.cons.inj hr').1

theorem scanFraction_append {x r : List Char} {f : Option (List Char)} (hx : FractionText f x)
    (hr : StartsNoDigit r) (hpoint : ∀ c ∈ r.head?, c ≠ '.') :
    scanFraction (x ++ r) = .ok (f, r) := by
  cases hx with
  | absent =>
    rw [List.nil_append]
    unfold scanFraction
    split
    · exact absurd rfl (hpoint '.' rfl)
    · rfl
  | present h =>
    rw [List.cons_append, scanFraction, scanDigits_append h hr]
    rfl

theorem Digits.exists_cons {ds : List Char} (h : Digits ds) :
    ∃ d ds', ds = d :: ds' ∧ isDigit d = true := by
  cases ds with
  | nil => exact absurd rfl h.1
  | cons d ds' => exact ⟨d, ds', rfl, isDigit_of_isDigit (h.2 d (by simp))⟩

theorem scanExponent_append {x r : List Char} {e : Option (Bool × List Char)}
    (hx : ExponentText e x) (hr : EndsNumeral r) : scanExponent (x ++ r) = .ok (e, r) := by
  cases hx with
  | absent =>
    rw [List.nil_append]
    cases r with
    | nil => rfl
    | cons c r =>
      have he : ¬(c = 'e' || c = 'E') = true := by simp [(hr c rfl).2.2]
      rw [scanExponent.eq_def]
      simp only [if_neg he]
  | plain he h =>
    obtain ⟨d, ds', rfl, hd⟩ := h.exists_cons
    have hscan := scanDigits_append h hr.startsNoDigit
    have hminus : d ≠ '-' := by rintro rfl; cases hd
    have hplus : d ≠ '+' := by rintro rfl; cases hd
    rw [List.cons_append] at hscan
    rw [List.cons_append, List.cons_append, scanExponent, if_pos (by simpa using he), hscan]
    · rfl
    · exact fun _ h => hminus (List.cons.inj h).1
    · exact fun _ h => hplus (List.cons.inj h).1
  | plus he h =>
    rw [List.cons_append, List.cons_append, scanExponent, if_pos (by simpa using he)]
    simp only [scanDigits_append h hr.startsNoDigit]
    rfl
  | minus he h =>
    rw [List.cons_append, List.cons_append, scanExponent, if_pos (by simpa using he)]
    simp only [scanDigits_append h hr.startsNoDigit]
    rfl

-- Neither a fraction nor an exponent goes on with the digits in front of it.
theorem head?_exponent {y r : List Char} {e : Option (Bool × List Char)} (hy : ExponentText e y)
    (hr : EndsNumeral r) : ∀ c ∈ (y ++ r).head?, isDigit c = false ∧ c ≠ '.' := by
  have letter {c : Char} (he : c = 'e' ∨ c = 'E') : isDigit c = false ∧ c ≠ '.' := by
    rcases he with rfl | rfl <;> decide
  cases hy with
  | absent => exact fun c hc => ⟨(hr c hc).1, (hr c hc).2.1⟩
  | plain he => exact fun c hc => Option.mem_some.1 hc ▸ letter he
  | plus he => exact fun c hc => Option.mem_some.1 hc ▸ letter he
  | minus he => exact fun c hc => Option.mem_some.1 hc ▸ letter he

theorem head?_fraction {x r : List Char} {f : Option (List Char)} (hx : FractionText f x)
    (hr : StartsNoDigit r) : StartsNoDigit (x ++ r) := by
  cases hx with
  | absent => exact hr
  | present h => exact fun c hc => Option.mem_some.1 hc ▸ by decide

theorem scanNumeral_append {negative : Bool} {w x y r : List Char} {f : Option (List Char)}
    {e : Option (Bool × List Char)} (hw : WholeText w) (hx : FractionText f x)
    (hy : ExponentText e y) (hr : EndsNumeral r) :
    scanNumeral negative (w ++ (x ++ y) ++ r) = .ok (⟨negative, w, f, e⟩, r) := by
  have hexp := head?_exponent hy hr
  have hnodigit : StartsNoDigit (y ++ r) := fun c hc => (hexp c hc).1
  simp only [List.append_assoc, scanNumeral, scanWhole_append hw (head?_fraction hx hnodigit),
    scanFraction_append hx hnodigit (fun c hc => (hexp c hc).2), scanExponent_append hy hr, bind,
    Except.bind, pure, Except.pure]

theorem WholeText.exists_cons {w : List Char} (h : WholeText w) :
    ∃ d ds, w = d :: ds ∧ isDigit d = true := by
  cases h with
  | zero => exact ⟨'0', [], rfl, rfl⟩
  | row h0 h => exact h.exists_cons

theorem scanCode_append {x : List Char} {n : Nat} (hx : HexCode n x) (r : List Char) :
    scanCode (x ++ r) = .ok (n, r) := by
  obtain ⟨ha, hb, hc, hd⟩ := hx
  rename_i p q s t
  have hlong : ¬byteCount (List.take 4 (p :: q :: s :: t :: r)) < 4 := by
    have h1 := p.utf8Size_pos
    have h2 := q.utf8Size_pos
    have h3 := s.utf8Size_pos
    have h4 := t.utf8Size_pos
    simp only [List.take_succ_cons, List.take_zero, byteCount, List.foldr_cons, List.foldr_nil]
    omega
  simp only [List.cons_append, List.nil_append]
  rw [scanCode, if_neg hlong]
  simp only [hexValue?_of_hexDigit ha, hexValue?_of_hexDigit hb, hexValue?_of_hexDigit hc,
    hexValue?_of_hexDigit hd]

theorem scanPiece_code {x : List Char} {n : Nat} (hx : HexCode n x) (r : List Char) :
    scanPiece ('\\' :: 'u' :: x ++ r) = .ok (some (Piece.ofCode n), r) := by
  rw [List.cons_append, List.cons_append, scanPiece, if_neg (by decide), if_pos rfl, scanEscape,
    if_pos rfl, scanCode_append hx]
  rfl

theorem scanPiece_append {p : Piece} {x : List Char} (hx : PartText p x) (r : List Char) :
    scanPiece (x ++ r) = .ok (some p, r) := by
  cases hx with
  | raw hq hb hc =>
    rw [List.cons_append, List.nil_append, scanPiece, if_neg hq, if_neg hb,
      if_neg (Nat.not_lt.2 hc)]
  | @named c d h =>
    have hu : c ≠ 'u' := by
      rintro rfl
      cases plainEscape?_eq_some_iff.2 h
    rw [List.cons_append, List.cons_append, List.nil_append, scanPiece, if_neg (by decide),
      if_pos rfl, scanEscape, if_neg hu, plainEscape?_eq_some_iff.2 h]
    rfl
  | @code n s h hn =>
    have hp : Piece.ofCode n = .char (Char.ofNat n) := by
      rw [Piece.ofCode, if_neg (by rw [isSurrogate_iff]; omega)]
    rw [scanPiece_code h, hp]
  | @half n s h hlow hhigh =>
    have hp : Piece.ofCode n = .half n := by
      rw [Piece.ofCode, if_pos (isSurrogate_iff.2 ⟨hlow, hhigh⟩)]
    rw [scanPiece_code h, hp]

theorem scanString_append {ps : List Piece} {t : List Char} (ht : Inside ps t) (r : List Char) :
    scanString (t ++ '"' :: r) = (ps, .ok r) := by
  induction ht with
  | nil =>
    rw [List.nil_append, scanString]
    split <;> rename_i h <;> cases h
    rfl
  | @cons p ps x t hp _ ih =>
    have hscan := scanPiece_append hp (t ++ '"' :: r)
    rw [List.append_assoc, scanString]
    split <;> rename_i h <;> cases h.symm.trans hscan
    rw [ih]

theorem readToken_digit {c : Char} (hc : isDigit c = true) (s : List Char) :
    readToken c s = numberToken false (c :: s) := by
  have hm : markOf? c = none := by
    unfold markOf?
    split <;> first | rfl | cases hc
  have hne {d : Char} (hd : isDigit d = false) : c ≠ d := by
    rintro rfl
    exact Bool.false_ne_true (hd.symm.trans hc)
  rw [readToken, hm]
  simp only [if_neg (hne (d := 'n') rfl), if_neg (hne (d := 't') rfl), if_neg (hne (d := 'f') rfl),
    if_neg (hne (d := '"') rfl), if_neg (hne (d := '-') rfl), if_pos hc]

theorem numberToken_append (negative : Bool) {w x y r : List Char} {f : Option (List Char)}
    {e : Option (Bool × List Char)} (hw : WholeText w) (hx : FractionText f x)
    (hy : ExponentText e y) (hr : EndsNumeral r) :
    numberToken negative (w ++ (x ++ y) ++ r) = .ok (.number ⟨negative, w, f, e⟩, r) := by
  rw [numberToken, scanNumeral_append hw hx hy hr]

theorem scan_nil : scan [] = ([], .done) := by
  rw [scan]

theorem scan_of_readToken {c : Char} {s r : List Char} {t : Token} (hc : isBlank c = false)
    (h : readToken c s = .ok (t, r)) : scan (c :: s) = (t :: (scan r).1, (scan r).2) := by
  rw [scan]
  simp only [hc, Bool.false_eq_true, if_false, scanToken, h]

theorem scan_of_stop {c : Char} {s : List Char} {stop : Stop} (hc : isBlank c = false)
    (h : readToken c s = .error stop) : scan (c :: s) = ([], stop) := by
  rw [scan]
  simp only [hc, Bool.false_eq_true, if_false, scanToken, h]

theorem scan_blanks {b : List Char} (hb : Blanks b) (s : List Char) : scan (b ++ s) = scan s := by
  induction b with
  | nil => rfl
  | cons c b ih =>
    rw [List.cons_append, scan, if_pos (isBlank_iff.2 (hb c (by simp)))]
    exact ih fun d hd => hb d (List.mem_cons_of_mem c hd)

-- A number ends where the text does not go on with it. Every other unit shows its own end.
def Ends (t : Token) (r : List Char) : Prop := ∀ n, t = .number n → EndsNumeral r

theorem isBlank_of_isDigit {c : Char} (hc : isDigit c = true) : isBlank c = false := by
  refine Bool.eq_false_iff.2 fun hb => ?_
  have hmem := isBlank_iff.1 hb
  simp only [List.mem_cons, List.not_mem_nil, or_false] at hmem
  rcases hmem with rfl | rfl | rfl | rfl <;> cases hc

theorem isBlank_of_markOf? {c : Char} {m : Mark} (h : markOf? c = some m) : isBlank c = false := by
  unfold markOf? at h
  split at h <;> first | rfl | cases h

theorem scan_spelling {t : Token} {x r : List Char} (hx : Spelling t x) (hr : Ends t r) :
    scan (x ++ r) = (t :: (scan r).1, (scan r).2) := by
  cases hx with
  | mark h => exact scan_of_readToken (isBlank_of_markOf? h) (by rw [readToken, h]; rfl)
  | null => exact scan_of_readToken rfl rfl
  | true => exact scan_of_readToken rfl rfl
  | false => exact scan_of_readToken rfl rfl
  | number h =>
    have hend := hr _ rfl
    cases h with
    | @plain w x y f e hw hx hy =>
      have hnum := numberToken_append false hw hx hy hend
      obtain ⟨d, ds, rfl, hd⟩ := hw.exists_cons
      exact scan_of_readToken (isBlank_of_isDigit hd) ((readToken_digit hd _).trans hnum)
    | negative hw hx hy =>
      exact scan_of_readToken rfl (numberToken_append true hw hx hy hend)
  | string h =>
    refine scan_of_readToken rfl ?_
    have hscan := scanString_append h r
    have htext (t : List Char) : (t ++ ['"']).append r = t ++ '"' :: r := by
      rw [List.append_eq, List.append_assoc]
      rfl
    rw [htext, readToken]
    simp only [markOf?, stringToken, hscan]
    rfl

end Complete

section Next

def Mark.char : Mark → Char
  | .openBrace => '\x7b'
  | .closeBrace => '\x7d'
  | .openBracket => '['
  | .closeBracket => ']'
  | .colon => ':'
  | .comma => ','

theorem Spelling.eq_char {m : Mark} {x : List Char} (h : Spelling (.mark m) x) : x = [m.char] := by
  cases h with
  | mark h =>
    unfold markOf? at h
    split at h <;> cases h <;> rfl

theorem readToken_ne_done (c : Char) (s : List Char) : readToken c s ≠ .error .done := by
  intro h
  have word {w : List Char} {t : Token} : wordToken w t s ≠ .error .done := by
    unfold wordToken
    split <;> simp
  have number {negative : Bool} {s : List Char} : numberToken negative s ≠ .error .done := by
    unfold numberToken
    split <;> simp
  have string : stringToken s ≠ .error .done := by
    unfold stringToken
    split <;> simp
  unfold readToken at h
  split at h
  · cases h
  · split_ifs at h
    · exact word h
    · exact word h
    · exact word h
    · exact string h
    · exact number h
    · exact number h
    · cases h

theorem scan_cons_of_not_blank {c : Char} (hc : isBlank c = false) (s : List Char) :
    (∃ stop, stop ≠ .done ∧ scan (c :: s) = ([], stop)) ∨
      ∃ t x r, c :: s = x ++ r ∧ Spelling t x ∧ r.length ≤ s.length ∧
        scan (c :: s) = (t :: (scan r).1, (scan r).2) := by
  cases hr : readToken c s with
  | error stop =>
    left
    refine ⟨stop, ?_, ?_⟩
    · rintro rfl
      exact readToken_ne_done c s hr
    · rw [scan]
      simp only [hc, Bool.false_eq_true, if_false, scanToken, hr]
  | ok o =>
    right
    obtain ⟨x, hx, ht⟩ := exists_spelling_of_readToken hr
    exact ⟨o.1, x, o.2, hx, ht, length_readToken_le hr, scan_of_readToken hc hr⟩

-- A number does not go on behind blanks or with a mark.
theorem endsNumeral_of_mark {c : Char} {m : Mark} (hc : markOf? c = some m) {b : List Char}
    (hb : Blanks b) (s : List Char) : EndsNumeral (b ++ c :: s) := by
  cases b with
  | nil =>
    intro d hd
    obtain rfl := Option.some.inj hd
    unfold markOf? at hc
    split at hc <;> first | decide | cases hc
  | cons d b =>
    intro d' hd
    obtain rfl := Option.some.inj hd
    have hmem := hb d (by simp)
    simp only [List.mem_cons, List.not_mem_nil, or_false] at hmem
    rcases hmem with rfl | rfl | rfl | rfl <;> decide

end Next

end Roster.Json
