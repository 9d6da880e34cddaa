import Roster.Proofs.Toml.Gives

namespace Roster.Toml

open Number

variable {c : Char} {p : Char → Bool} {r s t x sign whole fraction exponent : List Char}

section Digits

theorem isDigit_of_isEnd (hc : isEnd c = true) : isDigit c = false := by
  rcases isEnd_iff.1 hc with rfl | rfl | rfl | rfl | rfl | rfl | rfl | rfl <;> rfl

theorem hexValue?_of_isEnd (hc : isEnd c = true) : hexValue? c = none := by
  rcases isEnd_iff.1 hc with rfl | rfl | rfl | rfl | rfl | rfl | rfl | rfl <;> rfl

theorem ne_of_isDigit {d : Char} (hc : isDigit c = true) (hd : isDigit d = false) : c ≠ d := by
  rintro rfl
  rw [hc] at hd
  cases hd

-- No digit follows, and no underscore either.
def EndsDigits (p : Char → Bool) (t : List Char) : Prop := ∀ c ∈ t.head?, p c = false ∧ c ≠ '_'

theorem moreDigits_cons_of_pos (hc : p c = true) (r : List Char) :
    moreDigits p (c :: r) = (moreDigits p r).map fun (ds, t) => (c :: ds, t) := by
  rw [moreDigits.eq_def]
  exact if_pos hc

theorem moreDigits_grouped (hunderscore : p '_' = false) (hc : p c = true) (r : List Char) :
    moreDigits p ('_' :: c :: r) = (moreDigits p r).map fun (ds, t) => (c :: ds, t) := by
  rw [moreDigits.eq_2, hunderscore]
  exact if_pos hc

theorem moreDigits_of_ends (ht : EndsDigits p t) : moreDigits p t = some ([], t) := by
  cases t with
  | nil => rw [moreDigits.eq_1]
  | cons c r =>
    obtain ⟨hc, hu⟩ := ht c rfl
    rw [moreDigits.eq_def]
    simp [hc, hu]

theorem MoreDigits.exists_read (h : MoreDigits p x) (hunderscore : p '_' = false) :
    ∃ ds, ∀ t, EndsDigits p t → moreDigits p (x ++ t) = some (ds, t) := by
  induction h with
  | nil => exact ⟨[], fun t ht => moreDigits_of_ends ht⟩
  | @digit c s hc _ ih =>
    obtain ⟨ds, hds⟩ := ih
    refine ⟨c :: ds, fun t ht => ?_⟩
    rw [List.cons_append, moreDigits_cons_of_pos hc, hds t ht]
    rfl
  | @grouped c s hc _ ih =>
    obtain ⟨ds, hds⟩ := ih
    refine ⟨c :: ds, fun t ht => ?_⟩
    rw [List.cons_append, List.cons_append, moreDigits_grouped hunderscore hc, hds t ht]
    rfl

theorem DigitText.exists_read (h : DigitText p x) (hunderscore : p '_' = false) :
    ∃ ds, ∀ t, EndsDigits p t → digitRun p (x ++ t) = some (ds, t) := by
  cases h with
  | @digits c s hc h =>
    obtain ⟨ds, hds⟩ := h.exists_read hunderscore
    refine ⟨c :: ds, fun t ht => ?_⟩
    rw [List.cons_append, digitRun, if_pos hc, hds t ht]
    rfl

theorem WholeText.exists_read (h : WholeText x) :
    ∃ ds, ∀ t, EndsDigits isDigit t → wholeDigits (x ++ t) = some (ds, t) := by
  cases h with
  | zero => exact ⟨['0'], fun t _ => rfl⟩
  | @digits c s hc hzero h =>
    obtain ⟨ds, hds⟩ := (DigitText.digits hc h).exists_read rfl
    refine ⟨ds, fun t ht => ?_⟩
    rw [← hds t ht]
    simp [wholeDigits, hzero]

theorem WholeText.exists_cons (h : WholeText x) : ∃ c s, x = c :: s ∧ isDigit c = true := by
  cases h with
  | zero => exact ⟨'0', [], rfl, rfl⟩
  | digits hc => exact ⟨_, _, rfl, hc⟩

end Digits

section Parts

-- Nothing that could go on with a number.
def EndsNumber (t : List Char) : Prop :=
  ∀ c ∈ t.head?, isDigit c = false ∧ c ≠ '_' ∧ c ≠ '.' ∧ c ≠ 'e' ∧ c ≠ 'E' ∧ baseOf? c = none

theorem EndsValue.endsNumber (ht : EndsValue t) : EndsNumber t := by
  intro c hc
  rcases isEnd_iff.1 (ht.head c hc) with rfl | rfl | rfl | rfl | rfl | rfl | rfl | rfl <;> decide

theorem EndsNumber.endsDigits (ht : EndsNumber t) : EndsDigits isDigit t := fun c hc =>
  ⟨(ht c hc).1, (ht c hc).2.1⟩

theorem FractionText.head (h : FractionText x) : ∀ c ∈ (x ++ t).head?, c = '.' ∨ c ∈ t.head? := by
  intro c hc
  cases h with
  | none => exact .inr hc
  | digits => exact .inl (Option.some.inj hc).symm

theorem ExponentText.head (h : ExponentText x) :
    ∀ c ∈ (x ++ t).head?, c = 'e' ∨ c = 'E' ∨ c ∈ t.head? := by
  intro c hc
  cases h with
  | none => exact .inr (.inr hc)
  | digits hmark =>
    cases hc
    exact hmark.imp_right .inl

theorem endsDigits_exponent (hx : ExponentText x) (ht : EndsNumber t) :
    EndsDigits isDigit (x ++ t) ∧ ∀ c ∈ (x ++ t).head?, c ≠ '.' ∧ baseOf? c = none := by
  suffices hhead : ∀ c ∈ (x ++ t).head?, isDigit c = false ∧ c ≠ '_' ∧ c ≠ '.' ∧ baseOf? c = none from
    ⟨fun c hc => ⟨(hhead c hc).1, (hhead c hc).2.1⟩, fun c hc => (hhead c hc).2.2⟩
  intro c hc
  rcases hx.head c hc with rfl | rfl | hc
  · decide
  · decide
  · obtain ⟨hdigit, hunderscore, hpoint, -, -, hbase⟩ := ht c hc
    exact ⟨hdigit, hunderscore, hpoint, hbase⟩

theorem endsDigits_fraction (hfraction : FractionText fraction) (hexponent : ExponentText exponent)
    (ht : EndsNumber t) : EndsDigits isDigit (fraction ++ (exponent ++ t)) ∧
      ∀ c ∈ (fraction ++ (exponent ++ t)).head?, baseOf? c = none := by
  obtain ⟨hends, hbase⟩ := endsDigits_exponent hexponent ht
  constructor
  · intro c hc
    rcases hfraction.head c hc with rfl | hc
    · decide
    · exact hends c hc
  · intro c hc
    rcases hfraction.head c hc with rfl | hc
    · rfl
    · exact (hbase c hc).2

theorem readFraction_of_ne (hs : ∀ c ∈ s.head?, c ≠ '.') : readFraction s = some ([], s) := by
  cases s with
  | nil => rfl
  | cons c r =>
    have hc := hs c rfl
    simp [readFraction, hc]

theorem FractionText.exists_read (hfraction : FractionText fraction)
    (hexponent : ExponentText exponent) :
    ∃ ds, ∀ t, EndsNumber t →
      readFraction (fraction ++ (exponent ++ t)) = some (ds, exponent ++ t) := by
  cases hfraction with
  | none =>
    exact ⟨[], fun t ht => readFraction_of_ne fun c hc =>
      ((endsDigits_exponent hexponent ht).2 c hc).1⟩
  | digits h =>
    obtain ⟨ds, hds⟩ := h.exists_read rfl
    exact ⟨ds, fun t ht => hds _ (endsDigits_exponent hexponent ht).1⟩

theorem readSign_of_digit (hc : isDigit c = true) (r : List Char) :
    readSign (c :: r) = (false, c :: r) := by
  have hplus : c ≠ '+' := ne_of_isDigit hc rfl
  have hminus : c ≠ '-' := ne_of_isDigit hc rfl
  simp [readSign, hplus, hminus]

theorem SignText.exists_read (h : SignText sign) :
    ∃ negative, ∀ c r, isDigit c = true → readSign (sign ++ c :: r) = (negative, c :: r) := by
  cases h with
  | none => exact ⟨false, fun c r hc => readSign_of_digit hc r⟩
  | plus => exact ⟨false, fun _ _ _ => rfl⟩
  | minus => exact ⟨true, fun _ _ _ => rfl⟩

theorem readExponent_of_ne (hs : ∀ c ∈ s.head?, c ≠ 'e' ∧ c ≠ 'E') : readExponent s = some (0, s) := by
  cases s with
  | nil => rfl
  | cons c r =>
    obtain ⟨he, hE⟩ := hs c rfl
    simp [readExponent, he, hE]

theorem ExponentText.exists_read (h : ExponentText x) :
    ∃ n, ∀ t, EndsNumber t → readExponent (x ++ t) = some (n, t) := by
  cases h with
  | none =>
    exact ⟨0, fun t ht => readExponent_of_ne fun c hc => ⟨(ht c hc).2.2.2.1, (ht c hc).2.2.2.2.1⟩⟩
  | @digits c sign s hc hsign h =>
    obtain ⟨negative, hnegative⟩ := hsign.exists_read
    obtain ⟨ds, hds⟩ := h.exists_read rfl
    refine ⟨signed negative (ofDecimal ds), fun t ht => ?_⟩
    have hmark : (c = 'e' || c = 'E') = true := by rcases hc with rfl | rfl <;> rfl
    have hread := hds t ht.endsDigits
    obtain ⟨hd, -⟩ := h
    rw [List.cons_append, List.append_assoc, List.cons_append, readExponent, if_pos hmark,
      hnegative _ _ hd]
    rw [List.cons_append] at hread
    simp only [hread, Option.map_some]

end Parts

section Decimals

theorem readDecimal_integer {negative : Bool} {ds : List Char} (hwhole : wholeDigits s = some (ds, t))
    (ht : EndsNumber t) :
    readDecimal negative s = (integer? (signed negative (ofDecimal ds))).map fun v => (v, t) := by
  have hany : (t.head?.any fun c => c = '.' || c = 'e' || c = 'E') = false := by
    cases t with
    | nil => rfl
    | cons c r =>
      obtain ⟨-, -, hpoint, he, hE, -⟩ := ht c rfl
      simp [hpoint, he, hE]
  rw [readDecimal, hwhole]
  simp only [Option.bind_eq_bind, Option.bind_some, hany, Bool.false_eq_true, if_false]
  cases integer? (signed negative (ofDecimal ds)) <;> rfl

theorem readDecimal_float {negative : Bool} {ds fs : List Char} {n : Int} {q q' : List Char}
    (hwhole : wholeDigits s = some (ds, q)) (hmark : ∃ c ∈ q.head?, c = '.' ∨ c = 'e' ∨ c = 'E')
    (hfraction : readFraction q = some (fs, q')) (hexponent : readExponent q' = some (n, t)) :
    readDecimal negative s = (float? negative (ds ++ fs) (n - fs.length)).map fun v => (v, t) := by
  have hany : (q.head?.any fun c => c = '.' || c = 'e' || c = 'E') = true := by
    obtain ⟨c, hc, hmark⟩ := hmark
    rw [Option.mem_def.1 hc]
    rcases hmark with rfl | rfl | rfl <;> rfl
  rw [readDecimal, hwhole]
  simp only [Option.bind_eq_bind, Option.bind_some, hany, if_true, hfraction, hexponent]
  cases float? negative (ds ++ fs) (n - fs.length) <;> rfl

theorem gives_readDecimal (negative : Bool) (hwhole : WholeText whole)
    (hfraction : FractionText fraction) (hexponent : ExponentText exponent) :
    Gives EndsNumber (readDecimal negative) (whole ++ (fraction ++ exponent)) := by
  obtain ⟨ds, hds⟩ := hwhole.exists_read
  obtain ⟨fs, hfs⟩ := hfraction.exists_read hexponent
  obtain ⟨n, hn⟩ := hexponent.exists_read
  -- Something in front of the end makes it a float.
  have float (hmark : ∀ t, ∃ c ∈ (fraction ++ (exponent ++ t)).head?, c = '.' ∨ c = 'e' ∨ c = 'E') :
      Gives EndsNumber (readDecimal negative) (whole ++ (fraction ++ exponent)) := by
    refine ⟨float? negative (ds ++ fs) (n - fs.length), fun t ht => ?_⟩
    rw [List.append_assoc, List.append_assoc]
    exact readDecimal_float (hds _ (endsDigits_fraction hfraction hexponent ht).1) (hmark t) (hfs t ht)
      (hn t ht)
  cases hfraction with
  | digits => exact float fun t => ⟨'.', rfl, .inl rfl⟩
  | none =>
    cases hexponent with
    | digits hc => exact float fun t => ⟨_, rfl, .inr hc⟩
    | none =>
      refine ⟨integer? (signed negative (ofDecimal ds)), fun t ht => ?_⟩
      rw [List.nil_append, List.append_nil]
      exact readDecimal_integer (hds t ht.endsDigits) ht

end Decimals

section Numerals

theorem readNumeral_of_ne (hs : ∀ c ∈ s.head?, c ≠ '0') :
    readNumeral s = match readSpecial (readSign s).1 (readSign s).2 with
      | some done => some done
      | none => readDecimal (readSign s).1 (readSign s).2 := by
  unfold readNumeral
  split
  · exact absurd rfl (hs '0' rfl)
  · rfl

theorem readNumeral_zero (hs : ∀ c ∈ s.head?, baseOf? c = none) :
    readNumeral ('0' :: s) = readDecimal false ('0' :: s) := by
  cases s with
  | nil => rfl
  | cons c r => simp [readNumeral, hs c rfl]

theorem readSpecial_of_digit (negative : Bool) (hc : isDigit c = true) (r : List Char) :
    readSpecial negative (c :: r) = none := by
  have hi : c ≠ 'i' := ne_of_isDigit hc rfl
  have hn : c ≠ 'n' := ne_of_isDigit hc rfl
  unfold readSpecial
  split
  · rename_i h
    exact absurd (List.cons.inj h).1 hi
  · rename_i h
    exact absurd (List.cons.inj h).1 hn
  · rfl

theorem gives_readNumeral_decimal (hsign : SignText sign) (hwhole : WholeText whole)
    (hfraction : FractionText fraction) (hexponent : ExponentText exponent) :
    Gives EndsNumber readNumeral (sign ++ (whole ++ (fraction ++ exponent))) := by
  -- Behind a sign, or where no zero stands in front.
  have decimal (hzero : ∀ t, ∀ c ∈ (sign ++ (whole ++ t)).head?, c ≠ '0') :
      Gives EndsNumber readNumeral (sign ++ (whole ++ (fraction ++ exponent))) := by
    obtain ⟨negative, hnegative⟩ := hsign.exists_read
    refine (gives_readDecimal negative hwhole hfraction hexponent).congr fun t ht => ?_
    have hne := hzero (fraction ++ (exponent ++ t))
    obtain ⟨c, s, rfl, hc⟩ := hwhole.exists_cons
    simp only [List.append_assoc, List.cons_append] at hne ⊢
    rw [readNumeral_of_ne hne, hnegative c _ hc, readSpecial_of_digit negative hc]
  cases hsign with
  | plus => exact decimal fun t c hc => by cases hc; decide
  | minus => exact decimal fun t c hc => by cases hc; decide
  | none =>
    cases hwhole with
    | digits hc hzero h => exact decimal fun t d hd => by cases hd; exact hzero
    | zero =>
      refine (gives_readDecimal false .zero hfraction hexponent).congr fun t ht => ?_
      have hhead := (endsDigits_fraction hfraction hexponent ht).2
      simp only [List.nil_append, List.append_assoc, List.cons_append]
      exact readNumeral_zero hhead

theorem valueIn?_of_isEnd {base : Nat} (hc : isEnd c = true) : (valueIn? base c).isSome = false := by
  rw [valueIn?, hexValue?_of_isEnd hc]
  rfl

theorem NumeralText.gives (h : NumeralText x) : Gives EndsValue readNumeral x := by
  cases h with
  | @based c base s hc h =>
    obtain ⟨ds, hds⟩ := h.exists_read rfl
    refine ⟨integer? (ofBase base ds), fun t ht => ?_⟩
    have hread := hds t fun d hd => ⟨valueIn?_of_isEnd (ht.head d hd), ne_of_isEnd (ht.head d hd) rfl⟩
    simp only [List.cons_append, readNumeral, hc, readInBase, hread, Option.bind_eq_bind,
      Option.bind_some]
    cases integer? (ofBase base ds) <;> rfl
  | decimal hsign hwhole hfraction hexponent =>
    exact (gives_readNumeral_decimal hsign hwhole hfraction hexponent).mono fun t ht => ht.endsNumber
  | infinite hsign =>
    cases hsign with
    | minus => exact ⟨some (.float (.infinite true)), fun _ _ => rfl⟩
    | _ => exact ⟨some (.float (.infinite false)), fun _ _ => rfl⟩
  | nan hsign => cases hsign <;> exact ⟨some (.float .nan), fun _ _ => rfl⟩

end Numerals

end Roster.Toml
