import Roster.Proofs.Toml.DateTime
import Roster.Proofs.Toml.Text
import Roster.Toml.Read

namespace Roster.Toml

open Number

variable {c : Char} {r t x : List Char}

theorem readScalar_of_ne (hquote : c ≠ '"' ∧ c ≠ '\'') (hword : c ≠ 't' ∧ c ≠ 'f') (r : List Char) :
    readScalar (c :: r) =
      if startsDate (c :: r) || startsTime (c :: r) then
        (readDateTime (c :: r)).map fun (v, r) => (.dateTime v, r)
      else readNumeral (c :: r) := by
  simp [readScalar, hquote, hword]

theorem readScalar_of_digit (hc : isDigit c = true) (r : List Char) :
    readScalar (c :: r) =
      if startsDate (c :: r) || startsTime (c :: r) then
        (readDateTime (c :: r)).map fun (v, r) => (.dateTime v, r)
      else readNumeral (c :: r) :=
  readScalar_of_ne ⟨ne_of_isDigit hc rfl, ne_of_isDigit hc rfl⟩
    ⟨ne_of_isDigit hc rfl, ne_of_isDigit hc rfl⟩ r

theorem MoreDigits.dropWhile_head (h : MoreDigits isDigit x) (hr : ∀ c ∈ r.head?, isDigit c = false) :
    ∀ c ∈ ((x ++ r).dropWhile isDigit).head?, c = '_' ∨ c ∈ r.head? := by
  induction h with
  | nil =>
    intro c hc
    cases r with
    | nil => cases hc
    | cons d r =>
      rw [List.nil_append, List.dropWhile_cons_of_neg (by simp [hr d rfl])] at hc
      exact .inr hc
  | digit hc _ ih => rwa [List.cons_append, List.dropWhile_cons_of_pos hc]
  | grouped =>
    rintro c ⟨⟩
    exact .inl rfl

-- What stands behind the digits at the front of a number is neither a hyphen nor a colon.
theorem NumeralText.starts_neither (h : NumeralText x) (ht : EndsValue t) :
    startsDate (x ++ t) = false ∧ startsTime (x ++ t) = false := by
  suffices hdrop : ∀ ds c r, ds ≠ [] → ds.all isDigit → c = '-' ∨ c = ':' → x ++ t ≠ ds ++ c :: r by
    constructor
    · by_contra hstarts
      obtain ⟨ds, r, hds, heq⟩ := exists_of_startsDate (Bool.not_eq_false _ ▸ hstarts)
      have hne := List.ne_nil_of_length_eq_add_one hds.length
      exact hdrop ds '-' r hne hds.digits (.inl rfl) heq
    · by_contra hstarts
      obtain ⟨ds, r, hds, heq⟩ := exists_of_startsTime (Bool.not_eq_false _ ▸ hstarts)
      have hne := List.ne_nil_of_length_eq_add_one hds.length
      exact hdrop ds ':' r hne hds.digits (.inr rfl) heq
  intro ds c r hne hds hc heq
  have hhead : ∀ d ∈ (x ++ t).head?, isDigit d = true := by
    obtain ⟨d, ds, rfl⟩ := List.exists_cons_of_ne_nil hne
    rw [List.all_cons, Bool.and_eq_true] at hds
    rw [heq]
    rintro e ⟨⟩
    exact hds.1
  have hmark : c ∈ ((x ++ t).dropWhile isDigit).head? := by
    have hcdigit : isDigit c = false := by rcases hc with rfl | rfl <;> rfl
    rw [heq, dropWhile_digits hds hcdigit]
    rfl
  -- Behind the whole digits stands a mark of a number, or what stands behind the number.
  have whole {fraction exponent : List Char} (hfraction : FractionText fraction)
      (hexponent : ExponentText exponent) (d : Char) (hd : d ∈ (fraction ++ (exponent ++ t)).head?) :
      isDigit d = false ∧ d ≠ c := by
    rcases hfraction.head d hd with rfl | hd
    · exact ⟨rfl, by rcases hc with rfl | rfl <;> decide⟩
    · rcases hexponent.head d hd with rfl | rfl | hd
      · exact ⟨rfl, by rcases hc with rfl | rfl <;> decide⟩
      · exact ⟨rfl, by rcases hc with rfl | rfl <;> decide⟩
      · have hend := ht.head d hd
        exact ⟨isDigit_of_isEnd hend, ne_of_isEnd hend (by rcases hc with rfl | rfl <;> rfl)⟩
  cases h with
  | @based m base s hbase h =>
    have hm : isDigit m = false ∧ m ≠ c := by
      unfold baseOf? at hbase
      split at hbase
      · exact ⟨rfl, by rcases hc with rfl | rfl <;> decide⟩
      · exact ⟨rfl, by rcases hc with rfl | rfl <;> decide⟩
      · exact ⟨rfl, by rcases hc with rfl | rfl <;> decide⟩
      · cases hbase
    rw [List.cons_append, List.cons_append, List.dropWhile_cons_of_pos rfl,
      List.dropWhile_cons_of_neg (by simp [hm.1])] at hmark
    exact hm.2 (Option.some.inj hmark)
  | @decimal sign wholeText fraction exponent hsign hwhole hfraction hexponent =>
    cases hsign with
    | plus => cases hhead '+' rfl
    | minus => cases hhead '-' rfl
    | none =>
      have hrest := whole hfraction hexponent
      have more {s : List Char} (hs : MoreDigits isDigit s)
          (hmark : c ∈ ((s ++ (fraction ++ (exponent ++ t))).dropWhile isDigit).head?) : False := by
        rcases hs.dropWhile_head (fun d hd => (hrest d hd).1) c hmark with rfl | hrest'
        · rcases hc with hc | hc <;> cases hc
        · exact (hrest c hrest').2 rfl
      rw [List.nil_append, List.append_assoc, List.append_assoc] at hmark
      cases hwhole with
      | zero => exact more .nil hmark
      | digits hd _ hs =>
        rw [List.cons_append, List.dropWhile_cons_of_pos hd] at hmark
        exact more hs hmark
  | infinite hsign => cases hsign <;> cases hhead _ rfl
  | nan hsign => cases hsign <;> cases hhead _ rfl

theorem NumeralText.exists_cons (h : NumeralText x) :
    ∃ c r, x = c :: r ∧ (isDigit c = true ∨ c ∈ ['+', '-', 'i', 'n']) := by
  cases h with
  | based => exact ⟨'0', _, rfl, .inl rfl⟩
  | decimal hsign hwhole =>
    obtain ⟨c, s, rfl, hc⟩ := hwhole.exists_cons
    cases hsign with
    | none => exact ⟨c, _, rfl, .inl hc⟩
    | plus => exact ⟨'+', _, rfl, .inr (by decide)⟩
    | minus => exact ⟨'-', _, rfl, .inr (by decide)⟩
  | infinite hsign => cases hsign <;> exact ⟨_, _, rfl, .inr (by decide)⟩
  | nan hsign => cases hsign <;> exact ⟨_, _, rfl, .inr (by decide)⟩

theorem NumeralText.gives_readScalar (h : NumeralText x) : Gives EndsValue readScalar x := by
  refine h.gives.congr fun t ht => ?_
  obtain ⟨hdate, htime⟩ := h.starts_neither ht
  obtain ⟨c, r, rfl, hc⟩ := h.exists_cons
  have hscalar : readScalar (c :: (r ++ t)) =
      if startsDate (c :: (r ++ t)) || startsTime (c :: (r ++ t)) then
        (readDateTime (c :: (r ++ t))).map fun (v, r) => (.dateTime v, r)
      else readNumeral (c :: (r ++ t)) := by
    rcases hc with hc | hc
    · exact readScalar_of_digit hc _
    · simp only [List.mem_cons, List.not_mem_nil, or_false] at hc
      rcases hc with rfl | rfl | rfl | rfl <;> exact readScalar_of_ne (by decide) (by decide) _
  rw [List.cons_append] at hdate htime ⊢
  rw [hscalar, hdate, htime]
  rfl

theorem TimeText.exists_cons (h : TimeText x) : ∃ c r, x = c :: r ∧ isDigit c = true := by
  obtain ⟨hhour, -, -, -⟩ := h
  obtain ⟨c, r, rfl, hc⟩ := hhour.exists_cons
  exact ⟨c, _, rfl, hc⟩

-- Hours that start with a zero are on the clock.
theorem Fixed.wholeText {hour : List Char} (h : Fixed 2 hour) (r : List Char)
    (hstarts : startsTime (hour ++ ':' :: r) = false) : WholeText hour := by
  obtain ⟨a, b, rfl⟩ := List.length_eq_two.1 h.length
  have hdigits := h.digits
  simp only [List.all_cons, List.all_nil, Bool.and_true, Bool.and_eq_true] at hdigits
  refine .digits hdigits.1 ?_ (.digit hdigits.2 .nil)
  rintro rfl
  have hlt := digitValue_lt hdigits.2
  have hle : ofDecimal ['0', b] ≤ 23 := by
    have hzero : digitValue '0' = 0 := rfl
    simp only [ofDecimal, continueDecimal, List.foldl_cons, List.foldl_nil, hzero]
    omega
  rw [startsTime, readFixed_append h (Nat.zero_le _) hle] at hstarts
  cases hstarts

-- A time that the clock does not have is read as a number up to its first colon.
theorem TimeText.exists_settled (h : TimeText x) : ∃ v, Settled readScalar x v := by
  have hscalar (t : List Char) : readScalar (x ++ t) =
      if startsTime (x ++ t) then (readDateTime (x ++ t)).map fun (v, r) => (.dateTime v, r)
      else readNumeral (x ++ t) := by
    have hdate := h.startsDate t
    obtain ⟨c, r, rfl, hc⟩ := h.exists_cons
    rw [List.cons_append] at hdate ⊢
    rw [readScalar_of_digit hc, hdate]
    rfl
  obtain ⟨isTime, hstarts⟩ := h.exists_startsTime
  simp only [hstarts] at hscalar
  cases isTime with
  | true =>
    obtain ⟨v, hv⟩ := (DateTimeText.time h).exists_settled
    exact ⟨_, (hv.map Scalar.dateTime).congr fun t _ => hscalar t⟩
  | false =>
    refine ⟨none, .refused fun t _ => ?_⟩
    rw [hscalar t]
    obtain @⟨hour, minute, second, nanosecond, hhour, -, -, -⟩ := h
    have hwhole := hhour.wholeText _ (by simpa using hstarts [])
    obtain ⟨o, ho⟩ := gives_readNumeral_decimal .none hwhole .none .none
    have hread := ho (':' :: (minute ++ ':' :: (second ++ nanosecond) ++ t)) (by
      rintro c ⟨⟩
      decide)
    simp only [List.nil_append, List.append_nil] at hread
    rw [List.append_assoc, List.cons_append, hread]
    intro v r hv
    obtain ⟨_, -, heq⟩ := Option.map_eq_some_iff.1 hv
    cases heq
    exact not_endsValue_cons rfl _

theorem DateText.exists_cons (h : DateText x) : ∃ c r, x = c :: r ∧ isDigit c = true := by
  obtain ⟨hyear, -, -⟩ := h
  obtain ⟨c, r, rfl, hc⟩ := hyear.exists_cons
  exact ⟨c, _, rfl, hc⟩

theorem readScalar_of_date {d : List Char} (hd : DateText d) (t : List Char) :
    readScalar (d ++ t) = (readDateTime (d ++ t)).map fun (v, r) => (.dateTime v, r) := by
  have hdate := hd.startsDate t
  obtain ⟨c, r, rfl, hc⟩ := hd.exists_cons
  rw [List.cons_append] at hdate ⊢
  rw [readScalar_of_digit hc, hdate]
  rfl

theorem DateTimeText.exists_settled_readScalar (h : DateTimeText x) :
    ∃ v, Settled readScalar x v := by
  obtain ⟨v, hv⟩ := h.exists_settled
  cases h with
  | date hd => exact ⟨_, (hv.map Scalar.dateTime).congr fun t _ => readScalar_of_date hd t⟩
  | time ht => exact ht.exists_settled
  | both hd =>
    refine ⟨_, (hv.map Scalar.dateTime).congr fun t _ => ?_⟩
    rw [List.append_assoc]
    exact readScalar_of_date hd _

theorem QuotedText.exists_cons (h : QuotedText x) : ∃ c r, x = c :: r ∧ (c = '"' ∨ c = '\'') := by
  cases h with
  | basic => exact ⟨'"', _, rfl, .inl rfl⟩
  | literal => exact ⟨'\'', _, rfl, .inr rfl⟩

theorem readScalar_quoted (hc : c = '"' ∨ c = '\'') (r : List Char) :
    readScalar (c :: r) = (readString (c :: r)).map fun (v, r) => (.string v, r) := by
  rcases hc with rfl | rfl <;> rfl

theorem QuotedText.gives_readScalar (h : QuotedText x) : Gives EndsValue readScalar x := by
  refine (h.gives_readString.map Scalar.string).congr fun t _ => ?_
  obtain ⟨c, r, rfl, hc⟩ := h.exists_cons
  exact readScalar_quoted hc (r ++ t)

end Roster.Toml
