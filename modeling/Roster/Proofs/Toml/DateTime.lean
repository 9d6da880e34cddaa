import Roster.Proofs.Number.Decimal
import Roster.Proofs.Toml.Numeral

namespace Roster.Toml

open Number

variable {α : Type} {C : List Char → Prop} {c : Char} {n : Nat} {d o r s t x : List Char}

theorem Fixed.gives (h : Fixed n x) (low high : Nat) : Gives Anything (readFixed n low high) x := by
  have htake (t : List Char) : (x ++ t).take n = x := List.take_left' h.length
  have hdrop (t : List Char) : (x ++ t).drop n = t := List.drop_left' h.length
  by_cases hv : low ≤ ofDecimal x ∧ ofDecimal x ≤ high
  · refine ⟨some (ofDecimal x), fun t _ => ?_⟩
    simp only [readFixed, htake, hdrop]
    exact if_pos ⟨h.length, h.digits, hv⟩
  · refine gives_none fun t _ => ?_
    simp only [readFixed, htake]
    exact if_neg fun hfixed => hv hfixed.2.2

theorem Gives.char {f : List Char → Option (α × List Char)} (h : Gives C f x) (c : Char) :
    Gives C (fun s => (readChar c s).bind f) (c :: x) :=
  h.congr fun t _ => by rw [List.cons_append, readChar, if_pos rfl, Option.bind_some]

theorem DateText.gives (h : DateText x) : Gives Anything readDate x := by
  obtain ⟨hyear, hmonth, hday⟩ := h
  refine (hyear.gives 0 9999).bind (fun _ _ => trivial) fun year => ?_
  refine Gives.char ((hmonth.gives 1 12).bind (fun _ _ => trivial) fun month => ?_) '-'
  refine Gives.char ?_ '-'
  exact (hday.gives 1 (daysIn year month)).bindSome fun day => Date.mk year month day

section Times

-- Nothing that could go on with a second.
def EndsSecond (t : List Char) : Prop := ∀ c ∈ t.head?, isDigit c = false ∧ c ≠ '.'

theorem NanosecondText.exists_read (h : NanosecondText x) :
    ∃ n, ∀ t, EndsSecond t → readNanoseconds (x ++ t) = (n, t) := by
  cases h with
  | none =>
    refine ⟨0, fun t ht => ?_⟩
    cases t with
    | nil => rfl
    | cons c r =>
      have hc : c ≠ '.' := (ht c rfl).2
      simp [readNanoseconds, hc]
  | @digits s hne h =>
    refine ⟨ofDecimal (s.take 9) * Nat.pow 10 (9 - s.length), fun t ht => ?_⟩
    have hdigits : Number.digits (s ++ t) = (s, t) := by
      have hs := List.all_eq_true.1 h
      rw [Number.digits, List.takeWhile_append_of_pos hs, List.dropWhile_append_of_pos hs]
      cases t with
      | nil => simp
      | cons c r => simp [(ht c rfl).1]
    simp [readNanoseconds, hdigits, hne]

theorem TimeText.gives (h : TimeText x) : Gives EndsSecond readTime x := by
  obtain ⟨hhour, hminute, hsecond, hnanosecond⟩ := h
  obtain ⟨n, hn⟩ := hnanosecond.exists_read
  refine (hhour.gives 0 23).bind (fun _ _ => trivial) fun hour => ?_
  refine Gives.char ((hminute.gives 0 59).bind (fun _ _ => trivial) fun minute => ?_) ':'
  refine Gives.char ((hsecond.gives 0 60).bind (fun _ _ => trivial) fun second => ?_) ':'
  exact ⟨some ⟨hour, minute, second, n⟩, fun t ht => by simp only [hn t ht]; rfl⟩

theorem gives_hourMinute {hour minute : List Char} (hhour : Fixed 2 hour) (hminute : Fixed 2 minute)
    (f : Nat → Nat → α) :
    Gives Anything (fun s => (readFixed 2 0 23 s).bind fun h => (readChar ':' h.2).bind fun r =>
      (readFixed 2 0 59 r).bind fun m => some (f h.1 m.1, m.2)) (hour ++ ':' :: minute) := by
  have hbehind (h : Nat) : Gives Anything (fun r => (readChar ':' r).bind fun r =>
      (readFixed 2 0 59 r).bind fun m => some (f h m.1, m.2)) (':' :: minute) :=
    .char ((hminute.gives 0 59).bindSome (f h)) ':'
  exact (hhour.gives 0 23).bind (fun _ _ => trivial) hbehind

theorem OffsetText.gives (h : OffsetText x) : Gives EndsValue readOffset x := by
  cases h with
  | none =>
    refine ⟨some Option.none, fun t ht => ?_⟩
    cases t with
    | nil => rfl
    | cons c r =>
      rcases isEnd_iff.1 (ht.head c rfl) with rfl | rfl | rfl | rfl | rfl | rfl | rfl | rfl <;> rfl
  | utc hc => exact ⟨some (some .utc), fun t _ => by rcases hc with rfl | rfl <;> rfl⟩
  | @minutes c hour minute hc hhour hminute =>
    refine ((gives_hourMinute hhour hminute fun h m => some (Offset.minutes
      (if c = '-' then -(h * 60 + m : Int) else h * 60 + m))).mono fun _ _ => trivial).congr fun t _ => ?_
    rcases hc with rfl | rfl <;> rfl

theorem OffsetText.endsSecond (h : OffsetText x) (ht : EndsValue t) : EndsSecond (x ++ t) := by
  cases h with
  | none =>
    exact fun c hc => ⟨isDigit_of_isEnd (ht.head c hc), ne_of_isEnd (ht.head c hc) rfl⟩
  | utc hc =>
    rintro d ⟨⟩
    rcases hc with rfl | rfl <;> decide
  | minutes hc =>
    rintro d ⟨⟩
    rcases hc with rfl | rfl <;> decide

end Times

section Starts

theorem dropWhile_digits (hs : s.all isDigit) (hc : isDigit c = false) (r : List Char) :
    (s ++ c :: r).dropWhile isDigit = c :: r := by
  rw [List.dropWhile_append_of_pos (List.all_eq_true.1 hs)]
  exact List.dropWhile_cons_of_neg (by simp [hc])

theorem exists_of_readFixed {low high v : Nat} (h : readFixed n low high s = some (v, r)) :
    ∃ ds, Fixed n ds ∧ s = ds ++ r := by
  simp only [readFixed] at h
  split at h
  · rename_i hfixed
    cases h
    exact ⟨s.take n, ⟨hfixed.1, hfixed.2.1⟩, (List.take_append_drop n s).symm⟩
  · cases h

theorem eq_cons_of_readChar (h : (readChar c s).isSome) : ∃ r, s = c :: r := by
  cases s with
  | nil => cases h
  | cons d r =>
    by_cases hd : d = c
    · exact ⟨r, by rw [hd]⟩
    · rw [readChar, if_neg hd] at h
      cases h

theorem exists_of_startsDate (h : startsDate s = true) : ∃ ds r, Fixed 4 ds ∧ s = ds ++ '-' :: r := by
  obtain ⟨⟨v, q⟩, hv, hmark⟩ := (Option.any_eq_true ..).1 h
  obtain ⟨ds, hds, rfl⟩ := exists_of_readFixed hv
  obtain ⟨r, rfl⟩ := eq_cons_of_readChar hmark
  exact ⟨ds, r, hds, rfl⟩

theorem exists_of_startsTime (h : startsTime s = true) : ∃ ds r, Fixed 2 ds ∧ s = ds ++ ':' :: r := by
  obtain ⟨⟨v, q⟩, hv, hmark⟩ := (Option.any_eq_true ..).1 h
  obtain ⟨ds, hds, rfl⟩ := exists_of_readFixed hv
  obtain ⟨r, rfl⟩ := eq_cons_of_readChar hmark
  exact ⟨ds, r, hds, rfl⟩

theorem Fixed.exists_cons (h : Fixed (n + 1) x) : ∃ c s, x = c :: s ∧ isDigit c = true := by
  cases x with
  | nil => cases h.length
  | cons c s =>
    have hall := h.digits
    rw [List.all_cons, Bool.and_eq_true] at hall
    exact ⟨c, s, rfl, hall.1⟩

theorem ofDecimal_year_le (h : Fixed 4 x) : ofDecimal x ≤ 9999 := by
  obtain ⟨hlen, hall⟩ := h
  obtain ⟨a, b, c, d, rfl⟩ : ∃ a b c d, x = [a, b, c, d] := by
    match x, hlen with
    | [a, b, c, d], _ => exact ⟨a, b, c, d, rfl⟩
  simp only [List.all_cons, List.all_nil, Bool.and_true, Bool.and_eq_true] at hall
  obtain ⟨ha, hb, hc, hd⟩ := hall
  have h1 := digitValue_lt ha
  have h2 := digitValue_lt hb
  have h3 := digitValue_lt hc
  have h4 := digitValue_lt hd
  simp only [ofDecimal, continueDecimal, List.foldl_cons, List.foldl_nil]
  omega

theorem readFixed_append (h : Fixed n x) {low high : Nat} (hlow : low ≤ ofDecimal x)
    (hhigh : ofDecimal x ≤ high) (t : List Char) :
    readFixed n low high (x ++ t) = some (ofDecimal x, t) := by
  simp only [readFixed, List.take_left' h.length, List.drop_left' h.length]
  exact if_pos ⟨h.length, h.digits, hlow, hhigh⟩

theorem DateText.startsDate (h : DateText d) (t : List Char) : startsDate (d ++ t) = true := by
  obtain ⟨hyear, -, -⟩ := h
  rw [List.append_assoc, Toml.startsDate,
    readFixed_append hyear (Nat.zero_le _) (ofDecimal_year_le hyear)]
  rfl

theorem TimeText.startsDate (h : TimeText x) (t : List Char) : startsDate (x ++ t) = false := by
  obtain ⟨hhour, -, -, -⟩ := h
  by_contra hstarts
  obtain ⟨ds, r, hds, heq⟩ := exists_of_startsDate (Bool.not_eq_false _ ▸ hstarts)
  have hdrop := congrArg (List.dropWhile isDigit) heq
  rw [List.append_assoc, List.cons_append, dropWhile_digits hhour.digits rfl,
    dropWhile_digits hds.digits rfl] at hdrop
  cases (List.cons.inj hdrop).1

theorem TimeText.exists_startsTime (h : TimeText x) :
    ∃ isTime : Bool, ∀ t, Toml.startsTime (x ++ t) = isTime := by
  obtain ⟨hhour, -, -, -⟩ := h
  obtain ⟨v, hv⟩ := hhour.gives 0 23
  refine ⟨v.isSome, fun t => ?_⟩
  rw [List.append_assoc, Toml.startsTime, hv _ trivial]
  cases v <;> rfl

end Starts

section Dates

theorem timeBehind?_of_endsValue (ht : EndsValue t) : timeBehind? t = none := by
  cases t with
  | nil => rfl
  | cons c r =>
    have hstarts (hc : isWs c = true) : startsTime r = false := by
      by_contra hstarts
      obtain ⟨ds, q, hds, rfl⟩ := exists_of_startsTime (Bool.not_eq_false _ ▸ hstarts)
      obtain ⟨d, s, rfl, hd⟩ := hds.exists_cons
      rw [EndsValue, skipWs_cons_of_isWs hc] at ht
      have hend := (show EndsValue (d :: s ++ ':' :: q) from ht).head d rfl
      rw [isDigit_of_isEnd hend] at hd
      cases hd
    rcases isEnd_iff.1 (ht.head c rfl) with rfl | rfl | rfl | rfl | rfl | rfl | rfl | rfl
    · simp [timeBehind?, hstarts rfl]
    all_goals rfl

theorem readDateTime_of_date {v : Date} (hd : DateText d) (hread : readDate (d ++ t) = some (v, t)) :
    readDateTime (d ++ t) = match timeBehind? t with
      | none => some (.date v, t)
      | some r => (readTime r).bind fun (time, r) =>
        (readOffset r).bind fun (offset, r) => some (.both v time offset, r) := by
  rw [readDateTime, if_pos (hd.startsDate t), hread]
  rfl

theorem readDateTime_of_no_date (hd : DateText d) (hread : readDate (d ++ t) = none) :
    readDateTime (d ++ t) = none := by
  rw [readDateTime, if_pos (hd.startsDate t), hread]
  rfl

-- A time behind a date, unless the clock does not have its hour.
theorem exists_settled_both (hd : DateText d) (hc : c = 'T' ∨ c = 't' ∨ c = ' ') (ht : TimeText x)
    (ho : OffsetText o) : ∃ v, Settled readDateTime (d ++ c :: (x ++ o)) v := by
  obtain ⟨date, hdate⟩ := hd.gives
  have hread (s : List Char) : readDate (d ++ c :: (x ++ (o ++ s))) =
      date.map fun v => (v, c :: (x ++ (o ++ s))) := hdate _ trivial
  cases date with
  | none =>
    refine ⟨none, .refused fun s _ => ?_⟩
    rw [List.append_assoc, List.cons_append, List.append_assoc, readDateTime_of_no_date hd (hread s)]
    exact stuck_none
  | some v =>
    have hdateTime (s : List Char) := readDateTime_of_date hd (hread s)
    obtain ⟨isTime, hstarts⟩ := ht.exists_startsTime
    have hmark : (c = 'T' || c = 't' || c = ' ') = true := by rcases hc with rfl | rfl | rfl <;> rfl
    cases isTime with
    | true =>
      have htime : Gives EndsValue (fun r => (readTime r).bind fun (time, r) =>
          (readOffset r).bind fun (offset, r) => some (DateTime.both v time offset, r)) (x ++ o) :=
        ht.gives.bind (fun _ hs => ho.endsSecond hs) fun time => ho.gives.bindSome (DateTime.both v time)
      refine Gives.exists_settled (htime.congr fun s _ => ?_)
      have hbehind : timeBehind? (c :: (x ++ (o ++ s))) = some (x ++ (o ++ s)) := by
        simp only [timeBehind?, hmark, hstarts, Bool.and_self, if_true]
      rw [List.append_assoc, List.cons_append, List.append_assoc, hdateTime s, hbehind]
    | false =>
      refine ⟨none, .refused fun s _ => ?_⟩
      have hbehind : timeBehind? (c :: (x ++ (o ++ s))) = none := by
        simp [timeBehind?, hstarts]
      rw [List.append_assoc, List.cons_append, List.append_assoc, hdateTime s, hbehind]
      rintro _ _ ⟨⟩ hends
      obtain ⟨hhour, -, -, -⟩ := ht
      obtain ⟨d, q, rfl, hdigit⟩ := hhour.exists_cons
      rcases hc with rfl | rfl | rfl
      · exact not_endsValue_cons rfl _ hends
      · exact not_endsValue_cons rfl _ hends
      · have hend := (show EndsValue (d :: _) from hends).head d rfl
        rw [isDigit_of_isEnd hend] at hdigit
        cases hdigit

-- Only a time that the clock does not have leaves something behind that no reader goes on with.
theorem DateTimeText.exists_settled (h : DateTimeText x) : ∃ v, Settled readDateTime x v := by
  cases h with
  | date hd =>
    obtain ⟨date, hdate⟩ := hd.gives
    refine Gives.exists_settled ⟨date.map .date, fun t ht => ?_⟩
    have hread := hdate t trivial
    cases date with
    | none => exact readDateTime_of_no_date hd hread
    | some v =>
      rw [readDateTime_of_date hd hread, timeBehind?_of_endsValue ht]
      rfl
  | time htime =>
    have htimes (hends : ∀ t, EndsValue t → EndsSecond t) :=
      (htime.gives.mono hends).map DateTime.time
    refine ((htimes fun t ht => ?_).congr fun t _ => ?_).exists_settled
    · exact OffsetText.none.endsSecond ht
    · rw [readDateTime, htime.startsDate t]
      cases readTime (x ++ t) <;> rfl
  | both hd hc ht ho => exact exists_settled_both hd hc ht ho

end Dates

end Roster.Toml
