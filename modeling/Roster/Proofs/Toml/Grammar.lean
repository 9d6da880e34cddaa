import Roster.Proofs.Toml.Lines
import Roster.Toml.Read

-- The texts of keys, values and expressions, told without a reader. A number may be too large, a
-- date may not be in the calendar, an escape may name no character and a table in braces may say a
-- key twice: such texts are in order, and are refused all the same. Strings on several lines are
-- left out.

namespace Roster.Toml

open Number

section Numbers

-- The digits behind the first one, each of them with an underscore in front or without.
inductive MoreDigits (p : Char → Bool) : List Char → Prop
  | nil : MoreDigits p []
  | digit {c : Char} {s : List Char} (hc : p c = true) (h : MoreDigits p s) : MoreDigits p (c :: s)
  | grouped {c : Char} {s : List Char} (hc : p c = true) (h : MoreDigits p s) :
      MoreDigits p ('_' :: c :: s)

inductive DigitText (p : Char → Bool) : List Char → Prop
  | digits {c : Char} {s : List Char} (hc : p c = true) (h : MoreDigits p s) : DigitText p (c :: s)

inductive SignText : List Char → Prop
  | none : SignText []
  | plus : SignText ['+']
  | minus : SignText ['-']

-- No zero stands in front of another digit.
inductive WholeText : List Char → Prop
  | zero : WholeText ['0']
  | digits {c : Char} {s : List Char} (hc : isDigit c = true) (hzero : c ≠ '0')
      (h : MoreDigits isDigit s) : WholeText (c :: s)

inductive FractionText : List Char → Prop
  | none : FractionText []
  | digits {s : List Char} (h : DigitText isDigit s) : FractionText ('.' :: s)

inductive ExponentText : List Char → Prop
  | none : ExponentText []
  | digits {c : Char} {sign s : List Char} (hc : c = 'e' ∨ c = 'E') (hsign : SignText sign)
      (h : DigitText isDigit s) : ExponentText (c :: (sign ++ s))

inductive NumeralText : List Char → Prop
  | based {c : Char} {base : Nat} {s : List Char} (hc : baseOf? c = some base)
      (h : DigitText (fun c => (valueIn? base c).isSome) s) : NumeralText ('0' :: c :: s)
  | decimal {sign whole fraction exponent : List Char} (hsign : SignText sign)
      (hwhole : WholeText whole) (hfraction : FractionText fraction)
      (hexponent : ExponentText exponent) : NumeralText (sign ++ (whole ++ (fraction ++ exponent)))
  | infinite {sign : List Char} (hsign : SignText sign) : NumeralText (sign ++ ['i', 'n', 'f'])
  | nan {sign : List Char} (hsign : SignText sign) : NumeralText (sign ++ ['n', 'a', 'n'])

end Numbers

section DateTimes

structure Fixed (n : Nat) (s : List Char) : Prop where
  length : s.length = n
  digits : s.all isDigit

inductive DateText : List Char → Prop
  | date {year month day : List Char} (hyear : Fixed 4 year) (hmonth : Fixed 2 month)
      (hday : Fixed 2 day) : DateText (year ++ '-' :: (month ++ '-' :: day))

inductive NanosecondText : List Char → Prop
  | none : NanosecondText []
  | digits {s : List Char} (hne : s ≠ []) (h : s.all isDigit) : NanosecondText ('.' :: s)

inductive TimeText : List Char → Prop
  | time {hour minute second nanosecond : List Char} (hhour : Fixed 2 hour) (hminute : Fixed 2 minute)
      (hsecond : Fixed 2 second) (hnanosecond : NanosecondText nanosecond) :
      TimeText (hour ++ ':' :: (minute ++ ':' :: (second ++ nanosecond)))

inductive OffsetText : List Char → Prop
  | none : OffsetText []
  | utc {c : Char} (hc : c = 'Z' ∨ c = 'z') : OffsetText [c]
  | minutes {c : Char} {hour minute : List Char} (hc : c = '+' ∨ c = '-') (hhour : Fixed 2 hour)
      (hminute : Fixed 2 minute) : OffsetText (c :: (hour ++ ':' :: minute))

inductive DateTimeText : List Char → Prop
  | date {d : List Char} (hd : DateText d) : DateTimeText d
  | time {t : List Char} (ht : TimeText t) : DateTimeText t
  | both {c : Char} {d t o : List Char} (hd : DateText d) (hc : c = 'T' ∨ c = 't' ∨ c = ' ')
      (ht : TimeText t) (ho : OffsetText o) : DateTimeText (d ++ c :: (t ++ o))

end DateTimes

section Strings

-- What follows a backslash.
inductive EscapeText : List Char → Prop
  | plain {c : Char} (hc : (plainEscape? c).isSome) : EscapeText [c]
  | short {s : List Char} (hlen : s.length = 4) (h : s.all fun c => (hexValue? c).isSome) :
      EscapeText ('u' :: s)
  | long {s : List Char} (hlen : s.length = 8) (h : s.all fun c => (hexValue? c).isSome) :
      EscapeText ('U' :: s)

-- What stands between two quotes.
inductive BodyText : List Char → Prop
  | nil : BodyText []
  | text {c : Char} {s : List Char} (hc : isText c = true) (hquote : c ≠ '"') (hescape : c ≠ '\\')
      (h : BodyText s) : BodyText (c :: s)
  | escape {e s : List Char} (he : EscapeText e) (h : BodyText s) : BodyText ('\\' :: (e ++ s))

inductive QuotedText : List Char → Prop
  | basic {s : List Char} (h : BodyText s) : QuotedText ('"' :: (s ++ ['"']))
  | literal {s : List Char} (h : s.all isLiteral) : QuotedText ('\'' :: (s ++ ['\'']))

inductive PartText : List Char → Prop
  | bare {s : List Char} (hne : s ≠ []) (h : s.all isBare) : PartText s
  | quoted {s : List Char} (h : QuotedText s) : PartText s

-- The parts of a key, with a point between two of them.
inductive KeyText : List Char → Prop
  | last {x b : List Char} (hx : PartText x) (hb : b.all isWs) : KeyText (x ++ b)
  | point {x b q s : List Char} (hx : PartText x) (hb : b.all isWs) (hq : q.all isWs)
      (h : KeyText s) : KeyText (x ++ (b ++ '.' :: (q ++ s)))

end Strings

section Values

-- Blanks, line ends and comments.
inductive LayoutText : List Char → Prop
  | nil : LayoutText []
  | blank {c : Char} {s : List Char} (hc : isWs c = true) (h : LayoutText s) : LayoutText (c :: s)
  | newline {e s : List Char} (he : LineEnd e) (h : LayoutText s) : LayoutText (e ++ s)
  | comment {q e s : List Char} (hq : q.all isText) (he : LineEnd e) (h : LayoutText s) :
      LayoutText ('#' :: (q ++ (e ++ s)))

-- The items of an array. A comma may follow the last one.
inductive Items : List (List Char) → List Char → Prop
  | last {b x b' : List Char} (hb : LayoutText b) (hb' : LayoutText b') : Items [x] (b ++ (x ++ b'))
  | lastComma {b x b' b'' : List Char} (hb : LayoutText b) (hb' : LayoutText b')
      (hb'' : LayoutText b'') : Items [x] (b ++ (x ++ (b' ++ ',' :: b'')))
  | comma {b x b' s : List Char} {xs : List (List Char)} (hb : LayoutText b) (hb' : LayoutText b')
      (h : Items xs s) : Items (x :: xs) (b ++ (x ++ (b' ++ ',' :: s)))

-- A key, an equals sign and a value.
inductive Assigns (k v : List Char) : List Char → Prop
  | equals {b : List Char} (hb : b.all isWs) : Assigns k v (k ++ '=' :: (b ++ v))

-- The entries of a table in braces.
inductive Members : List (List Char × List Char) → List Char → Prop
  | last {m : List Char × List Char} {x b : List Char} (hx : Assigns m.1 m.2 x) (hb : b.all isWs) :
      Members [m] (x ++ b)
  | comma {m : List Char × List Char} {ms : List (List Char × List Char)} {x b b' s : List Char}
      (hx : Assigns m.1 m.2 x) (hb : b.all isWs) (hb' : b'.all isWs) (h : Members ms s) :
      Members (m :: ms) (x ++ (b ++ ',' :: (b' ++ s)))

inductive ValueText : List Char → Prop
  | true : ValueText ['t', 'r', 'u', 'e']
  | false : ValueText ['f', 'a', 'l', 's', 'e']
  | numeral {x : List Char} (h : NumeralText x) : ValueText x
  | dateTime {x : List Char} (h : DateTimeText x) : ValueText x
  | string {x : List Char} (h : QuotedText x) : ValueText x
  | emptyArray {b : List Char} (hb : LayoutText b) : ValueText ('[' :: (b ++ [']']))
  | array {xs : List (List Char)} {s : List Char} (hs : Items xs s) (hx : ∀ x ∈ xs, ValueText x) :
      ValueText ('[' :: (s ++ [']']))
  | emptyBraces {b : List Char} (hb : b.all isWs) : ValueText ('\x7b' :: (b ++ ['\x7d']))
  | braces {ms : List (List Char × List Char)} {b s : List Char} (hb : b.all isWs) (hs : Members ms s)
      (hk : ∀ m ∈ ms, KeyText m.1) (hv : ∀ m ∈ ms, ValueText m.2) :
      ValueText ('\x7b' :: (b ++ (s ++ ['\x7d'])))

-- What may stand on a line of its own.
def ExpressionText (x : List Char) : Prop :=
  ∃ k v, KeyText k ∧ ValueText v ∧ Assigns k v x

end Values

section OneLine

variable {p : Char → Bool} {k v x : List Char}

theorem isInline_of_not {c : Char} (hc : p c = true) (hn : p '\n' = false) (hr : p '\r' = false) :
    isInline c = true := by
  have hne : c ≠ '\n' := by
    rintro rfl
    rw [hc] at hn
    cases hn
  have hne' : c ≠ '\r' := by
    rintro rfl
    rw [hc] at hr
    cases hr
  simp [isInline, hne, hne']

theorem all_inline (h : x.all p) (hn : p '\n' = false) (hr : p '\r' = false) : x.all isInline :=
  List.all_eq_true.2 fun c hc => isInline_of_not (List.all_eq_true.1 h c hc) hn hr

theorem MoreDigits.inline (h : MoreDigits p x) (hn : p '\n' = false) (hr : p '\r' = false) :
    x.all isInline := by
  induction h with
  | nil => rfl
  | digit hc _ ih =>
    rw [List.all_cons, isInline_of_not hc hn hr, ih]
    rfl
  | grouped hc _ ih =>
    rw [List.all_cons, List.all_cons, isInline_of_not hc hn hr, ih]
    rfl

theorem DigitText.inline (h : DigitText p x) (hn : p '\n' = false) (hr : p '\r' = false) :
    x.all isInline := by
  cases h with
  | digits hc h =>
    rw [List.all_cons, isInline_of_not hc hn hr, h.inline hn hr]
    rfl

theorem SignText.inline (h : SignText x) : x.all isInline := by
  cases h <;> rfl

theorem WholeText.inline (h : WholeText x) : x.all isInline := by
  cases h with
  | zero => rfl
  | digits hc _ h => exact (DigitText.digits hc h).inline rfl rfl

theorem FractionText.inline (h : FractionText x) : x.all isInline := by
  cases h with
  | none => rfl
  | digits h =>
    rw [List.all_cons, h.inline rfl rfl]
    rfl

theorem ExponentText.inline (h : ExponentText x) : x.all isInline := by
  cases h with
  | none => rfl
  | digits hc hsign h =>
    rw [List.all_cons, List.all_append, hsign.inline, h.inline rfl rfl]
    rcases hc with rfl | rfl <;> rfl

theorem NumeralText.inline (h : NumeralText x) : x.all isInline := by
  cases h with
  | @based c base s hc h =>
    have hmark : isInline c = true := by
      refine isInline_of_not (p := fun c => (baseOf? c).isSome) ?_ rfl rfl
      rw [hc]
      rfl
    rw [List.all_cons, List.all_cons, hmark, h.inline rfl rfl]
    rfl
  | decimal hsign hwhole hfraction hexponent =>
    rw [List.all_append, List.all_append, List.all_append, hsign.inline, hwhole.inline,
      hfraction.inline, hexponent.inline]
    rfl
  | infinite hsign => cases hsign <;> rfl
  | nan hsign => cases hsign <;> rfl

theorem Fixed.inline {n : Nat} (h : Fixed n x) : x.all isInline := all_inline h.digits rfl rfl

theorem DateText.inline (h : DateText x) : x.all isInline := by
  obtain ⟨hyear, hmonth, hday⟩ := h
  rw [List.all_append, List.all_cons, List.all_append, List.all_cons, hyear.inline, hmonth.inline,
    hday.inline]
  rfl

theorem NanosecondText.inline (h : NanosecondText x) : x.all isInline := by
  cases h with
  | none => rfl
  | digits _ h =>
    rw [List.all_cons, all_inline h rfl rfl]
    rfl

theorem TimeText.inline (h : TimeText x) : x.all isInline := by
  obtain ⟨hhour, hminute, hsecond, hnanosecond⟩ := h
  rw [List.all_append, List.all_cons, List.all_append, List.all_cons, List.all_append, hhour.inline,
    hminute.inline, hsecond.inline, hnanosecond.inline]
  rfl

theorem OffsetText.inline (h : OffsetText x) : x.all isInline := by
  cases h with
  | none => rfl
  | utc hc => rcases hc with rfl | rfl <;> rfl
  | minutes hc hhour hminute =>
    rw [List.all_cons, List.all_append, List.all_cons, hhour.inline, hminute.inline]
    rcases hc with rfl | rfl <;> rfl

theorem DateTimeText.inline (h : DateTimeText x) : x.all isInline := by
  cases h with
  | date hd => exact hd.inline
  | time ht => exact ht.inline
  | both hd hc ht ho =>
    rw [List.all_append, List.all_cons, List.all_append, hd.inline, ht.inline, ho.inline]
    rcases hc with rfl | rfl | rfl <;> rfl

theorem EscapeText.inline (h : EscapeText x) : x.all isInline := by
  cases h with
  | plain hc =>
    rw [List.all_cons, isInline_of_not (p := fun c => (plainEscape? c).isSome) hc rfl rfl]
    rfl
  | short _ h =>
    rw [List.all_cons, all_inline h rfl rfl]
    rfl
  | long _ h =>
    rw [List.all_cons, all_inline h rfl rfl]
    rfl

theorem BodyText.inline (h : BodyText x) : x.all isInline := by
  induction h with
  | nil => rfl
  | text hc _ _ _ ih =>
    rw [List.all_cons, isInline_of_not hc rfl rfl, ih]
    rfl
  | escape he _ ih =>
    rw [List.all_cons, List.all_append, he.inline, ih]
    rfl

theorem QuotedText.inline (h : QuotedText x) : x.all isInline := by
  cases h with
  | basic h =>
    rw [List.all_cons, List.all_append, h.inline]
    rfl
  | literal h =>
    rw [List.all_cons, List.all_append, all_inline h rfl rfl]
    rfl

theorem PartText.inline (h : PartText x) : x.all isInline := by
  cases h with
  | bare _ h => exact all_inline h rfl rfl
  | quoted h => exact h.inline

theorem KeyText.inline (h : KeyText k) : k.all isInline := by
  induction h with
  | last hx hb => rw [List.all_append, hx.inline, all_inline hb rfl rfl, Bool.and_self]
  | point hx hb hb' _ ih =>
    rw [List.all_append, List.all_append, List.all_cons, List.all_append, hx.inline,
      all_inline hb rfl rfl, all_inline hb' rfl rfl, ih]
    rfl

end OneLine

section SeveralLines

theorem LayoutText.sameLines_self (h : LayoutText x) : SameLines x x := by
  induction h with
  | nil => exact .nil
  | blank hc _ ih => exact .char (isInline_of_not hc rfl rfl) ih
  | newline he _ ih => exact .ends he he ih
  | comment hq he _ ih =>
    exact .char rfl ((sameLines_refl (all_inline hq rfl rfl)).append (.ends he he ih))

theorem Items.sameLines_self {xs : List (List Char)} {s : List Char} (h : Items xs s)
    (hx : ∀ x ∈ xs, SameLines x x) : SameLines s s := by
  induction h with
  | last hb hb' =>
    exact hb.sameLines_self.append ((hx _ List.mem_cons_self).append hb'.sameLines_self)
  | lastComma hb hb' hb'' =>
    exact hb.sameLines_self.append ((hx _ List.mem_cons_self).append
      (hb'.sameLines_self.append (.char rfl hb''.sameLines_self)))
  | comma hb hb' _ ih =>
    have hrest := ih fun x hxs => hx x (List.mem_cons_of_mem _ hxs)
    exact hb.sameLines_self.append ((hx _ List.mem_cons_self).append
      (hb'.sameLines_self.append (.char rfl hrest)))

theorem Assigns.sameLines_self (hx : Assigns k v x) (hk : KeyText k) (hv : SameLines v v) :
    SameLines x x := by
  obtain ⟨hb⟩ := hx
  have hblanks := sameLines_refl (all_inline hb rfl rfl)
  exact (sameLines_refl hk.inline).append (.char rfl (hblanks.append hv))

theorem Members.sameLines_self {ms : List (List Char × List Char)} {s : List Char} (h : Members ms s)
    (hk : ∀ m ∈ ms, KeyText m.1) (hv : ∀ m ∈ ms, SameLines m.2 m.2) : SameLines s s := by
  have blanks {b : List Char} (hb : b.all isWs) : SameLines b b := sameLines_refl (all_inline hb rfl rfl)
  induction h with
  | last hx hb =>
    exact (hx.sameLines_self (hk _ List.mem_cons_self) (hv _ List.mem_cons_self)).append (blanks hb)
  | comma hx hb hb' _ ih =>
    have hrest := ih (fun m hm => hk m (List.mem_cons_of_mem _ hm)) fun m hm =>
      hv m (List.mem_cons_of_mem _ hm)
    exact (hx.sameLines_self (hk _ List.mem_cons_self) (hv _ List.mem_cons_self)).append
      ((blanks hb).append (.char rfl ((blanks hb').append hrest)))

theorem ValueText.sameLines_self (h : ValueText x) : SameLines x x := by
  induction h with
  | true => exact sameLines_refl rfl
  | false => exact sameLines_refl rfl
  | numeral h => exact sameLines_refl h.inline
  | dateTime h => exact sameLines_refl h.inline
  | string h => exact sameLines_refl h.inline
  | emptyArray hb => exact .char rfl (hb.sameLines_self.append (sameLines_refl rfl))
  | array hs _ ih => exact .char rfl ((hs.sameLines_self ih).append (sameLines_refl rfl))
  | emptyBraces hb =>
    exact .char rfl ((sameLines_refl (all_inline hb rfl rfl)).append (sameLines_refl rfl))
  | braces hb hs hk _ ih =>
    exact .char rfl ((sameLines_refl (all_inline hb rfl rfl)).append
      ((hs.sameLines_self hk ih).append (sameLines_refl rfl)))

-- No line of an expression ends in a CR alone.
theorem ExpressionText.sameLines_self (h : ExpressionText x) : SameLines x x := by
  obtain ⟨k, v, hk, hv, hx⟩ := h
  exact hx.sameLines_self hk hv.sameLines_self

end SeveralLines

end Roster.Toml
