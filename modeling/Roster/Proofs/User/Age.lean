import Mathlib
import Roster.Proofs.Json.Magnitude
import Roster.Proofs.User.Unknown

namespace Roster.User

open Json

-- The texts of the values, that of the age being left to the reader.
def AgedField (name email : String) (x : List Char) : Field → List Char → Prop
  | .name, y => StringText name y
  | .email, y => StringText email y
  | .age, y => y = x

-- A text that is one of a user except for its age, which is written as `x`.
inductive AgedText (name email : String) (x : List Char) : List Char → Prop
  | object {ms : List (String × List Char)} {b t b' : List Char} (hb : Blanks b)
      (ht : Items KeyedMember ms t) (hb' : Blanks b')
      (hname : ∃ y, valuesOf "name" ms = [y] ∧ StringText name y)
      (hemail : ∃ y, valuesOf "email" ms = [y] ∧ StringText email y)
      (hage : valuesOf "age" ms = [x])
      (hothers : ∀ m ∈ ms, m.1 ∉ ["name", "email", "age"] → ValueText m.2) :
      AgedText name email x (b ++ '\x7b' :: (t ++ '\x7d' :: b'))
  | list {b t b' : List Char} (hb : Blanks b)
      (ht : Items (AgedField name email x) [.name, .email, .age] t) (hb' : Blanks b') :
      AgedText name email x (b ++ '[' :: (t ++ ']' :: b'))

variable {name email : String} {age : UInt32} {n : Numeral} {x s : List Char} {p : Problem}

-- What a user text comes to whose age is this numeral.
structure AgeDecides (n : Numeral) (name email : String) (r : Except Problem User) : Prop where
  accepted : (∃ u, r = .ok u) ↔ n.negative = false ∧ n.fraction = none ∧ n.exponent = none ∧
    Number.ofDecimal n.whole ≤ 4294967295
  user : ∀ u, r = .ok u →
    u.name = name ∧ u.email = email ∧ u.age.toNat = Number.ofDecimal n.whole
  outOfRange : ∀ i, n.WritesWord i → ¬(0 ≤ i ∧ i ≤ 4294967295) →
    ∃ m, r = .error (.data m) ∧
      m.message = "invalid value: integer `" ++ toString i ++ "`, expected u32"
  floating : (∀ i, ¬n.WritesWord i) → ∀ d, n.double? = some d →
    ∃ m, r = .error (.data m) ∧
      m.message = "invalid type: floating point `" ++ Number.compactText n.negative d ++
        "`, expected u32"
  overflow : r = .error (.flaw .malformed) ↔ (∀ i, ¬n.WritesWord i) ∧ n.double? = none
  tooLarge : 2 ^ 1024 + 2 ^ 972 ≤ n.magnitude → r = .error (.flaw .malformed)
  notTooLarge : n.magnitude ≤ 2 ^ 1024 - 3 * 2 ^ 971 → r ≠ .error (.flaw .malformed)

section Read

theorem userText_of_agedText (h : AgedText name email (Nat.toDigits 10 age.toNat) s) :
    UserText ⟨name, email, age⟩ s := by
  cases h with
  | object hb ht hb' hname hemail hage hothers =>
    exact .object hb ht hb' hname hemail hage hothers
  | list hb ht hb' =>
    have hfield : AgedField name email (Nat.toDigits 10 age.toNat) =
        FieldText ⟨name, email, age⟩ := by
      funext f y
      cases f <;> rfl
    rw [hfield] at ht
    exact .list hb ht hb'

end Read

section Refused

namespace Reading

variable {slots : Slots} {t : Token} {b : List Char}

theorem read_refused {r : Reading} (hx : Spelling t x) (hs : Ends t s) (h : r.step t = .error p) :
    r.read (x ++ s) = .error p := by
  rw [read_unit hx hs, h]
  rfl

theorem fill_age_eq_error (slots : Slots) (h : readAge t = .error p) :
    slots.fill .age t = .error p := by
  rw [Slots.fill, h]
  rfl

-- The members with this age, which makes them those of a user.
def withAge (y : List Char) (m : String × List Char) : String × List Char :=
  if m.1 = "age" then (m.1, y) else m

theorem valuesOf_withAge (key : String) (y : List Char) (ms : List (String × List Char)) :
    valuesOf key (ms.map (withAge y)) =
      (valuesOf key ms).map fun v => if key = "age" then y else v := by
  have hkey (m : String × List Char) : (withAge y m).1 = m.1 := by
    unfold withAge
    split_ifs <;> rfl
  have hvalue (m : String × List Char) : (withAge y m).2 = if m.1 = "age" then y else m.2 := by
    unfold withAge
    split_ifs <;> rfl
  simp only [valuesOf, List.filter_map, List.map_map, Function.comp_def, hkey, hvalue]
  refine List.map_congr_left fun m hm => ?_
  rw [of_decide_eq_true (List.mem_filter.1 hm).2]

theorem supplies_withAge (age : UInt32) {ms : List (String × List Char)}
    (hname : ∃ y, valuesOf "name" ms = [y] ∧ StringText name y)
    (hemail : ∃ y, valuesOf "email" ms = [y] ∧ StringText email y)
    (hage : valuesOf "age" ms = [x])
    (hothers : ∀ m ∈ ms, m.1 ∉ ["name", "email", "age"] → ValueText m.2) :
    ({} : Slots).Supplies ⟨name, email, age⟩
      (ms.map (withAge (Nat.toDigits 10 age.toNat))) := by
  have hother {key : String} (hkey : key ≠ "age") (y : List Char) :
      valuesOf key (ms.map (withAge y)) = valuesOf key ms := by
    simp [valuesOf_withAge, hkey]
  rw [Slots.supplies_empty_iff, hother (by decide), hother (by decide), valuesOf_withAge, hage]
  refine ⟨hname, hemail, rfl, fun m hm hkey => ?_⟩
  obtain ⟨m, hm', rfl⟩ := List.mem_map.1 hm
  have hne : m.1 ≠ "age" := by
    intro he
    rw [withAge, if_pos he, he] at hkey
    exact hkey (by decide)
  rw [withAge, if_neg hne] at hkey ⊢
  exact hothers m hm' hkey

-- The age is where reading ends.
theorem read_refused_member {m : String × List Char} {ms : List (String × List Char)} {u : User}
    {y z : List Char} (hm : KeyedMember m z) (hx : Spelling (.number n) x)
    (hage : readAge (.number n) = .error p) (hkey : m.1 = "age")
    (hvalues : valuesOf "age" (m :: ms) = [x])
    (h : slots.Supplies u ((m :: ms).map (withAge y))) (hs : EndsNumeral s) :
    (key slots).read (z ++ s) = .error p := by
  obtain ⟨label, v⟩ := m
  obtain rfl : label = "age" := hkey
  obtain ⟨k, hk, hz⟩ := hm
  obtain ⟨rfl, -⟩ : v = x ∧ _ := List.cons.inj hvalues
  have hfree := ((Slots.supplies_cons_label_iff (f := .age)).1 h).1
  have hstep : (value slots (some .age)).step (.number n) = .error p := by
    rw [step, fill_age_eq_error slots hage]
    rfl
  rw [read_key hk hz]
  · exact read_refused hx (fun _ _ => hs) hstep
  · intro f hf
    obtain rfl : Field.age = f := Option.some.inj hf
    exact hfree

theorem read_refused_members {ms : List (String × List Char)} {u : User} {y : List Char}
    (hms : Items KeyedMember ms s) (hx : Spelling (.number n) x)
    (hage : readAge (.number n) = .error p) (hvalues : valuesOf "age" ms = [x])
    (h : slots.Supplies u (ms.map (withAge y))) (b : List Char) :
    (key slots).read (s ++ '\x7d' :: b) = .error p := by
  have other {m : String × List Char} {ms : List (String × List Char)} (hkey : m.1 ≠ "age") :
      valuesOf "age" (m :: ms) = valuesOf "age" ms ∧
        (m :: ms).map (withAge y) = m :: ms.map (withAge y) := by
    simp [valuesOf, withAge, hkey]
  induction hms generalizing slots with
  | @one m b₁ z b₂ hb₁ hm hb₂ =>
    have hkey : m.1 = "age" := by
      by_contra hne
      rw [(other hne).1] at hvalues
      cases hvalues
    have hsplit : b₁ ++ (z ++ b₂) ++ '\x7d' :: b = b₁ ++ (z ++ (b₂ ++ '\x7d' :: b)) := by simp
    have hends := endsNumeral_of_mark (m := .closeBrace) (c := '\x7d') rfl hb₂ b
    rw [hsplit, read_blanks hb₁, read_refused_member hm hx hage hkey hvalues h hends]
  | @cons m ms b₁ z b₂ t hb₁ hm hb₂ _ ih =>
    have hsplit : b₁ ++ (z ++ (b₂ ++ ',' :: t)) ++ '\x7d' :: b =
        b₁ ++ (z ++ (b₂ ++ ',' :: (t ++ '\x7d' :: b))) := by simp
    have hends := endsNumeral_of_mark (m := .comma) (c := ',') rfl hb₂ (t ++ '\x7d' :: b)
    rw [hsplit]
    by_cases hkey : m.1 = "age"
    · rw [read_blanks hb₁, read_refused_member hm hx hage hkey hvalues h hends]
    · rw [(other hkey).2] at h
      obtain ⟨slots', hms, hread⟩ := exists_read_member hm h
      rw [read_item_mark (m := .comma) hb₁ hb₂ rfl hread rfl]
      exact ih ((other hkey).1 ▸ hvalues) hms

-- In a list the age comes last.
theorem read_refused_elements (hs : Items (AgedField name email x) [.name, .email, .age] s)
    (hx : Spelling (.number n) x) (hage : readAge (.number n) = .error p) (b : List Char) :
    firstElement.read (s ++ ']' :: b) = .error p := by
  cases hs with
  | @cons _ _ b₁ y b₂ t hb₁ hy hb₂ hs =>
  cases hs with
  | @cons _ _ b₃ z b₄ t hb₃ hz hb₄ hs =>
  cases hs with
  | cons _ _ _ h => exact absurd rfl h.ne_nil
  | @one _ b₅ w b₆ hb₅ hw hb₆ =>
    obtain rfl : w = x := hw
    let u : User := ⟨name, email, 0⟩
    let slots : Slots := ({} : Slots).put u .name
    obtain ⟨t₁, ht₁, hfill₁⟩ := ({} : Slots).fill_of_fieldText (u := u) (f := .name) hy
    obtain ⟨t₂, ht₂, hfill₂⟩ := slots.fill_of_fieldText (u := u) (f := .email) hz
    have hfirst : firstElement.step t₁ = .ok (.afterElement slots 1) := by
      rw [step, if_neg, readElement]
      · simp only [Field.all, List.getElem?_cons_zero, hfill₁]
        rfl
      · rintro rfl
        cases hfill₁
    have hrefused : (element (slots.put u .email) 2).step (.number n) = .error p := by
      rw [step, readElement]
      simp only [Field.all, List.getElem?_cons_succ, List.getElem?_cons_zero]
      rw [fill_age_eq_error _ hage]
      rfl
    have hends := endsNumeral_of_mark (m := .closeBracket) (c := ']') rfl hb₆ b
    simp only [List.append_assoc, List.cons_append]
    rw [read_item_mark (m := .comma) hb₁ hb₂ rfl
        (fun _ hs => read_spelling ht₁ (fun _ _ => hs) hfirst) rfl,
      read_item_mark (m := .comma) hb₃ hb₄ rfl (read_element rfl ht₂ hfill₂) rfl,
      read_blanks hb₅, read_refused hx (fun _ _ => hends) hrefused]

end Reading

theorem ofJson_of_agedText {text : String} (hx : NumberText n x)
    (h : AgedText name email x text.toList) :
    ofJson text = (readAge (.number n)).map fun age => ⟨name, email, age⟩ := by
  cases hage : readAge (.number n) with
  | ok age =>
    obtain ⟨n', hn', hreal⟩ := readAge_eq_ok_iff.1 hage
    cases hn'
    rw [eq_toDigits_of_spelling (.number hx) hreal] at h
    exact ofJson_of_userText (userText_of_agedText h)
  | error p =>
    rw [ofJson_eq]
    generalize text.toList = s at h
    cases h with
    | @object ms b t b' hb ht hb' hname hemail hvalues hothers =>
      have hsupplies := Reading.supplies_withAge 0 hname hemail hvalues hothers
      have hfirst : Reading.firstKey.read (t ++ '\x7d' :: b') =
          (Reading.key {}).read (t ++ '\x7d' :: b') := by
        refine Reading.read_firstKey_items ht (fun m _ y hm => ?_) _
        obtain ⟨k, hk, hy⟩ := hm
        obtain ⟨ps, hps, -⟩ := exists_inside_of_spells hk
        exact ⟨ps, k, m.2, hps, hy⟩
      rw [Reading.read_blanks hb, Reading.read_mark (m := .openBrace) rfl rfl, hfirst,
        Reading.read_refused_members ht (.number hx) hage hvalues hsupplies]
      rfl
    | @list b t b' hb ht hb' =>
      rw [Reading.read_blanks hb, Reading.read_mark (m := .openBracket) rfl rfl,
        Reading.read_refused_elements ht (.number hx) hage]
      rfl

end Refused

section Numerals

theorem readAge_of_double {negative : Bool} {d : Number.Binary64}
    (h : n.real? = some (.double negative d)) :
    readAge (.number n) =
      .error (.data (.wrongType (.floating (Number.compactText negative d)) "u32")) := by
  simp only [readAge, h, refuse, Token.found?, Option.map_some, Real.found]

theorem readAge_of_none (h : n.real? = none) :
    readAge (.number n) = .error (.flaw .malformed) := by
  simp only [readAge, h, refuse, Token.found?, Option.map_none]

theorem message_outOfRange (i : Int) :
    (Mismatch.outOfRange (.integer i) "u32").message =
      "invalid value: integer `" ++ toString i ++ "`, expected u32" := by
  have hmessage : (Mismatch.outOfRange (.integer i) "u32").message =
      "invalid value: " ++ ("integer `" ++ toString i ++ "`") ++ ", expected " ++ "u32" := rfl
  have hfront : "invalid value: integer `" = "invalid value: " ++ "integer `" := by decide
  have hbehind : "`, expected u32" = "`" ++ (", expected " ++ "u32") := by decide
  rw [hmessage, hfront, hbehind]
  simp only [String.append_assoc]

theorem message_floating (s : String) :
    (Mismatch.wrongType (.floating s) "u32").message =
      "invalid type: floating point `" ++ s ++ "`, expected u32" := by
  have hmessage : (Mismatch.wrongType (.floating s) "u32").message =
      "invalid type: " ++ ("floating point `" ++ s ++ "`") ++ ", expected " ++ "u32" := rfl
  have hfront : "invalid type: floating point `" = "invalid type: " ++ "floating point `" := by decide
  have hbehind : "`, expected u32" = "`" ++ (", expected " ++ "u32") := by decide
  rw [hmessage, hfront, hbehind]
  simp only [String.append_assoc]

theorem not_writesWord_of_tooLarge (h : 2 ^ 1024 + 2 ^ 972 ≤ n.magnitude) (i : Int) :
    ¬n.WritesWord i := by
  intro hi
  have hle : |(i : ℚ)| ≤ 2 ^ 64 := by
    have hlow : -2 ^ 63 ≤ (i : ℚ) := by exact_mod_cast hi.low
    have hhigh : (i : ℚ) ≤ 2 ^ 64 - 1 := by exact_mod_cast hi.high
    rw [abs_le]
    constructor <;> linarith
  rw [magnitude_of_writes hi.toWrites] at h
  exact absurd (h.trans hle) word_lt_large_bound.not_ge

theorem readAge_cases (hx : NumberText n x) :
    (∃ age : UInt32, n.WritesWord age.toNat ∧ readAge (.number n) = .ok age) ∨
      (∃ i, n.WritesWord i ∧ ¬(0 ≤ i ∧ i ≤ 4294967295) ∧
        readAge (.number n) = .error (.data (.outOfRange (.integer i) "u32"))) ∨
      (∀ i, ¬n.WritesWord i) ∧ ((∃ d, n.double? = some d ∧ readAge (.number n) =
          .error (.data (.wrongType (.floating (Number.compactText n.negative d)) "u32"))) ∨
        n.double? = none ∧ readAge (.number n) = .error (.flaw .malformed)) := by
  by_cases hword : ∃ i, n.WritesWord i
  · obtain ⟨i, hi⟩ := hword
    have hreal := (Numeral.real?_eq_integer_iff hx).2 hi
    cases hage : Number.word32? i with
    | some age =>
      rw [Number.word32?_eq_some_iff.1 hage] at hi
      exact .inl ⟨age, hi, readAge_of_real? hreal hage⟩
    | none =>
      have hout : ¬(0 ≤ i ∧ i ≤ 4294967295) := by
        rintro ⟨hlow, hhigh⟩
        have hsome : Number.word32? i = some (UInt32.ofNat i.toNat) :=
          if_pos ⟨hlow, Int.lt_of_le_of_lt hhigh (by decide)⟩
        rw [hage] at hsome
        cases hsome
      refine .inr (.inl ⟨i, hi, hout, ?_⟩)
      simp only [readAge, hreal, hage]
  · rw [not_exists] at hword
    refine .inr (.inr ⟨hword, ?_⟩)
    have hreal : n.real? = n.double?.map (.double n.negative) :=
      Numeral.real?_eq_double fun i hi => hword i ((Numeral.real?_eq_integer_iff hx).1 hi)
    cases hdouble : n.double? with
    | some d =>
      rw [hdouble, Option.map_some] at hreal
      exact .inl ⟨d, rfl, readAge_of_double hreal⟩
    | none =>
      rw [hdouble, Option.map_none] at hreal
      exact .inr ⟨rfl, readAge_of_none hreal⟩

end Numerals

section Answers

theorem ageDecides_ok (hx : NumberText n x) (hage : n.WritesWord age.toNat) :
    AgeDecides n name email (.ok ⟨name, email, age⟩) := by
  have hlt := age.toNat_lt
  obtain ⟨hsign, hfraction, hexponent, hwhole⟩ :=
    (Numeral.writesWord_natCast_iff hx (hlt.trans (by decide))).1 hage
  exact {
    accepted := iff_of_true ⟨_, rfl⟩ ⟨hsign, hfraction, hexponent, by omega⟩
    user := by
      rintro u ⟨⟩
      exact ⟨rfl, rfl, hwhole.symm⟩
    outOfRange := fun i hi hout => by
      rw [hi.unique hage.toWrites] at hout
      omega
    floating := fun hword => absurd hage (hword _)
    overflow := iff_of_false nofun fun h => h.1 _ hage
    tooLarge := fun h => absurd hage (not_writesWord_of_tooLarge h _)
    notTooLarge := fun _ => nofun }

-- An unsigned integer that is not accepted is too large for an age.
theorem not_unsigned (hx : NumberText n x)
    (hout : ∀ i, n.WritesWord i → ¬(0 ≤ i ∧ i ≤ 4294967295)) :
    ¬(n.negative = false ∧ n.fraction = none ∧ n.exponent = none ∧
      Number.ofDecimal n.whole ≤ 4294967295) := by
  rintro ⟨hsign, hfraction, hexponent, hle⟩
  have hword : n.WritesWord (Number.ofDecimal n.whole : Nat) :=
    (Numeral.writesWord_natCast_iff hx (hle.trans_lt (by decide))).2
      ⟨hsign, hfraction, hexponent, rfl⟩
  exact hout _ hword (by omega)

theorem ageDecides_outOfRange {i : Int} (hx : NumberText n x) (hi : n.WritesWord i)
    (hout : ¬(0 ≤ i ∧ i ≤ 4294967295)) :
    AgeDecides n name email (.error (.data (.outOfRange (.integer i) "u32"))) where
  accepted := iff_of_false nofun (not_unsigned hx fun _ hj => hj.unique hi.toWrites ▸ hout)
  user := nofun
  outOfRange := fun _ hj _ => ⟨_, rfl, hj.unique hi.toWrites ▸ message_outOfRange i⟩
  floating := fun hword => absurd hi (hword i)
  overflow := iff_of_false nofun fun h => h.1 i hi
  tooLarge := fun h => absurd hi (not_writesWord_of_tooLarge h i)
  notTooLarge := fun _ => nofun

theorem ageDecides_floating {d : Number.Binary64} (hx : NumberText n x)
    (hword : ∀ i, ¬n.WritesWord i) (hd : n.double? = some d) :
    AgeDecides n name email
      (.error (.data (.wrongType (.floating (Number.compactText n.negative d)) "u32"))) where
  accepted := iff_of_false nofun (not_unsigned hx fun i hi => absurd hi (hword i))
  user := nofun
  outOfRange := fun i hi => absurd hi (hword i)
  floating := fun _ d' hd' => by
    obtain rfl : d = d' := Option.some.inj (hd.symm.trans hd')
    exact ⟨_, rfl, message_floating _⟩
  overflow := iff_of_false nofun fun h => Option.some_ne_none d (hd.symm.trans h.2)
  tooLarge := fun h => absurd (hd.symm.trans (double?_eq_none hx h)) (Option.some_ne_none d)
  notTooLarge := fun _ => nofun

theorem ageDecides_overflow (hx : NumberText n x) (hword : ∀ i, ¬n.WritesWord i)
    (hd : n.double? = none) : AgeDecides n name email (.error (.flaw .malformed)) where
  accepted := iff_of_false nofun (not_unsigned hx fun i hi => absurd hi (hword i))
  user := nofun
  outOfRange := fun i hi => absurd hi (hword i)
  floating := fun _ d hd' => absurd (hd'.symm.trans hd) (Option.some_ne_none d)
  overflow := iff_of_true rfl ⟨hword, hd⟩
  tooLarge := fun _ => rfl
  notTooLarge := fun h => by
    obtain ⟨d, hd'⟩ := exists_double? hx h
    exact absurd (hd'.symm.trans hd) (Option.some_ne_none d)

-- Where nothing else is wrong, the age alone decides whether there is a user, and which problem is
-- found instead.
theorem ofJson_age {text : String} (hx : NumberText n x)
    (htext : AgedText name email x text.toList) : AgeDecides n name email (ofJson text) := by
  rw [ofJson_of_agedText hx htext]
  rcases readAge_cases hx with ⟨age, hage, heq⟩ | ⟨i, hi, hout, heq⟩ |
    ⟨hword, ⟨d, hd, heq⟩ | ⟨hd, heq⟩⟩
  · rw [heq]
    exact ageDecides_ok hx hage
  · rw [heq]
    exact ageDecides_outOfRange hx hi hout
  · rw [heq]
    exact ageDecides_floating hx hword hd
  · rw [heq]
    exact ageDecides_overflow hx hword hd

theorem agedText_written (name email : String) (x : List Char) :
    AgedText name email x ('\x7b' :: (writeString "name" ++ ':' :: (writeString name ++ ',' ::
      (writeString "email" ++ ':' :: (writeString email ++ ',' ::
        (writeString "age" ++ ':' :: (x ++ ['\x7d']))))))) := by
  have hage := Items.one .nil (keyedMember_written "age" x) .nil
  have hemail := Items.cons .nil (keyedMember_written "email" (writeString email)) .nil hage
  have hname := Items.cons .nil (keyedMember_written "name" (writeString name)) .nil hemail
  have htext := @AgedText.object name email x _ [] _ [] .nil hname .nil
    ⟨_, rfl, stringText_writeString name⟩ ⟨_, rfl, stringText_writeString email⟩ rfl (by simp)
  simpa using htext

-- The least integer that is not taken for a double.
theorem ofJson_age_leastWord :
    ∃ m, ofJson "\x7b\"name\":\"A\",\"email\":\"a@x\",\"age\":-9223372036854775808\x7d" =
        .error (.data m) ∧
      m.message = "invalid value: integer `-9223372036854775808`, expected u32" := by
  let n : Numeral := ⟨true, "9223372036854775808".toList, none, none⟩
  have hdigits : Digits "9223372036854775808".toList := ⟨nofun, by simp⟩
  have hw : WholeText "9223372036854775808".toList := .row (by decide) hdigits
  have hx : NumberText n "-9223372036854775808".toList := .negative hw .absent .absent
  have hword : n.WritesWord (-9223372036854775808) :=
    ⟨⟨rfl, rfl, by decide, by decide⟩, by decide, by decide⟩
  exact (ofJson_age hx (agedText_written "A" "a@x" _)).outOfRange _ hword (by decide)

-- Less than the greatest double, and yet the product of its rounded factors overflows.
theorem ofJson_age_belowGreatest :
    ∃ n, NumberText n "1.797693134862315708e308".toList ∧
      n.magnitude < Number.Binary64.toRat ⟨2 ^ 53 - 1, Number.Binary64.maxExp⟩ ∧
      AgedText "A" "a@x" "1.797693134862315708e308".toList
        "\x7b\"name\":\"A\",\"email\":\"a@x\",\"age\":1.797693134862315708e308\x7d".toList ∧
      ofJson "\x7b\"name\":\"A\",\"email\":\"a@x\",\"age\":1.797693134862315708e308\x7d" =
        .error (.flaw .malformed) := by
  let n : Numeral := ⟨false, ['1'], some "797693134862315708".toList, some (false, "308".toList)⟩
  have hdecimals : Digits "797693134862315708".toList := ⟨nofun, by simp⟩
  have hpower : Digits "308".toList := ⟨nofun, by simp⟩
  have hw : WholeText ['1'] := .row (by decide) ⟨nofun, by simp⟩
  have hf : FractionText n.fraction ".797693134862315708".toList := .present hdecimals
  have he : ExponentText n.exponent "e308".toList := .plain (.inl rfl) hpower
  have hx : NumberText n "1.797693134862315708e308".toList := .plain hw hf he
  have hdigits : Number.ofDecimal (n.whole ++ n.decimals) = 1797693134862315708 := by decide +kernel
  have hplaces : n.power - n.decimals.length = (290 : Nat) := by decide +kernel
  have hdouble : n.double? = none := by decide +kernel
  have hreal : n.real? = n.double?.map (Real.double false) := rfl
  have htext := agedText_written "A" "a@x" "1.797693134862315708e308".toList
  have compare {a b k l : Nat} (h : a * 10 ^ k < b * 2 ^ l) :
      (a : ℚ) * 10 ^ (k : Int) < b * 2 ^ (l : Int) := by
    rw [zpow_natCast, zpow_natCast]
    exact_mod_cast h
  refine ⟨n, hx, ?_, htext, ?_⟩
  · rw [Numeral.magnitude, hdigits, hplaces, Number.Binary64.toRat_eq]
    exact compare (l := 971) (by decide +kernel)
  · rw [hdouble, Option.map_none] at hreal
    rw [ofJson_of_agedText hx htext, readAge_of_none hreal]
    rfl

end Answers

end Roster.User
