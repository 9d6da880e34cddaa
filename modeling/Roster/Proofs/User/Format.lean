import Roster.Proofs.Json.Value
import Roster.User.Json

namespace Roster.User

open Json

-- The value of a field.
def FieldText (u : User) : Field → List Char → Prop
  | .name, x => StringText u.name x
  | .email, x => StringText u.email x
  | .age, x => x = Nat.toDigits 10 u.age.toNat

-- A member, by what its key says and by the text of its value.
def KeyedMember (m : String × List Char) (x : List Char) : Prop :=
  ∃ k, Spells m.1.toList k ∧ MemberText k m.2 x

def valuesOf (key : String) (ms : List (String × List Char)) : List (List Char) :=
  (ms.filter fun m => m.1 = key).map Prod.snd

-- Either an object with each field once, in any order and among any other members, or a list.
inductive UserText (u : User) : List Char → Prop
  | object {ms : List (String × List Char)} {b t b' : List Char} (hb : Blanks b)
      (ht : Items KeyedMember ms t) (hb' : Blanks b')
      (hname : ∃ x, valuesOf "name" ms = [x] ∧ StringText u.name x)
      (hemail : ∃ x, valuesOf "email" ms = [x] ∧ StringText u.email x)
      (hage : valuesOf "age" ms = [Nat.toDigits 10 u.age.toNat])
      (hothers : ∀ m ∈ ms, m.1 ∉ ["name", "email", "age"] → ValueText m.2) :
      UserText u (b ++ '\x7b' :: (t ++ '\x7d' :: b'))
  | list {b t b' : List Char} (hb : Blanks b)
      (ht : Items (FieldText u) [.name, .email, .age] t) (hb' : Blanks b') :
      UserText u (b ++ '[' :: (t ++ ']' :: b'))

namespace Field

theorem mem_all (f : Field) : f ∈ all := by cases f <;> decide

theorem label_injective {f g : Field} (h : f.label = g.label) : f = g := by
  cases f <;> cases g <;> first | rfl | exact absurd h (by decide)

theorem labelled?_eq_some_iff {key : String} {f : Field} :
    labelled? key = some f ↔ key = f.label := by
  constructor
  · intro h
    have hf := List.find?_some h
    exact (of_decide_eq_true hf).symm
  · rintro rfl
    cases f <;> rfl

theorem forall_ne_label_iff {key : String} :
    (∀ f : Field, key ≠ f.label) ↔ key ∉ ["name", "email", "age"] := by
  simp only [List.mem_cons, List.not_mem_nil, or_false, not_or]
  constructor
  · intro h
    exact ⟨h .name, h .email, h .age⟩
  · rintro ⟨hname, hemail, hage⟩ f
    cases f with
    | name => exact hname
    | email => exact hemail
    | age => exact hage

theorem labelled?_eq_none_iff {key : String} :
    labelled? key = none ↔ ∀ f : Field, key ≠ f.label := by
  rw [Option.eq_none_iff_forall_ne_some]
  simp only [ne_eq, labelled?_eq_some_iff]

end Field

section Values

namespace Slots

def Holds (slots : Slots) (u : User) : Field → Prop
  | .name => slots.name = some u.name
  | .email => slots.email = some u.email
  | .age => slots.age = some u.age

def put (slots : Slots) (u : User) : Field → Slots
  | .name => { slots with name := some u.name }
  | .email => { slots with email := some u.email }
  | .age => { slots with age := some u.age }

variable {slots slots' : Slots} {u : User} {f g : Field} {t : Token} {x : List Char}

theorem has_of_holds (h : slots.Holds u f) : slots.has f = true := by
  cases f <;> exact Option.isSome_iff_exists.2 ⟨_, h⟩

theorem has_empty (f : Field) : ({} : Slots).has f = false := by cases f <;> rfl

theorem holds_put_self : (slots.put u f).Holds u f := by cases f <;> rfl

theorem holds_put_of_ne (h : g ≠ f) : (slots.put u f).Holds u g ↔ slots.Holds u g := by
  cases f <;> cases g <;> first | exact Iff.rfl | exact absurd rfl h

theorem has_put_of_ne (h : g ≠ f) : (slots.put u f).has g = slots.has g := by
  cases f <;> cases g <;> first | rfl | exact absurd rfl h

theorem user_eq_ok_iff : slots.user = .ok u ↔ ∀ f, slots.Holds u f := by
  obtain ⟨name, email, age⟩ := slots
  constructor
  · intro h f
    cases name with
    | none => cases h
    | some name =>
      cases email with
      | none => cases h
      | some email =>
        cases age with
        | none => cases h
        | some age =>
          cases h
          cases f <;> rfl
  · intro h
    obtain rfl : name = some u.name := h .name
    obtain rfl : email = some u.email := h .email
    obtain rfl : age = some u.age := h .age
    rfl

end Slots

theorem readText_eq_ok_iff {t : Token} {s : String} :
    readText t = .ok s ↔ ∃ ps, t = .string ps ∧ textOf? ps = some s := by
  constructor
  · intro h
    unfold readText at h
    split at h
    · split at h
      · rename_i hs
        cases h
        exact ⟨_, rfl, hs⟩
      · cases h
    · cases h
  · rintro ⟨ps, rfl, hs⟩
    simp only [readText, hs]

theorem readAge_of_real? {n : Numeral} {i : Int} {age : UInt32}
    (hn : n.real? = some (.integer i)) (hi : Number.word32? i = some age) :
    readAge (.number n) = .ok age := by
  simp only [readAge, hn, hi]

theorem readAge_eq_ok_iff {t : Token} {age : UInt32} :
    readAge t = .ok age ↔ ∃ n, t = .number n ∧ n.real? = some (.integer age.toNat) := by
  constructor
  · intro h
    unfold readAge at h
    split at h
    · split at h
      · split at h
        · rename_i hn _ _ hi
          cases h
          rw [Number.word32?_eq_some_iff.1 hi] at hn
          exact ⟨_, rfl, hn⟩
        · cases h
      · cases h
    · cases h
  · rintro ⟨n, rfl, hn⟩
    exact readAge_of_real? hn (Number.word32?_eq_some_iff.2 rfl)

namespace Slots

variable {slots slots' : Slots} {u : User} {f g : Field} {t : Token} {x : List Char}

theorem fill_of_fieldText (slots : Slots) (h : FieldText u f x) :
    ∃ t, Spelling t x ∧ slots.fill f t = .ok (slots.put u f) := by
  have text {s : String} (h : StringText s x) : ∃ t, Spelling t x ∧ readText t = .ok s := by
    obtain ⟨ps, hps, hs⟩ := exists_spelling_of_stringText h
    exact ⟨.string ps, hps, readText_eq_ok_iff.2 ⟨ps, rfl, hs⟩⟩
  cases f with
  | name =>
    obtain ⟨t, ht, hs⟩ := text h
    exact ⟨t, ht, by rw [fill, hs]; rfl⟩
  | email =>
    obtain ⟨t, ht, hs⟩ := text h
    exact ⟨t, ht, by rw [fill, hs]; rfl⟩
  | age =>
    obtain rfl : x = Nat.toDigits 10 u.age.toNat := h
    have hlt : u.age.toNat < wordLimit := by
      have := u.age.toNat_lt
      unfold wordLimit UInt64.size
      omega
    obtain ⟨n, hn, hreal⟩ := exists_spelling_of_toDigits hlt
    have hage := readAge_eq_ok_iff.2 ⟨n, rfl, hreal⟩
    exact ⟨_, hn, by rw [fill, hage]; rfl⟩

-- A slot that was filled with the right value was filled from its text.
theorem fieldText_of_fill (hx : Spelling t x) (h : slots.fill f t = .ok slots')
    (hu : slots'.Holds u f) : FieldText u f x ∧ slots' = slots.put u f := by
  have text {s : String} (h : readText t = .ok s) : StringText s x := by
    obtain ⟨ps, rfl, hs⟩ := readText_eq_ok_iff.1 h
    exact stringText_of_spelling hx hs
  cases f with
  | name =>
    obtain ⟨s, hs, rfl⟩ := Except.map_eq_ok_iff.1 h
    obtain rfl : s = u.name := Option.some.inj hu
    exact ⟨text hs, rfl⟩
  | email =>
    obtain ⟨s, hs, rfl⟩ := Except.map_eq_ok_iff.1 h
    obtain rfl : s = u.email := Option.some.inj hu
    exact ⟨text hs, rfl⟩
  | age =>
    obtain ⟨age, hage, rfl⟩ := Except.map_eq_ok_iff.1 h
    obtain rfl : age = u.age := Option.some.inj hu
    obtain ⟨n, rfl, hreal⟩ := readAge_eq_ok_iff.1 hage
    exact ⟨eq_toDigits_of_spelling hx hreal, rfl⟩

theorem has_of_fill (h : slots.fill f t = .ok slots') : slots'.has f = true := by
  cases f <;> obtain ⟨v, -, rfl⟩ := Except.map_eq_ok_iff.1 h <;> rfl

-- A field has its value already, or still gets it, as the only one.
inductive Awaits (slots : Slots) (u : User) (f : Field) : List (List Char) → Prop
  | held (h : slots.Holds u f) : Awaits slots u f []
  | given {x : List Char} (h : slots.has f = false) (hx : FieldText u f x) : Awaits slots u f [x]

-- Together with these members, the values read so far make up the user.
def Supplies (slots : Slots) (u : User) (ms : List (String × List Char)) : Prop :=
  (∀ f : Field, slots.Awaits u f (valuesOf f.label ms)) ∧
    ∀ m ∈ ms, (∀ f : Field, m.1 ≠ f.label) → ValueText m.2

variable {xs : List (List Char)} {ms : List (String × List Char)} {key : String}

theorem awaits_cons_iff :
    slots.Awaits u f (x :: xs) ↔ slots.has f = false ∧ FieldText u f x ∧ xs = [] := by
  constructor
  · rintro ⟨⟩
    exact ⟨‹_›, ‹_›, rfl⟩
  · rintro ⟨h, hx, rfl⟩
    exact .given h hx

theorem Awaits.holds (h : slots.Awaits u f xs) (hf : slots.has f = true) : slots.Holds u f := by
  cases h with
  | held h => exact h
  | given h => exact absurd hf (by rw [h]; decide)

theorem awaits_put_self_iff : (slots.put u f).Awaits u f xs ↔ xs = [] := by
  constructor
  · rintro (_ | ⟨h, -⟩)
    · rfl
    · exact absurd (has_of_holds holds_put_self) (by rw [h]; decide)
  · rintro rfl
    exact .held holds_put_self

theorem awaits_put_of_ne_iff (h : g ≠ f) :
    (slots.put u f).Awaits u g xs ↔ slots.Awaits u g xs := by
  constructor
  · rintro (h' | ⟨h', hx⟩)
    · exact .held ((holds_put_of_ne h).1 h')
    · exact .given (has_put_of_ne h ▸ h') hx
  · rintro (h' | ⟨h', hx⟩)
    · exact .held ((holds_put_of_ne h).2 h')
    · exact .given ((has_put_of_ne h).trans h') hx

theorem supplies_nil_iff : slots.Supplies u [] ↔ slots.user = .ok u := by
  rw [user_eq_ok_iff]
  constructor
  · rintro ⟨h, -⟩ f
    cases h f with
    | held h => exact h
  · intro h
    exact ⟨fun f => .held (h f), nofun⟩

theorem supplies_cons_label_iff :
    slots.Supplies u ((f.label, x) :: ms) ↔
      slots.has f = false ∧ FieldText u f x ∧ (slots.put u f).Supplies u ms := by
  have hself : valuesOf f.label ((f.label, x) :: ms) = x :: valuesOf f.label ms := by
    simp [valuesOf]
  have hother {g : Field} (h : g ≠ f) :
      valuesOf g.label ((f.label, x) :: ms) = valuesOf g.label ms := by
    have hl : f.label ≠ g.label := fun hl => h (Field.label_injective hl).symm
    simp [valuesOf, hl]
  have hvalues : (∀ m ∈ (f.label, x) :: ms, (∀ g : Field, m.1 ≠ g.label) → ValueText m.2) ↔
      ∀ m ∈ ms, (∀ g : Field, m.1 ≠ g.label) → ValueText m.2 := by
    rw [List.forall_mem_cons]
    exact and_iff_right fun h => absurd rfl (h f)
  rw [Supplies, Supplies, hvalues]
  constructor
  · rintro ⟨hall, hv⟩
    have hf := hall f
    rw [hself, awaits_cons_iff] at hf
    refine ⟨hf.1, hf.2.1, fun g => ?_, hv⟩
    by_cases hg : g = f
    · rw [hg]
      exact awaits_put_self_iff.2 hf.2.2
    · rw [awaits_put_of_ne_iff hg, ← hother hg]
      exact hall g
  · rintro ⟨hf, hx, hall, hv⟩
    refine ⟨fun g => ?_, hv⟩
    by_cases hg : g = f
    · rw [hg, hself, awaits_cons_iff]
      exact ⟨hf, hx, awaits_put_self_iff.1 (hall f)⟩
    · rw [hother hg, ← awaits_put_of_ne_iff hg]
      exact hall g

theorem supplies_cons_other_iff (hkey : ∀ f : Field, key ≠ f.label) :
    slots.Supplies u ((key, x) :: ms) ↔ ValueText x ∧ slots.Supplies u ms := by
  have hother (f : Field) : valuesOf f.label ((key, x) :: ms) = valuesOf f.label ms := by
    simp [valuesOf, hkey f]
  simp only [Supplies, hother, List.forall_mem_cons, hkey, ne_eq, not_false_eq_true, implies_true,
    forall_const]
  exact and_left_comm

theorem awaits_empty_iff :
    ({} : Slots).Awaits u f xs ↔ ∃ x, xs = [x] ∧ FieldText u f x := by
  constructor
  · rintro (h | ⟨-, hx⟩)
    · exact absurd (has_of_holds h) (by rw [has_empty]; decide)
    · exact ⟨_, rfl, hx⟩
  · rintro ⟨x, rfl, hx⟩
    exact .given (has_empty f) hx

-- Before anything is read, the members have to bring each field.
theorem supplies_empty_iff :
    ({} : Slots).Supplies u ms ↔
      (∃ x, valuesOf "name" ms = [x] ∧ StringText u.name x) ∧
      (∃ x, valuesOf "email" ms = [x] ∧ StringText u.email x) ∧
      valuesOf "age" ms = [Nat.toDigits 10 u.age.toNat] ∧
      ∀ m ∈ ms, m.1 ∉ ["name", "email", "age"] → ValueText m.2 := by
  simp only [Supplies, awaits_empty_iff, Field.forall_ne_label_iff]
  constructor
  · rintro ⟨hall, hothers⟩
    obtain ⟨x, hx, rfl⟩ := hall .age
    exact ⟨hall .name, hall .email, hx, hothers⟩
  · rintro ⟨hname, hemail, hage, hothers⟩
    refine ⟨fun f => ?_, hothers⟩
    cases f with
    | name => exact hname
    | email => exact hemail
    | age => exact ⟨_, hage, rfl⟩

end Slots

end Values

end Roster.User
