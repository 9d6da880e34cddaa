import Roster.Proofs.Json.Scan

namespace Roster.Json

-- Whole items, each with a comma behind it, and the blanks in front of the next one.
inductive Fronts (Item : List Char → Prop) : List Char → Prop
  | blanks {b : List Char} (hb : Blanks b) : Fronts Item b
  | cons {b x b' s : List Char} (hb : Blanks b) (hx : Item x) (hb' : Blanks b')
      (h : Fronts Item s) : Fronts Item (b ++ (x ++ (b' ++ ',' :: s)))

-- A key with its colon, up to the value of its member.
inductive KeyText (k : List Char) : List Char → Prop
  | colon {b b' : List Char} (hb : Blanks b) (hb' : Blanks b') :
      KeyText k ('"' :: (k ++ '"' :: (b ++ ':' :: b')))

-- A value that is cut inside a number: the value itself, or one that it holds at any depth.
inductive CutsNumber : List Char → List Char → Prop
  | number {n : Numeral} {p q s : List Char} (h : NumberText n (p ++ q)) (hp : p ≠ [])
      (hq : q ≠ []) (hs : EndsNumeral s) : CutsNumber p (q ++ s)
  | list {f p q : List Char} (hf : Fronts ValueText f) (h : CutsNumber p q) :
      CutsNumber ('[' :: (f ++ p)) q
  | object {f k x p q : List Char} (hf : Fronts (ItemOf ValueText .object) f)
      (hk : ∃ ps, Inside ps k) (hx : KeyText k x) (h : CutsNumber p q) :
      CutsNumber ('\x7b' :: (f ++ (x ++ p))) q

-- An object that is cut inside a number of the value of a member whose key is no field.
inductive CutsUnknownNumber : List Char → List Char → Prop
  | member {b f k x p q : List Char} {label : String} (hb : Blanks b)
      (hf : Fronts (ItemOf ValueText .object) f) (hk : Spells label.toList k)
      (hlabel : label ∉ ["name", "email", "age"]) (hx : KeyText k x) (h : CutsNumber p q) :
      CutsUnknownNumber (b ++ '\x7b' :: (f ++ (x ++ p))) q

variable {p q s : List Char} {k : Bracket}

theorem endsNumeral_nil : EndsNumeral [] := nofun

theorem EndsNumeral.append {r : List Char} (hr : EndsNumeral r) (hs : EndsNumeral s) :
    EndsNumeral (r ++ s) := by
  cases r with
  | nil => exact hs
  | cons c r => exact hr

theorem EndsNumeral.of_append (h : EndsNumeral (p ++ q)) : EndsNumeral p := by
  cases p with
  | nil => nofun
  | cons c p => exact h

theorem endsNumeral_of_blanks {b : List Char} (hb : Blanks b) : EndsNumeral b := by
  have h := endsNumeral_of_mark (c := ',') rfl hb []
  exact h.of_append

theorem CutsNumber.extend (h : CutsNumber p q) (hs : EndsNumeral s) : CutsNumber p (q ++ s) := by
  induction h with
  | number h hp hq hr =>
    rw [List.append_assoc]
    exact .number h hp hq (hr.append hs)
  | list hf _ ih => exact .list hf ih
  | object hf hk hx _ ih => exact .object hf hk hx ih

theorem CutsUnknownNumber.extend (h : CutsUnknownNumber p q) (hs : EndsNumeral s) :
    CutsUnknownNumber p (q ++ s) := by
  cases h with
  | member hb hf hk hlabel hx h => exact .member hb hf hk hlabel hx (h.extend hs)

-- The same for an item between these brackets, with what is demanded of the key of a member.
inductive CutsItem (Key : List Char → Prop) : Bracket → List Char → List Char → Prop
  | element {p q : List Char} (h : CutsNumber p q) : CutsItem Key .list p q
  | member {k x p q : List Char} (hk : Key k) (hx : KeyText k x) (h : CutsNumber p q) :
      CutsItem Key .object (x ++ p) q

-- A cut in one of several items.
def CutsItems (Key : List Char → Prop) (k : Bracket) (p q : List Char) : Prop :=
  ∃ f p', p = f ++ p' ∧ Fronts (ItemOf ValueText k) f ∧ CutsItem Key k p' q

variable {Key : List Char → Prop}

theorem CutsItem.extend (h : CutsItem Key k p q) (hs : EndsNumeral s) :
    CutsItem Key k p (q ++ s) := by
  cases h with
  | element h => exact .element (h.extend hs)
  | member hk hx h => exact .member hk hx (h.extend hs)

theorem CutsItem.behind_blanks {b : List Char} (h : CutsItem Key k p q) (hb : Blanks b) :
    CutsItems Key k (b ++ p) q :=
  ⟨b, p, rfl, .blanks hb, h⟩

theorem CutsItems.behind_item {b x b' : List Char} (h : CutsItems Key k p q) (hb : Blanks b)
    (hx : ItemOf ValueText k x) (hb' : Blanks b') :
    CutsItems Key k (b ++ (x ++ (b' ++ ',' :: p))) q := by
  obtain ⟨f, p', rfl, hf, hcut⟩ := h
  exact ⟨b ++ (x ++ (b' ++ ',' :: f)), p', by simp, .cons hb hx hb' hf, hcut⟩

theorem CutsItems.extend (h : CutsItems Key k p q) (hs : EndsNumeral s) :
    CutsItems Key k p (q ++ s) := by
  obtain ⟨f, p', rfl, hf, hcut⟩ := h
  exact ⟨f, p', rfl, hf, hcut.extend hs⟩

theorem cutsNumber_of_items (h : CutsItems (fun k => ∃ ps, Inside ps k) k p q) :
    CutsNumber (k.opening :: p) q := by
  obtain ⟨f, p', rfl, hf, hcut⟩ := h
  cases hcut with
  | element h => exact .list hf h
  | member hk hx h => exact .object hf hk hx h

-- A key that is no field's.
def OtherKey (k : List Char) : Prop :=
  ∃ label : String, Spells label.toList k ∧ label ∉ ["name", "email", "age"]

theorem cutsUnknownNumber_of_items {b : List Char} (hb : Blanks b)
    (h : CutsItems OtherKey .object p q) :
    CutsUnknownNumber (b ++ '\x7b' :: p) q := by
  obtain ⟨f, p', rfl, hf, hcut⟩ := h
  cases hcut with
  | member hk hx h =>
    obtain ⟨label, hlabel, hother⟩ := hk
    exact .member hb hf hlabel hother hx h

end Roster.Json
