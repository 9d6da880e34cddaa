import Roster.Json.Skip

-- The texts of JSON values, told without a reader.

namespace Roster.Json

def Blanks (s : List Char) : Prop := ∀ c ∈ s, c ∈ [' ', '\t', '\n', '\r']

def Digits (s : List Char) : Prop := s ≠ [] ∧ ∀ c ∈ s, c.isDigit = true

-- A zero stands alone.
inductive WholeText : List Char → Prop
  | zero : WholeText ['0']
  | row {d : Char} {ds : List Char} (h0 : d ≠ '0') (h : Digits (d :: ds)) : WholeText (d :: ds)

inductive FractionText : Option (List Char) → List Char → Prop
  | absent : FractionText none []
  | present {ds : List Char} (h : Digits ds) : FractionText (some ds) ('.' :: ds)

inductive ExponentText : Option (Bool × List Char) → List Char → Prop
  | absent : ExponentText none []
  | plain {e : Char} {ds : List Char} (he : e = 'e' ∨ e = 'E') (h : Digits ds) :
      ExponentText (some (false, ds)) (e :: ds)
  | plus {e : Char} {ds : List Char} (he : e = 'e' ∨ e = 'E') (h : Digits ds) :
      ExponentText (some (false, ds)) (e :: '+' :: ds)
  | minus {e : Char} {ds : List Char} (he : e = 'e' ∨ e = 'E') (h : Digits ds) :
      ExponentText (some (true, ds)) (e :: '-' :: ds)

inductive NumberText : Numeral → List Char → Prop
  | plain {w x y : List Char} {f : Option (List Char)} {e : Option (Bool × List Char)}
      (hw : WholeText w) (hf : FractionText f x) (he : ExponentText e y) :
      NumberText ⟨false, w, f, e⟩ (w ++ (x ++ y))
  | negative {w x y : List Char} {f : Option (List Char)} {e : Option (Bool × List Char)}
      (hw : WholeText w) (hf : FractionText f x) (he : ExponentText e y) :
      NumberText ⟨true, w, f, e⟩ ('-' :: (w ++ (x ++ y)))

def HexDigit (n : Nat) (c : Char) : Prop := n < 16 ∧ (c = n.digitChar ∨ c = n.digitChar.toUpper)

inductive HexCode : Nat → List Char → Prop
  | digits {a b c d : Nat} {p q r s : Char} (ha : HexDigit a p) (hb : HexDigit b q)
      (hc : HexDigit c r) (hd : HexDigit d s) :
      HexCode (((a * 16 + b) * 16 + c) * 16 + d) [p, q, r, s]

-- Each with the character that it stands for behind a backslash.
def namedEscapes : List (Char × Char) :=
  [('"', '"'), ('\\', '\\'), ('/', '/'), ('b', '\x08'), ('f', '\x0c'), ('n', '\n'), ('r', '\r'),
    ('t', '\t')]

-- What stands for a character between the quotes of a string, or for one half of a surrogate pair.
inductive PartText : Piece → List Char → Prop
  | raw {c : Char} (hq : c ≠ '"') (hb : c ≠ '\\') (hc : 0x20 ≤ c.toNat) : PartText (.char c) [c]
  | named {c d : Char} (h : (c, d) ∈ namedEscapes) : PartText (.char d) ['\\', c]
  | code {n : Nat} {s : List Char} (h : HexCode n s) (hn : n < 0xD800 ∨ 0xE000 ≤ n) :
      PartText (.char (Char.ofNat n)) ('\\' :: 'u' :: s)
  | half {n : Nat} {s : List Char} (h : HexCode n s) (hlow : 0xD800 ≤ n) (hhigh : n < 0xE000) :
      PartText (.half n) ('\\' :: 'u' :: s)

-- A row of parts, whatever halves are among them.
inductive Inside : List Piece → List Char → Prop
  | nil : Inside [] []
  | cons {p : Piece} {ps : List Piece} {x t : List Char} (hp : PartText p x) (h : Inside ps t) :
      Inside (p :: ps) (x ++ t)

-- A row of parts in which every half has its partner, and the characters that it stands for.
inductive Spells : List Char → List Char → Prop
  | nil : Spells [] []
  | char {c : Char} {cs x t : List Char} (hc : PartText (.char c) x) (h : Spells cs t) :
      Spells (c :: cs) (x ++ t)
  | pair {high low : Nat} {cs x y t : List Char} (hh : PartText (.half high) x)
      (hl : PartText (.half low) y) (hhigh : high < 0xDC00) (hlow : 0xDC00 ≤ low)
      (h : Spells cs t) :
      Spells (Char.ofNat (0x10000 + (high - 0xD800) * 0x400 + (low - 0xDC00)) :: cs)
        (x ++ (y ++ t))

-- A string that says `s`.
def StringText (s : String) (x : List Char) : Prop :=
  ∃ t, Spells s.toList t ∧ x = '"' :: (t ++ ['"'])

-- One or more items with commas between them and blanks around them.
inductive Items {α : Type} (Item : α → List Char → Prop) : List α → List Char → Prop
  | one {a : α} {b x b' : List Char} (hb : Blanks b) (hx : Item a x) (hb' : Blanks b') :
      Items Item [a] (b ++ (x ++ b'))
  | cons {a : α} {as : List α} {b x b' t : List Char} (hb : Blanks b) (hx : Item a x)
      (hb' : Blanks b') (h : Items Item as t) :
      Items Item (a :: as) (b ++ (x ++ (b' ++ ',' :: t)))

-- A member whose key reads `k` between its quotes and whose value has the text `v`.
inductive MemberText (k v : List Char) : List Char → Prop
  | pair {b b' : List Char} (hb : Blanks b) (hb' : Blanks b') :
      MemberText k v ('"' :: (k ++ '"' :: (b ++ ':' :: (b' ++ v))))

-- Any value. Its numbers may be of any size, and its strings need not say anything.
inductive ValueText : List Char → Prop
  | null : ValueText ['n', 'u', 'l', 'l']
  | true : ValueText ['t', 'r', 'u', 'e']
  | false : ValueText ['f', 'a', 'l', 's', 'e']
  | number {n : Numeral} {x : List Char} (h : NumberText n x) : ValueText x
  | string {ps : List Piece} {t : List Char} (h : Inside ps t) : ValueText ('"' :: (t ++ ['"']))
  | emptyList {b : List Char} (hb : Blanks b) : ValueText ('[' :: (b ++ [']']))
  | list {xs : List (List Char)} {t : List Char} (ht : Items Eq xs t)
      (hx : ∀ x ∈ xs, ValueText x) : ValueText ('[' :: (t ++ [']']))
  | emptyObject {b : List Char} (hb : Blanks b) : ValueText ('\x7b' :: (b ++ ['\x7d']))
  | object {ms : List (List Char × List Char)} {t : List Char}
      (ht : Items (fun m => MemberText m.1 m.2) ms t) (hk : ∀ m ∈ ms, ∃ ps, Inside ps m.1)
      (hv : ∀ m ∈ ms, ValueText m.2) : ValueText ('\x7b' :: (t ++ ['\x7d']))

theorem Blanks.nil : Blanks [] := nofun

theorem Blanks.append {b b' : List Char} (h : Blanks b) (h' : Blanks b') : Blanks (b ++ b') := by
  intro c hc
  rcases List.mem_append.1 hc with hc | hc
  · exact h c hc
  · exact h' c hc

theorem Items.ne_nil {α : Type} {Item : α → List Char → Prop} {as : List α} {t : List Char}
    (h : Items Item as t) : as ≠ [] := by
  cases h with
  | one => exact List.cons_ne_nil _ _
  | cons => exact List.cons_ne_nil _ _

theorem Items.exists_texts {α : Type} {Item : α → List Char → Prop} {as : List α} {t : List Char}
    (h : Items Item as t) : ∃ xs, Items Eq xs t ∧ ∀ x ∈ xs, ∃ a ∈ as, Item a x := by
  induction h with
  | @one a b x b' hb hx hb' =>
    refine ⟨[x], .one hb rfl hb', fun y hy => ⟨a, by simp, ?_⟩⟩
    rwa [List.mem_singleton.1 hy]
  | @cons a as b x b' t hb hx hb' _ ih =>
    obtain ⟨xs, ht, hall⟩ := ih
    refine ⟨x :: xs, .cons hb rfl hb' ht, fun y hy => ?_⟩
    rcases List.mem_cons.1 hy with rfl | hy
    · exact ⟨a, by simp, hx⟩
    · obtain ⟨c, hc, hitem⟩ := hall y hy
      exact ⟨c, List.mem_cons_of_mem a hc, hitem⟩

theorem Items.exists_of_texts {α : Type} {Item : α → List Char → Prop} {P : α → Prop}
    {xs : List (List Char)} {t : List Char} (h : Items Eq xs t)
    (hx : ∀ x ∈ xs, ∃ a, Item a x ∧ P a) : ∃ as, Items Item as t ∧ ∀ a ∈ as, P a := by
  induction h with
  | @one y b x b' hb hy hb' =>
    obtain ⟨a, ha, hp⟩ := hx y (by simp)
    exact ⟨[a], .one hb (hy ▸ ha) hb', fun c hc => List.mem_singleton.1 hc ▸ hp⟩
  | @cons y ys b x b' t hb hy hb' _ ih =>
    obtain ⟨a, ha, hp⟩ := hx y (by simp)
    obtain ⟨as, ht, hall⟩ := ih fun z hz => hx z (List.mem_cons_of_mem y hz)
    exact ⟨a :: as, .cons hb (hy ▸ ha) hb' ht, List.forall_mem_cons.2 ⟨hp, hall⟩⟩

section Items

def Bracket.opening : Bracket → Char
  | .list => '['
  | .object => '\x7b'

def Bracket.closing : Bracket → Char
  | .list => ']'
  | .object => '\x7d'

-- An item between these brackets, by what its value has to be.
def ItemOf (Val : List Char → Prop) : Bracket → List Char → Prop
  | .list, x => Val x
  | .object, x => ∃ k v, (∃ ps, Inside ps k) ∧ Val v ∧ MemberText k v x

theorem valueText_of_blanks (k : Bracket) {b : List Char} (hb : Blanks b) :
    ValueText (k.opening :: (b ++ [k.closing])) := by
  cases k with
  | list => exact .emptyList hb
  | object => exact .emptyObject hb

theorem valueText_of_items (k : Bracket) {xs : List (List Char)} {t : List Char}
    (ht : Items Eq xs t) (hx : ∀ x ∈ xs, ItemOf ValueText k x) :
    ValueText (k.opening :: (t ++ [k.closing])) := by
  cases k with
  | list => exact .list ht hx
  | object =>
    have hpair : ∀ x ∈ xs, ∃ m : List Char × List Char,
        MemberText m.1 m.2 x ∧ (∃ ps, Inside ps m.1) ∧ ValueText m.2 := by
      intro x hmem
      obtain ⟨k, v, hk, hv, hm⟩ := hx x hmem
      exact ⟨(k, v), hm, hk, hv⟩
    obtain ⟨ms, hms, hall⟩ := ht.exists_of_texts hpair
    exact .object hms (fun m hm => (hall m hm).1) (fun m hm => (hall m hm).2)

end Items

end Roster.Json
