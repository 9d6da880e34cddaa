import Roster.Proofs.User.Reading

namespace Roster

namespace Json.Bracket

def closingMark : Bracket → Mark
  | .list => .closeBracket
  | .object => .closeBrace

theorem markOf?_closing (k : Bracket) : markOf? k.closing = some k.closingMark := by
  cases k <;> rfl

-- What may come behind an opening bracket, and what behind a comma.
def first : Bracket → Place
  | .list => .valueOrClose
  | .object => .keyOrClose

def next : Bracket → Place
  | .list => .value
  | .object => .key

end Json.Bracket

open Json

namespace User.Reading

variable {slots : Slots} {stack : List Bracket} {place : Place} {k : Bracket} {u : User}
  {b s x : List Char}

-- Where reading goes on behind a unit of a value that is passed over.
def resume (slots : Slots) : Option Skip → Reading
  | none => .afterMember slots
  | some next => .skipping slots next

theorem step_skipping {skip : Skip} {t : Token} {o : Option Skip} (h : skip.step t = .ok o) :
    (skipping slots skip).step t = .ok (resume slots o) := by
  rw [step, skipStep, h]
  cases o <;> rfl

theorem exists_of_step_skipping {skip : Skip} {t : Token} {r : Reading}
    (h : (skipping slots skip).step t = .ok r) :
    ∃ o, skip.step t = .ok o ∧ r = resume slots o := by
  rw [step, skipStep] at h
  split at h
  · cases h
  · rename_i ho
    cases h
    exact ⟨none, ho, rfl⟩
  · rename_i next ho
    cases h
    exact ⟨some next, ho, rfl⟩

theorem read_value_none (slots : Slots) (s : List Char) :
    (value slots none).read s = (skipping slots Skip.start).read s := by
  rw [read, read]
  cases (scan s).1 with
  | nil => rfl
  | cons t ts => rfl

section Passes

def PassesAt (place : Place) (x : List Char) : Prop :=
  ∀ slots stack s, EndsNumeral s →
    (skipping slots ⟨place, stack⟩).read (x ++ s) = (resume slots (Skip.ended stack)).read s

-- A value is passed over where a bracket might close as well as where none might.
def Passes (x : List Char) : Prop := PassesAt .value x ∧ PassesAt .valueOrClose x

theorem passes_of_step {t : Token} (hx : Spelling t x)
    (hvalue : ∀ stack, Skip.value stack t = .ok (Skip.ended stack))
    (hclose : t ≠ .mark .closeBracket) : Passes x := by
  have hstep (stack : List Bracket) :
      Skip.step ⟨.valueOrClose, stack⟩ t = .ok (Skip.ended stack) := by
    rw [← hvalue stack]
    exact if_neg hclose
  constructor
  · intro slots stack s hs
    exact read_spelling hx (fun _ _ => hs) (step_skipping (hvalue stack))
  · intro slots stack s hs
    exact read_spelling hx (fun _ _ => hs) (step_skipping (hstep stack))

theorem read_item (slots : Slots) (stack : List Bracket) (hx : ItemOf Passes k x)
    (hplace : place = k.first ∨ place = k.next) (s : List Char) (hs : EndsNumeral s) :
    (skipping slots ⟨place, k :: stack⟩).read (x ++ s) =
      (skipping slots ⟨.commaOrClose, k :: stack⟩).read s := by
  cases k with
  | list =>
    rcases hplace with rfl | rfl
    · exact hx.2 slots (.list :: stack) s hs
    · exact hx.1 slots (.list :: stack) s hs
  | object =>
    obtain ⟨key, v, ⟨ps, hkey⟩, hv, hm⟩ := hx
    obtain ⟨hb, hb'⟩ := hm
    rename_i b b'
    have hsplit : '"' :: (key ++ '"' :: (b ++ ':' :: (b' ++ v))) ++ s =
        '"' :: (key ++ ['"']) ++ (b ++ ':' :: (b' ++ (v ++ s))) := by simp
    have hstring : Skip.step ⟨place, .object :: stack⟩ (.string ps) =
        .ok (some ⟨.colon, .object :: stack⟩) := by
      rcases hplace with rfl | rfl <;> rfl
    rw [hsplit, read_spelling (.string hkey) nofun (step_skipping hstring), resume,
      read_blanks hb, read_mark (m := .colon) rfl (step_skipping rfl), resume, read_blanks hb']
    exact hv.1 slots (.object :: stack) s hs

theorem step_closing (slots : Slots) (k : Bracket) (stack : List Bracket) :
    (skipping slots ⟨.commaOrClose, k :: stack⟩).step (.mark k.closingMark) =
      .ok (resume slots (Skip.ended stack)) := by
  cases k <;> exact step_skipping rfl

theorem step_comma (slots : Slots) (k : Bracket) (stack : List Bracket) :
    (skipping slots ⟨.commaOrClose, k :: stack⟩).step (.mark .comma) =
      .ok (skipping slots ⟨k.next, k :: stack⟩) := by
  cases k <;> rfl

theorem read_items {xs : List (List Char)} {t : List Char} (ht : Items Eq xs t)
    (hx : ∀ x ∈ xs, ItemOf Passes k x) (hplace : place = k.first ∨ place = k.next) :
    (skipping slots ⟨place, k :: stack⟩).read (t ++ k.closing :: s) =
      (resume slots (Skip.ended stack)).read s := by
  induction ht generalizing place with
  | @one y b x b' hb hy hb' =>
    subst hy
    have hitem := read_item slots stack (hx y (by simp)) hplace
    have hsplit : b ++ (y ++ b') ++ k.closing :: s = b ++ (y ++ (b' ++ k.closing :: s)) := by simp
    rw [hsplit, read_item_mark hb hb' k.markOf?_closing hitem (step_closing slots k stack)]
  | @cons y ys b x b' t hb hy hb' _ ih =>
    subst hy
    have hitem := read_item slots stack (hx y (by simp)) hplace
    have hsplit : b ++ (y ++ (b' ++ ',' :: t)) ++ k.closing :: s =
        b ++ (y ++ (b' ++ ',' :: (t ++ k.closing :: s))) := by simp
    rw [hsplit, read_item_mark hb hb' rfl hitem (step_comma slots k stack)]
    exact ih (fun z hz => hx z (List.mem_cons_of_mem y hz)) (.inr rfl)

theorem read_opening (slots : Slots) (k : Bracket) (stack : List Bracket) (s : List Char)
    (hplace : place = .value ∨ place = .valueOrClose) :
    (skipping slots ⟨place, stack⟩).read (k.opening :: s) =
      (skipping slots ⟨k.first, k :: stack⟩).read s := by
  cases k with
  | list => rcases hplace with rfl | rfl <;> exact read_mark (m := .openBracket) rfl rfl
  | object => rcases hplace with rfl | rfl <;> exact read_mark (m := .openBrace) rfl rfl

-- Brackets are passed over when what stands between them is.
theorem passes_of_inner {t : List Char}
    (h : ∀ slots stack s, (skipping slots ⟨k.first, k :: stack⟩).read (t ++ k.closing :: s) =
      (resume slots (Skip.ended stack)).read s) : Passes (k.opening :: (t ++ [k.closing])) := by
  have hsplit (s : List Char) :
      k.opening :: (t ++ [k.closing]) ++ s = k.opening :: (t ++ k.closing :: s) := by simp
  constructor
  · intro slots stack s _
    rw [hsplit, read_opening slots k stack _ (.inl rfl), h]
  · intro slots stack s _
    rw [hsplit, read_opening slots k stack _ (.inr rfl), h]

theorem passes_of_blanks (k : Bracket) (hb : Blanks b) :
    Passes (k.opening :: (b ++ [k.closing])) := by
  refine passes_of_inner fun slots stack s => ?_
  rw [read_blanks hb]
  cases k with
  | list => exact read_mark (m := .closeBracket) rfl (step_skipping rfl)
  | object => exact read_mark (m := .closeBrace) rfl (step_skipping rfl)

theorem passes_of_items (k : Bracket) {xs : List (List Char)} {t : List Char} (ht : Items Eq xs t)
    (hx : ∀ x ∈ xs, ItemOf Passes k x) : Passes (k.opening :: (t ++ [k.closing])) :=
  passes_of_inner fun _ _ _ => read_items ht hx (.inl rfl)

theorem passes_of_valueText (hx : ValueText x) : Passes x := by
  induction hx with
  | null => exact passes_of_step .null (fun _ => rfl) nofun
  | true => exact passes_of_step .true (fun _ => rfl) nofun
  | false => exact passes_of_step .false (fun _ => rfl) nofun
  | number h => exact passes_of_step (.number h) (fun _ => rfl) nofun
  | string h => exact passes_of_step (.string h) (fun _ => rfl) nofun
  | emptyList hb => exact passes_of_blanks .list hb
  | emptyObject hb => exact passes_of_blanks .object hb
  | list ht _ ih => exact passes_of_items .list ht ih
  | @object ms t ht hk _ ih =>
    obtain ⟨xs, hxs, hall⟩ := ht.exists_texts
    refine passes_of_items .object hxs fun x hmem => ?_
    obtain ⟨m, hm, hx⟩ := hall x hmem
    exact ⟨m.1, m.2, hk m hm, ih m hm, hx⟩

theorem read_skipped (slots : Slots) (hx : ValueText x) (hs : EndsNumeral s) :
    (value slots none).read (x ++ s) = (afterMember slots).read s := by
  rw [read_value_none]
  exact (passes_of_valueText hx).1 slots [] s hs

end Passes

section Values

-- What these brackets demand of the text behind a value, with `K` for the text behind them all.
inductive Closes (K : List Char → Prop) : List Bracket → List Char → Prop
  | outside {s : List Char} (h : K s) : Closes K [] s
  | close {k : Bracket} {stack : List Bracket} {b s : List Char} (hb : Blanks b)
      (h : Closes K stack s) : Closes K (k :: stack) (b ++ k.closing :: s)
  | next {k : Bracket} {stack : List Bracket} {b b' x s : List Char} (hb : Blanks b)
      (hb' : Blanks b') (hx : ItemOf ValueText k x) (h : Closes K (k :: stack) s) :
      Closes K (k :: stack) (b ++ ',' :: (b' ++ (x ++ s)))

def Starts (K P : List Char → Prop) (stack : List Bracket) (s : List Char) : Prop :=
  ∃ b x s', s = b ++ (x ++ s') ∧ Blanks b ∧ P x ∧ Closes K stack s'

def Shuts (K : List Char → Prop) (k : Bracket) (stack : List Bracket) (s : List Char) : Prop :=
  ∃ b s', s = b ++ k.closing :: s' ∧ Blanks b ∧ Closes K stack s'

-- What a place inside a value demands of the text from there on.
def Expects (K : List Char → Prop) (skip : Skip) (s : List Char) : Prop :=
  match skip.place with
  | .value => Starts K ValueText skip.stack s
  | .valueOrClose => Starts K ValueText skip.stack s ∨ Shuts K .list skip.stack.tail s
  | .key => Starts K (ItemOf ValueText .object) skip.stack s
  | .keyOrClose =>
    Starts K (ItemOf ValueText .object) skip.stack s ∨ Shuts K .object skip.stack.tail s
  | .colon => ∃ b s', s = b ++ ':' :: s' ∧ Blanks b ∧ Starts K ValueText skip.stack s'
  | .commaOrClose => Closes K skip.stack s

def ExpectsBehind (K : List Char → Prop) : Option Skip → List Char → Prop
  | none, s => K s
  | some skip, s => Expects K skip s

variable {K : List Char → Prop} {t : Token} {o : Option Skip}

theorem closes_of_ended (h : ExpectsBehind K (Skip.ended stack) s) : Closes K stack s := by
  cases stack with
  | nil => exact .outside h
  | cons k stack => exact h

-- The items up to the closing bracket.
theorem Closes.exists_items (h : Closes K (k :: stack) s) (hb : Blanks b)
    (hx : ItemOf ValueText k x) :
    ∃ xs t s', b ++ (x ++ s) = t ++ k.closing :: s' ∧ Items Eq xs t ∧
      (∀ y ∈ xs, ItemOf ValueText k y) ∧ Closes K stack s' := by
  generalize hst : k :: stack = st at h
  induction h generalizing b x with
  | outside => cases hst
  | @close k' stack' b' s hb' h _ =>
    cases hst
    refine ⟨[x], b ++ (x ++ b'), s, by simp, .one hb rfl hb', fun y hy => ?_, h⟩
    rwa [List.mem_singleton.1 hy]
  | @next k' stack' b₁ b₂ y s hb₁ hb₂ hy _ ih =>
    cases hst
    obtain ⟨xs, t, s', hs, ht, hall, hcl⟩ := ih hb₂ hy rfl
    refine ⟨x :: xs, b ++ (x ++ (b₁ ++ ',' :: t)), s', ?_, .cons hb rfl hb₁ ht,
      List.forall_mem_cons.2 ⟨hx, hall⟩, hcl⟩
    simp [hs]

theorem exists_valueText_of_inner
    (h : Starts K (ItemOf ValueText k) (k :: stack) s ∨ Shuts K k stack s) :
    ∃ x s', k.opening :: s = x ++ s' ∧ ValueText x ∧ Closes K stack s' := by
  rcases h with ⟨b, x, s', rfl, hb, hx, hcl⟩ | ⟨b, s', rfl, hb, hcl⟩
  · obtain ⟨xs, t, s'', hs, ht, hall, hcl⟩ := hcl.exists_items hb hx
    exact ⟨_, s'', by rw [hs]; simp, valueText_of_items k ht hall, hcl⟩
  · exact ⟨_, s', by simp, valueText_of_blanks k hb, hcl⟩

theorem starts_of_value (hb : Blanks b) (hx : Spelling t x) (h : Skip.value stack t = .ok o)
    (ho : ExpectsBehind K o s) : Starts K ValueText stack (b ++ (x ++ s)) := by
  have scalar (hv : ValueText x) (h : Skip.ended stack = o) :
      Starts K ValueText stack (b ++ (x ++ s)) :=
    ⟨b, x, s, rfl, hb, hv, closes_of_ended (h ▸ ho)⟩
  have opening (k : Bracket) (hx : x = [k.opening])
      (ho : Starts K (ItemOf ValueText k) (k :: stack) s ∨ Shuts K k stack s) :
      Starts K ValueText stack (b ++ (x ++ s)) := by
    obtain ⟨y, s', hs, hy, hcl⟩ := exists_valueText_of_inner ho
    exact ⟨b, y, s', by rw [hx, ← hs]; rfl, hb, hy, hcl⟩
  cases t with
  | mark m =>
    cases m with
    | openBracket =>
      obtain rfl := Except.ok.inj h
      exact opening .list hx.eq_char ho
    | openBrace =>
      obtain rfl := Except.ok.inj h
      exact opening .object hx.eq_char ho
    | _ => cases h
  | null =>
    cases hx
    exact scalar .null (Except.ok.inj h)
  | boolean =>
    cases hx with
    | true => exact scalar .true (Except.ok.inj h)
    | false => exact scalar .false (Except.ok.inj h)
  | number =>
    cases hx with
    | number hn => exact scalar (.number hn) (Except.ok.inj h)
  | string =>
    cases hx with
    | string hs => exact scalar (.string hs) (Except.ok.inj h)

theorem starts_of_key (hb : Blanks b) (hx : Spelling t x) (h : Skip.key stack t = .ok o)
    (ho : ExpectsBehind K o s) :
    Starts K (ItemOf ValueText .object) stack (b ++ (x ++ s)) := by
  cases t with
  | string ps =>
    obtain rfl := Except.ok.inj h
    obtain ⟨b₁, s₁, rfl, hb₁, b₂, v, s₂, rfl, hb₂, hv, hcl⟩ := ho
    cases hx with
    | @string _ key hkey =>
      refine ⟨b, '"' :: (key ++ '"' :: (b₁ ++ ':' :: (b₂ ++ v))), s₂, by simp, hb, ?_, hcl⟩
      exact ⟨key, v, ⟨ps, hkey⟩, hv, .pair hb₁ hb₂⟩
  | _ => cases h

theorem step_commaOrClose (hx : Spelling t x)
    (h : Skip.step ⟨.commaOrClose, k :: stack⟩ t = .ok o) :
    x = [','] ∧ o = some ⟨k.next, k :: stack⟩ ∨ x = [k.closing] ∧ o = Skip.ended stack := by
  cases k <;>
  · simp only [Skip.step] at h
    split_ifs at h with hcomma hclose
    · subst hcomma
      exact .inl ⟨hx.eq_char, (Except.ok.inj h).symm⟩
    · subst hclose
      exact .inr ⟨hx.eq_char, (Except.ok.inj h).symm⟩

-- One unit meets what its place demands if the text behind it meets what the next place does.
theorem expects_of_step {skip : Skip} (hb : Blanks b) (hx : Spelling t x)
    (h : skip.step t = .ok o) (ho : ExpectsBehind K o s) : Expects K skip (b ++ (x ++ s)) := by
  obtain ⟨place, stack⟩ := skip
  cases place with
  | value => exact starts_of_value hb hx h ho
  | valueOrClose =>
    simp only [Skip.step] at h
    split_ifs at h with ht
    · subst ht
      obtain rfl := Except.ok.inj h
      exact .inr ⟨b, s, by rw [hx.eq_char]; rfl, hb, closes_of_ended ho⟩
    · exact .inl (starts_of_value hb hx h ho)
  | key => exact starts_of_key hb hx h ho
  | keyOrClose =>
    simp only [Skip.step] at h
    split_ifs at h with ht
    · subst ht
      obtain rfl := Except.ok.inj h
      exact .inr ⟨b, s, by rw [hx.eq_char]; rfl, hb, closes_of_ended ho⟩
    · exact .inl (starts_of_key hb hx h ho)
  | colon =>
    simp only [Skip.step] at h
    split_ifs at h with ht
    subst ht
    obtain rfl := Except.ok.inj h
    exact ⟨b, s, by rw [hx.eq_char]; rfl, hb, ho⟩
  | commaOrClose =>
    cases stack with
    | nil => cases h
    | cons k stack =>
      rcases step_commaOrClose hx h with ⟨rfl, rfl⟩ | ⟨rfl, rfl⟩
      · have hitem : Starts K (ItemOf ValueText k) (k :: stack) s := by cases k <;> exact ho
        obtain ⟨b', y, s', rfl, hb', hy, hcl⟩ := hitem
        have hnext := Closes.next hb hb' hy hcl
        exact hnext
      · exact Closes.close hb (closes_of_ended ho)

theorem expects_of_read {skip : Skip} (h : (skipping slots skip).read s = .ok u) :
    Expects (fun s => (afterMember slots).read s = .ok u) skip s := by
  induction hn : s.length using Nat.strongRecOn generalizing s skip with
  | ind n ih =>
    rcases exists_spelling_of_read h with
      ⟨-, hfinished⟩ | ⟨b, t, x, s', r, rfl, hb, hx, hlt, hstep, hread⟩
    · cases hfinished
    · obtain ⟨o, ho, rfl⟩ := exists_of_step_skipping hstep
      refine expects_of_step hb hx ho ?_
      cases o with
      | none => exact hread
      | some next => exact ih s'.length (hn ▸ hlt) hread rfl

theorem exists_valueText_of_read (h : (value slots none).read s = .ok u) :
    ∃ b x s', s = b ++ (x ++ s') ∧ Blanks b ∧ ValueText x ∧ s'.length ≤ s.length ∧
      (afterMember slots).read s' = .ok u := by
  rw [read_value_none] at h
  obtain ⟨b, x, s', rfl, hb, hx, hcl⟩ := expects_of_read h
  cases hcl with
  | outside hread => exact ⟨b, x, s', rfl, hb, hx, by simp only [List.length_append]; omega, hread⟩

end Values

end User.Reading
end Roster
