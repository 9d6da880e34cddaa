import Roster.Proofs.Json.Cut
import Roster.Proofs.Json.NumberCut
import Roster.Proofs.User.Skip

namespace Roster.User.Reading

open Json

variable {r r' : Reading} {slots : Slots} {stack : List Bracket} {place : Place} {k : Bracket}
  {b x y s : List Char} {C D E : List Char → List Char → Prop}

section StopsShort

-- Wherever the text is cut, what is read from here is truncated, or malformed at a cut of this kind.
def StopsShort (r : Reading) (C : List Char → List Char → Prop) (x : List Char) : Prop :=
  ∀ p q, x = p ++ q → r.read p = .error (.flaw .truncated) ∨
    r.read p = .error (.flaw .malformed) ∧ C p q

def Never (_ _ : List Char) : Prop := False

def IsOpen (r : Reading) : Prop := ∀ u, r ≠ .finished u

theorem read_nil_of_isOpen (hr : r.IsOpen) : r.read [] = .error (.flaw .truncated) := by
  rw [read_nil]
  cases r with
  | finished u => exact absurd rfl (hr u)
  | value slots field => cases field <;> rfl
  | skipping slots skip =>
    obtain ⟨place, stack⟩ := skip
    cases place <;> rfl
  | _ => rfl

theorem StopsShort.mono (h : StopsShort r C x) (hC : ∀ p q, C p q → D p q) : StopsShort r D x :=
  fun p q hx => (h p q hx).imp_right fun ⟨hread, hcut⟩ => ⟨hread, hC p q hcut⟩

theorem StopsShort.append (hx : StopsShort r C x)
    (hread : ∀ s, EndsNumeral s → r.read (x ++ s) = r'.read s) (hy : StopsShort r' D y)
    (hends : EndsNumeral y) (hC : ∀ p q, C p q → E p (q ++ y)) (hD : ∀ p q, D p q → E (x ++ p) q) :
    StopsShort r E (x ++ y) := by
  intro p q hsplit
  rcases List.append_eq_append_iff.1 hsplit with ⟨p', rfl, rfl⟩ | ⟨x', rfl, rfl⟩
  · rw [hread p' hends.of_append]
    exact (hy p' q rfl).imp_right fun ⟨h, hcut⟩ => ⟨h, hD p' q hcut⟩
  · exact (hx p x' rfl).imp_right fun ⟨h, hcut⟩ => ⟨h, hC p x' hcut⟩

def Behind (x : List Char) (C : List Char → List Char → Prop) (p q : List Char) : Prop :=
  ∃ p', p = x ++ p' ∧ C p' q

-- The same behind a text in which nothing is ever malformed.
theorem StopsShort.behind (hx : StopsShort r Never x) (hread : ∀ s, r.read (x ++ s) = r'.read s)
    (hy : StopsShort r' C y) : StopsShort r (Behind x C) (x ++ y) := by
  intro p q hsplit
  rcases List.append_eq_append_iff.1 hsplit with ⟨p', rfl, rfl⟩ | ⟨x', rfl, rfl⟩
  · rw [hread p']
    exact (hy p' q rfl).imp_right fun ⟨h, hcut⟩ => ⟨h, p', rfl, hcut⟩
  · exact (hx p x' rfl).imp_right fun ⟨_, hcut⟩ => hcut.elim

theorem stopsShort_blanks (hb : Blanks b) (hr : r.IsOpen) : StopsShort r C b := by
  rintro p q rfl
  have hp : Blanks p := fun c hc => hb c (List.mem_append_left q hc)
  rw [← List.append_nil p, read_blanks hp]
  exact .inl (read_nil_of_isOpen hr)

theorem StopsShort.blanks_append (hb : Blanks b) (hr : r.IsOpen) (hx : StopsShort r C x) :
    StopsShort r (Behind b C) (b ++ x) :=
  (stopsShort_blanks hb hr).behind (fun s => read_blanks hb r s) hx

-- One unit that is not cut itself, or comes to one of these when it is.
theorem stopsShort_unit {t : Token} (hx : Spelling t x) (hr : r.IsOpen) (hstep : r.step t = .ok r')
    (hr' : r'.IsOpen)
    (hcut : ∀ p q, x = p ++ q → p ≠ [] → q ≠ [] → r.read p = .error (.flaw .truncated) ∨
      r.read p = .error (.flaw .malformed) ∧ C p q) : StopsShort r C x := by
  intro p q hsplit
  by_cases hp : p = []
  · rw [hp]
    exact .inl (read_nil_of_isOpen hr)
  · by_cases hq : q = []
    · rw [hq, List.append_nil] at hsplit
      rw [← hsplit, ← List.append_nil x, read_spelling hx (fun _ _ => endsNumeral_nil) hstep]
      exact .inl (read_nil_of_isOpen hr')
    · exact hcut p q hsplit hp hq

theorem stopsShort_mark {m : Mark} {c : Char} (hc : markOf? c = some m) (hr : r.IsOpen)
    (hstep : r.step (.mark m) = .ok r') (hr' : r'.IsOpen) : StopsShort r C [c] := by
  refine stopsShort_unit (.mark hc) hr hstep hr' fun p q hsplit hp hq => ?_
  rcases List.append_eq_singleton_iff.1 hsplit.symm with ⟨h, -⟩ | ⟨-, h⟩
  · exact absurd h hp
  · exact absurd h hq

theorem StopsShort.mark_append {m : Mark} {c : Char} (hc : markOf? c = some m) (hr : r.IsOpen)
    (hstep : r.step (.mark m) = .ok r') (hr' : r'.IsOpen) (hx : StopsShort r' C x) :
    StopsShort r (Behind [c] C) (c :: x) :=
  (stopsShort_mark hc hr hstep hr').behind (x := [c]) (fun _ => read_mark hc hstep) hx

-- A text with a closing bracket behind it.
theorem StopsShort.close {c : Char} (hx : StopsShort r C x)
    (hread : r.read (x ++ [c]) = .error (.flaw .truncated)) (hC : ∀ p q, C p q → D p (q ++ [c])) :
    StopsShort r D (x ++ [c]) := by
  intro p q hsplit
  rcases List.append_eq_append_iff.1 hsplit with ⟨p', rfl, h⟩ | ⟨x', rfl, rfl⟩
  · rcases List.append_eq_singleton_iff.1 h.symm with ⟨rfl, rfl⟩ | ⟨rfl, rfl⟩
    · rw [List.append_nil]
      exact (hx x [] (by simp)).imp_right fun ⟨h, hcut⟩ => ⟨h, hC x [] hcut⟩
    · exact .inl hread
  · exact (hx p x' rfl).imp_right fun ⟨h, hcut⟩ => ⟨h, hC p x' hcut⟩

end StopsShort

section Passed

theorem isOpen_skipping {skip : Skip} : (skipping slots skip).IsOpen := nofun

theorem isOpen_resume {o : Option Skip} : (resume slots o).IsOpen := by
  cases o <;> nofun

theorem stopsShort_word {t : Token} (ht : t.IsWord) (hx : Spelling t x) (hr : r.IsOpen)
    (hstep : r.step t = .ok r') (hr' : r'.IsOpen)
    (hstop : r.stopped (.word .truncated) = .error (.flaw .truncated)) : StopsShort r C x :=
  stopsShort_unit hx hr hstep hr' fun _ _ hsplit hp hq =>
    .inl ((read_of_stop (scan_word_cut ht hx hsplit hp hq) r).trans hstop)

theorem stopsShort_string {ps : List Piece} (hx : Spelling (.string ps) x) (hr : r.IsOpen)
    (hstep : r.step (.string ps) = .ok r') (hr' : r'.IsOpen)
    (hstop : ∀ ps', ps' <+: ps →
      r.stopped (.string ps' .truncated) = .error (.flaw .truncated)) : StopsShort r C x := by
  refine stopsShort_unit hx hr hstep hr' fun p q hsplit hp hq => ?_
  obtain ⟨ps', hps', hscan⟩ := scan_string_cut hx hsplit hp hq
  exact .inl ((read_of_stop hscan r).trans (hstop ps' hps'))

-- Whether a bracket might close here or not, a value may stand here.
def TakesValue (place : Place) : Prop := place = .value ∨ place = .valueOrClose

theorem step_scalar {t : Token} (hplace : TakesValue place)
    (hscalar : ∀ stack, Skip.value stack t = .ok (Skip.ended stack))
    (hclose : t ≠ .mark .closeBracket) :
    (skipping slots ⟨place, stack⟩).step t = .ok (resume slots (Skip.ended stack)) := by
  refine step_skipping ?_
  rcases hplace with rfl | rfl
  · exact hscalar stack
  · rw [← hscalar stack]
    exact if_neg hclose

theorem stopped_value (hplace : TakesValue place) (stop : Stop) :
    (skipping slots ⟨place, stack⟩).stopped stop = .error (.flaw stop.atSkippedValue) := by
  rcases hplace with rfl | rfl <;> rfl

theorem stopsShort_number {n : Numeral} (hx : NumberText n x) (hplace : TakesValue place) :
    StopsShort (skipping slots ⟨place, stack⟩) CutsNumber x := by
  have hstep (n : Numeral) : (skipping slots ⟨place, stack⟩).step (.number n) =
      .ok (resume slots (Skip.ended stack)) := step_scalar hplace (fun _ => rfl) nofun
  refine stopsShort_unit (.number hx) isOpen_skipping (hstep n) isOpen_resume ?_
  rintro p q rfl hp hq
  rcases numberText_or_stop hx rfl hp with ⟨n', hn'⟩ | hscan
  · rw [← List.append_nil p, read_spelling (.number hn') (fun _ _ => endsNumeral_nil) (hstep n')]
    exact .inl (read_nil_of_isOpen isOpen_resume)
  · right
    rw [read_of_stop hscan, stopped_value hplace]
    have hcut := CutsNumber.number hx hp hq endsNumeral_nil
    rw [List.append_nil] at hcut
    exact ⟨rfl, hcut⟩

end Passed

section Items

-- A key with its colon, and a value that is read from behind it.
theorem stopsShort_keyed {ps : List Piece} {key v : List Char} {rc rv : Reading}
    (hx : MemberText key v x) (hkey : Inside ps key) (hr : r.IsOpen)
    (hstep : r.step (.string ps) = .ok rc) (hrc : rc.IsOpen)
    (hstop : ∀ ps', ps' <+: ps → r.stopped (.string ps' .truncated) = .error (.flaw .truncated))
    (hcolon : rc.step (.mark .colon) = .ok rv) (hrv : rv.IsOpen) (hv : StopsShort rv C v) :
    StopsShort r (fun p q => ∃ x', KeyText key x' ∧ Behind x' C p q) x := by
  obtain ⟨hb, hb'⟩ := hx
  rename_i b b'
  have hstring : StopsShort r Never ('"' :: (key ++ ['"'])) :=
    stopsShort_string (.string hkey) hr hstep hrc hstop
  have hread (s : List Char) : r.read ('"' :: (key ++ ['"']) ++ s) = rc.read s :=
    read_spelling (.string hkey) nofun hstep
  have hrest : StopsShort rc (Behind b (Behind [':'] (Behind b' C))) (b ++ ':' :: (b' ++ v)) :=
    .blanks_append hb hrc (.mark_append (m := .colon) rfl hrc hcolon hrv (.blanks_append hb' hrv hv))
  have hall := hstring.behind hread hrest
  have hsplit : '"' :: (key ++ '"' :: (b ++ ':' :: (b' ++ v))) =
      '"' :: (key ++ ['"']) ++ (b ++ ':' :: (b' ++ v)) := by simp
  rw [hsplit]
  refine hall.mono ?_
  rintro p q ⟨_, rfl, _, rfl, _, rfl, p', rfl, hcut⟩
  exact ⟨_, .colon hb hb', p', by simp, hcut⟩

-- An item among blanks, and whatever stands behind it.
theorem StopsShort.item_append (hb : Blanks b) (hr : r.IsOpen) (hx : StopsShort r C x)
    (hread : ∀ s, EndsNumeral s → r.read (x ++ s) = r'.read s) (hy : StopsShort r' D y)
    (hends : EndsNumeral y) (hC : ∀ p q, C p q → E (b ++ p) (q ++ y))
    (hD : ∀ p q, D p q → E (b ++ (x ++ p)) q) : StopsShort r E (b ++ (x ++ y)) := by
  have hitem : StopsShort r (fun p q => E (b ++ p) q) (x ++ y) := hx.append hread hy hends hC hD
  refine (hitem.blanks_append hb hr).mono ?_
  rintro p q ⟨p', rfl, h⟩
  exact h

end Items

section Nested

def AnyKey (k : List Char) : Prop := ∃ ps, Inside ps k

-- Wherever a value stands that is passed over, it stops short.
def Stops (x : List Char) : Prop :=
  ∀ slots stack place, TakesValue place → StopsShort (skipping slots ⟨place, stack⟩) CutsNumber x

theorem stopsShort_item (hx : ItemOf Stops k x) (hplace : place = k.first ∨ place = k.next) :
    StopsShort (skipping slots ⟨place, k :: stack⟩) (CutsItem AnyKey k) x := by
  cases k with
  | list =>
    have htakes : TakesValue place := hplace.symm
    exact (hx slots (.list :: stack) place htakes).mono fun p q => .element
  | object =>
    obtain ⟨key, v, ⟨ps, hkey⟩, hv, hm⟩ := hx
    have hstring : Skip.step ⟨place, .object :: stack⟩ (.string ps) =
        .ok (some ⟨.colon, .object :: stack⟩) := by
      rcases hplace with rfl | rfl <;> rfl
    have hstop (ps' : List Piece) :
        (skipping slots ⟨place, .object :: stack⟩).stopped (.string ps' .truncated) =
          .error (.flaw .truncated) := by
      rcases hplace with rfl | rfl <;> rfl
    have hvalue := hv slots (.object :: stack) .value (.inl rfl)
    have hkeyed := stopsShort_keyed hm hkey isOpen_skipping (step_skipping hstring) isOpen_skipping
      (fun ps' _ => hstop ps') (step_skipping rfl) isOpen_skipping hvalue
    refine hkeyed.mono ?_
    rintro p q ⟨x', hx', p', rfl, hcut⟩
    exact .member ⟨ps, hkey⟩ hx' hcut

theorem passes_item (h : ItemOf ValueText k x) : ItemOf Passes k x := by
  cases k with
  | list => exact passes_of_valueText h
  | object =>
    obtain ⟨key, v, hkey, hv, hm⟩ := h
    exact ⟨key, v, hkey, passes_of_valueText hv, hm⟩

theorem stopsShort_items {xs : List (List Char)} {t : List Char} (ht : Items Eq xs t)
    (hx : ∀ x ∈ xs, ItemOf ValueText k x ∧ ItemOf Stops k x)
    (hplace : place = k.first ∨ place = k.next) :
    StopsShort (skipping slots ⟨place, k :: stack⟩) (CutsItems AnyKey k) t := by
  induction ht generalizing place with
  | @one y b x b' hb hy hb' =>
    subst hy
    obtain ⟨hvalue, hstops⟩ := hx y (by simp)
    have hread := read_item slots stack (passes_item hvalue) hplace
    exact .item_append hb isOpen_skipping (stopsShort_item hstops hplace) hread
      (stopsShort_blanks (C := Never) hb' isOpen_skipping) (endsNumeral_of_blanks hb')
      (fun p q h => (h.extend (endsNumeral_of_blanks hb')).behind_blanks hb) (fun _ _ h => h.elim)
  | @cons y ys b x b' t hb hy hb' _ ih =>
    subst hy
    obtain ⟨hvalue, hstops⟩ := hx y (by simp)
    have hread := read_item slots stack (passes_item hvalue) hplace
    have hends := endsNumeral_of_mark (c := ',') rfl hb' t
    have hrest := ih (fun z hz => hx z (List.mem_cons_of_mem y hz)) (.inr rfl)
    have hcomma := hrest.mark_append (m := .comma) (c := ',') rfl isOpen_skipping
      (step_comma slots k stack) isOpen_skipping
    refine .item_append hb isOpen_skipping (stopsShort_item hstops hplace) hread
      (hcomma.blanks_append hb' isOpen_skipping) hends
      (fun p q h => (h.extend hends).behind_blanks hb) ?_
    rintro p q ⟨_, rfl, p', rfl, h⟩
    exact h.behind_item hb hvalue hb'

theorem step_opening (slots : Slots) (stack : List Bracket) (hplace : TakesValue place) :
    ∃ m, markOf? k.opening = some m ∧ (skipping slots ⟨place, stack⟩).step (.mark m) =
      .ok (skipping slots ⟨k.first, k :: stack⟩) := by
  cases k with
  | list => exact ⟨.openBracket, rfl, by rcases hplace with rfl | rfl <;> rfl⟩
  | object => exact ⟨.openBrace, rfl, by rcases hplace with rfl | rfl <;> rfl⟩

theorem endsNumeral_closing (k : Bracket) : EndsNumeral [k.closing] :=
  endsNumeral_of_mark (b := []) k.markOf?_closing nofun []

-- Brackets stop short when what stands between them does.
theorem stops_of_inner {t : List Char}
    (h : ∀ slots stack, StopsShort (skipping slots ⟨k.first, k :: stack⟩) (CutsItems AnyKey k) t)
    (hread : ∀ slots stack s, (skipping slots ⟨k.first, k :: stack⟩).read (t ++ k.closing :: s) =
      (resume slots (Skip.ended stack)).read s) : Stops (k.opening :: (t ++ [k.closing])) := by
  intro slots stack place hplace
  obtain ⟨m, hm, hstep⟩ := step_opening (k := k) slots stack hplace
  have hwhole : (skipping slots ⟨k.first, k :: stack⟩).read (t ++ [k.closing]) =
      .error (.flaw .truncated) := by
    rw [hread]
    exact read_nil_of_isOpen isOpen_resume
  have hclosed := (h slots stack).close hwhole fun p q hcut => hcut.extend (endsNumeral_closing k)
  refine (hclosed.mark_append hm isOpen_skipping hstep isOpen_skipping).mono ?_
  rintro p q ⟨p', rfl, hcut⟩
  exact cutsNumber_of_items hcut

theorem stops_of_blanks (k : Bracket) (hb : Blanks b) : Stops (k.opening :: (b ++ [k.closing])) := by
  refine stops_of_inner (fun slots stack => stopsShort_blanks hb isOpen_skipping) ?_
  intro slots stack s
  rw [read_blanks hb]
  cases k with
  | list => exact read_mark (m := .closeBracket) rfl (step_skipping rfl)
  | object => exact read_mark (m := .closeBrace) rfl (step_skipping rfl)

theorem stops_of_items (k : Bracket) {xs : List (List Char)} {t : List Char} (ht : Items Eq xs t)
    (hx : ∀ x ∈ xs, ItemOf ValueText k x ∧ ItemOf Stops k x) :
    Stops (k.opening :: (t ++ [k.closing])) :=
  stops_of_inner (fun _ _ => stopsShort_items ht hx (.inl rfl)) fun _ _ _ =>
    read_items ht (fun x hmem => passes_item (hx x hmem).1) (.inl rfl)

theorem stops_of_valueText (hx : ValueText x) : Stops x := by
  have word {t : Token} {x : List Char} (ht : t.IsWord) (hx : Spelling t x)
      (hscalar : ∀ stack, Skip.value stack t = .ok (Skip.ended stack))
      (hclose : t ≠ .mark .closeBracket) : Stops x := fun slots stack place hplace =>
    stopsShort_word ht hx isOpen_skipping (step_scalar hplace hscalar hclose) isOpen_resume
      (stopped_value hplace _)
  induction hx with
  | null => exact word (.inl rfl) .null (fun _ => rfl) nofun
  | true => exact word (.inr ⟨true, rfl⟩) .true (fun _ => rfl) nofun
  | false => exact word (.inr ⟨false, rfl⟩) .false (fun _ => rfl) nofun
  | number h => exact fun slots stack place hplace => stopsShort_number h hplace
  | string h =>
    exact fun slots stack place hplace => stopsShort_string (.string h) isOpen_skipping
      (step_scalar hplace (fun _ => rfl) nofun) isOpen_resume fun _ _ => stopped_value hplace _
  | emptyList hb => exact stops_of_blanks .list hb
  | emptyObject hb => exact stops_of_blanks .object hb
  | list ht hv ih => exact stops_of_items .list ht fun x hmem => ⟨hv x hmem, ih x hmem⟩
  | @object ms t ht hk hv ih =>
    obtain ⟨xs, hxs, hall⟩ := ht.exists_texts
    refine stops_of_items .object hxs fun x hmem => ?_
    obtain ⟨m, hm, hx⟩ := hall x hmem
    exact ⟨⟨m.1, m.2, hk m hm, hv m hm, hx⟩, ⟨m.1, m.2, hk m hm, ih m hm, hx⟩⟩

end Nested

end Roster.User.Reading
