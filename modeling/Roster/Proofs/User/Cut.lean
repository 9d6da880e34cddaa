import Mathlib
import Roster.Proofs.User.Decode
import Roster.Proofs.User.Stops

namespace Roster.User

open Json

namespace Reading

variable {r : Reading} {slots : Slots} {u : User} {f : Field} {next : Slots → Reading}
  {b x : List Char}

section Fields

-- The digits of a number that are left of it by a cut.
theorem exists_toDigits_of_cut {m : Nat} {p q : List Char} (h : Nat.toDigits 10 m = p ++ q)
    (hp : p ≠ []) : ∃ m' ≤ m, p = Nat.toDigits 10 m' := by
  have hle : Number.ofDecimal p ≤ m := by
    have happend : Number.ofDecimal (p ++ q) = Number.continueDecimal (Number.ofDecimal p) q :=
      List.foldl_append
    rw [← Number.ofDecimal_toDigits m, h, happend]
    exact Number.le_continueDecimal _ q
  exact ⟨Number.ofDecimal p, hle, (toDigits_of_wholeText ((wholeText_toDigits m).cut h hp)).symm⟩

theorem exists_shorter_age {p q : List Char} (hx : FieldText u .age x) (hsplit : x = p ++ q)
    (hp : p ≠ []) : ∃ u' : User, FieldText u' .age p := by
  obtain ⟨m, hle, hm⟩ := exists_toDigits_of_cut (hx.symm.trans hsplit) hp
  have hlt : m < UInt32.size := Nat.lt_of_le_of_lt hle u.age.toNat_lt
  refine ⟨{ u with age := UInt32.ofNat m }, ?_⟩
  have hm' : (UInt32.ofNat m).toNat = m := UInt32.toNat_ofNat_of_lt' hlt
  rw [FieldText, hm, hm']

-- Where the value of a field is read, and what comes behind it.
structure Fills (r : Reading) (slots : Slots) (f : Field) (next : Slots → Reading) : Prop where
  step : ∀ t slots', slots.fill f t = .ok slots' → r.step t = .ok (next slots')
  stopped : ∀ stop, r.stopped stop = .error (.flaw stop.atValue)
  isOpen : r.IsOpen
  isOpen_next : ∀ slots', (next slots').IsOpen

theorem stopsShort_field (hr : Fills r slots f next) (hx : FieldText u f x) :
    StopsShort r Never x := by
  obtain ⟨t, ht, hfill⟩ := slots.fill_of_fieldText hx
  have text {ps : List Piece} {s : String} (hps : Spelling (.string ps) x) (hs : textOf? ps = some s)
      (hstep : r.step (.string ps) = .ok (next (slots.put u f))) : StopsShort r Never x := by
    refine stopsShort_string hps hr.isOpen hstep (hr.isOpen_next _) fun ps' hps' => ?_
    have hlone := isLone_of_prefix hps' (by rw [textOf?_eq_some_iff.1 hs]; rfl)
    rw [hr.stopped, Stop.atValue, hlone]
    rfl
  have hstep := hr.step t _ hfill
  cases f with
  | name =>
    obtain ⟨s, hs, -⟩ := Except.map_eq_ok_iff.1 hfill
    obtain ⟨ps, rfl, htext⟩ := readText_eq_ok_iff.1 hs
    exact text ht htext hstep
  | email =>
    obtain ⟨s, hs, -⟩ := Except.map_eq_ok_iff.1 hfill
    obtain ⟨ps, rfl, htext⟩ := readText_eq_ok_iff.1 hs
    exact text ht htext hstep
  | age =>
    refine stopsShort_unit ht hr.isOpen hstep (hr.isOpen_next _) fun p q hsplit hp _ => ?_
    obtain ⟨u', hu'⟩ := exists_shorter_age hx hsplit hp
    obtain ⟨t', ht', hfill'⟩ := slots.fill_of_fieldText hu'
    have hread := read_spelling ht' (fun _ _ => endsNumeral_nil) (hr.step t' _ hfill')
    rw [List.append_nil] at hread
    rw [hread]
    exact .inl (read_nil_of_isOpen (hr.isOpen_next _))

theorem valueText_of_fieldText (hx : FieldText u f x) : ValueText x := by
  have text {s : String} (h : StringText s x) : ValueText x := by
    obtain ⟨t, ht, rfl⟩ := h
    obtain ⟨ps, hps, -⟩ := exists_inside_of_spells ht
    exact .string hps
  cases f with
  | name => exact text hx
  | email => exact text hx
  | age =>
    obtain rfl : x = Nat.toDigits 10 u.age.toNat := hx
    exact .number (numberText_toDigits _)

theorem isOpen_afterMember : (afterMember slots).IsOpen := nofun

theorem fills_value (slots : Slots) (f : Field) :
    Fills (value slots (some f)) slots f afterMember where
  step t slots' h := by
    rw [step, h]
    rfl
  stopped _ := rfl
  isOpen := nofun
  isOpen_next _ := isOpen_afterMember

end Fields

section Members

-- Behind the opening brace or behind a comma.
def AtKey (r : Reading) (slots : Slots) : Prop := r = key slots ∨ r = firstKey ∧ slots = {}

theorem isOpen_firstKey : firstKey.IsOpen := nofun

theorem isOpen_key : (key slots).IsOpen := nofun

theorem AtKey.isOpen (hr : AtKey r slots) : r.IsOpen := by
  rcases hr with rfl | ⟨rfl, -⟩
  · exact isOpen_key
  · exact isOpen_firstKey

theorem AtKey.step_string (hr : AtKey r slots) (ps : List Piece) :
    r.step (.string ps) = (key slots).step (.string ps) := by
  rcases hr with rfl | ⟨rfl, rfl⟩ <;> rfl

theorem AtKey.stopped (hr : AtKey r slots) (stop : Stop) :
    r.stopped stop = .error (.flaw stop.atKey) := by
  rcases hr with rfl | ⟨rfl, -⟩ <;> rfl

theorem AtKey.read_member {m : String × List Char} (hr : AtKey r slots) (hx : KeyedMember m x)
    (s : List Char) : r.read (x ++ s) = (key slots).read (x ++ s) := by
  obtain ⟨k, hk, hx⟩ := hx
  obtain ⟨hb, hb'⟩ := hx
  rename_i b b'
  obtain ⟨ps, hps, -⟩ := exists_spelling_of_stringText ⟨k, hk, rfl⟩
  have hsplit : '"' :: (k ++ '"' :: (b ++ ':' :: (b' ++ m.2))) ++ s =
      '"' :: (k ++ ['"']) ++ (b ++ ':' :: (b' ++ (m.2 ++ s))) := by simp
  have hscan := scan_spelling hps (r := b ++ ':' :: (b' ++ (m.2 ++ s))) nofun
  rw [hsplit, read_of_scan hscan, read_of_scan hscan, hr.step_string]

theorem itemOf_of_keyedMember {m : String × List Char} {ms : List (String × List Char)}
    (hx : KeyedMember m x) (h : slots.Supplies u (m :: ms)) : ItemOf ValueText .object x := by
  obtain ⟨label, y⟩ := m
  obtain ⟨k, hk, hx⟩ := hx
  obtain ⟨ps, hps, -⟩ := exists_inside_of_spells hk
  refine ⟨k, y, ⟨ps, hps⟩, ?_, hx⟩
  cases hlabel : Field.labelled? label with
  | none => exact ((Slots.supplies_cons_other_iff (Field.labelled?_eq_none_iff.1 hlabel)).1 h).1
  | some f =>
    obtain rfl := Field.labelled?_eq_some_iff.1 hlabel
    exact valueText_of_fieldText (Slots.supplies_cons_label_iff.1 h).2.1

theorem stopsShort_member {m : String × List Char} {ms : List (String × List Char)}
    (hr : AtKey r slots) (hx : KeyedMember m x) (h : slots.Supplies u (m :: ms)) :
    StopsShort r (CutsItem OtherKey .object) x := by
  obtain ⟨label, y⟩ := m
  obtain ⟨k, hk, hx⟩ := hx
  obtain ⟨ps, hps, htext⟩ := exists_inside_of_spells hk
  have hlabel : textOf? ps = some label := textOf?_eq_some_iff.2 htext
  have hstop (ps' : List Piece) (hps' : ps' <+: ps) :
      r.stopped (.string ps' .truncated) = .error (.flaw .truncated) := by
    have hlone := isLone_of_prefix hps' (by rw [htext]; rfl)
    rw [hr.stopped, Stop.atKey, hlone]
    rfl
  -- The value is looked at or passed over, depending on the key.
  have keyed {C : List Char → List Char → Prop}
      (hfree : ∀ f, Field.labelled? label = some f → slots.has f = false)
      (hv : StopsShort (value slots (Field.labelled? label)) C y) :
      StopsShort r (fun p q => ∃ x', KeyText k x' ∧ Behind x' C p q) x := by
    have hstep : r.step (.string ps) = .ok (colon slots (Field.labelled? label)) := by
      rw [hr.step_string]
      exact readKey_eq_ok_iff.2 ⟨ps, label, rfl, hlabel, hfree, rfl⟩
    exact stopsShort_keyed hx hps hr.isOpen hstep nofun hstop rfl nofun hv
  cases hfield : Field.labelled? label with
  | none =>
    have hother := Field.labelled?_eq_none_iff.1 hfield
    obtain ⟨hy, -⟩ := (Slots.supplies_cons_other_iff hother).1 h
    have hvalue : StopsShort (value slots (Field.labelled? label)) CutsNumber y := by
      intro p q hsplit
      rw [hfield, read_value_none]
      exact stops_of_valueText hy slots [] .value (.inl rfl) p q hsplit
    refine (keyed (by simp [hfield]) hvalue).mono ?_
    rintro p q ⟨x', hx', p', rfl, hcut⟩
    exact .member ⟨label, hk, Field.forall_ne_label_iff.1 hother⟩ hx' hcut
  | some f =>
    obtain rfl := Field.labelled?_eq_some_iff.1 hfield
    obtain ⟨hfree, hy, -⟩ := Slots.supplies_cons_label_iff.1 h
    have hfree' : ∀ g, Field.labelled? f.label = some g → slots.has g = false := by
      intro g hg
      obtain rfl : f = g := Option.some.inj (hfield.symm.trans hg)
      exact hfree
    have hvalue : StopsShort (value slots (Field.labelled? f.label)) Never y := by
      rw [hfield]
      exact stopsShort_field (fills_value slots f) hy
    refine (keyed hfree' hvalue).mono ?_
    rintro p q ⟨x', -, p', -, hcut⟩
    exact hcut.elim

theorem stopsShort_members {ms : List (String × List Char)} {t : List Char}
    (ht : Items KeyedMember ms t) (hr : AtKey r slots) (h : slots.Supplies u ms) :
    StopsShort r (CutsItems OtherKey .object) t := by
  induction ht generalizing r slots with
  | @one m b x b' hb hx hb' =>
    obtain ⟨slots', -, hread⟩ := exists_read_member hx h
    exact .item_append hb hr.isOpen (stopsShort_member hr hx h)
      (fun s hs => (hr.read_member hx s).trans (hread s hs))
      (stopsShort_blanks (C := Never) hb' isOpen_afterMember) (endsNumeral_of_blanks hb')
      (fun p q hcut => (hcut.extend (endsNumeral_of_blanks hb')).behind_blanks hb)
      (fun _ _ hcut => hcut.elim)
  | @cons m ms b x b' t hb hx hb' _ ih =>
    obtain ⟨slots', hms, hread⟩ := exists_read_member hx h
    have hends := endsNumeral_of_mark (c := ',') rfl hb' t
    have hcomma := (ih (.inl rfl) hms).mark_append (m := .comma) (c := ',') (r := afterMember slots')
      rfl isOpen_afterMember rfl isOpen_key
    refine .item_append hb hr.isOpen (stopsShort_member hr hx h)
      (fun s hs => (hr.read_member hx s).trans (hread s hs)) (hcomma.blanks_append hb' isOpen_afterMember) hends
      (fun p q hcut => (hcut.extend hends).behind_blanks hb) ?_
    rintro p q ⟨_, rfl, p', rfl, hcut⟩
    exact hcut.behind_item hb (itemOf_of_keyedMember hx h) hb'

end Members

section Elements

-- Behind the opening bracket or behind a comma.
def AtElement (r : Reading) (slots : Slots) (n : Nat) : Prop :=
  r = element slots n ∨ r = firstElement ∧ slots = {} ∧ n = 0

theorem isOpen_firstElement : firstElement.IsOpen := nofun

theorem isOpen_element {n : Nat} : (element slots n).IsOpen := nofun

theorem isOpen_afterElement {n : Nat} : (afterElement slots n).IsOpen := nofun

theorem AtElement.fills {n : Nat} (hr : AtElement r slots n) (hf : Field.all[n]? = some f) :
    Fills r slots f fun slots' => afterElement slots' (n + 1) where
  step t slots' h := by
    have helement := step_element_eq_ok_iff.2 ⟨f, slots', hf, h, rfl⟩
    rcases hr with rfl | ⟨rfl, rfl, rfl⟩
    · exact helement
    · have hclose : t ≠ .mark .closeBracket := by
        rintro rfl
        obtain rfl : Field.name = f := Option.some.inj hf
        cases h
      rw [step, if_neg hclose]
      exact helement
  stopped stop := by rcases hr with rfl | ⟨rfl, -⟩ <;> rfl
  isOpen := by
    rcases hr with rfl | ⟨rfl, -⟩
    · exact isOpen_element
    · exact isOpen_firstElement
  isOpen_next _ := isOpen_afterElement

theorem stopsShort_elements {n : Nat} {fs : List Field} {t : List Char}
    (ht : Items (FieldText u) fs t) (hfs : Field.all.drop n = fs) (hr : AtElement r slots n) :
    StopsShort r Never t := by
  have element {n : Nat} {r : Reading} {slots : Slots} {f : Field} {x : List Char}
      (hr : AtElement r slots n) (hf : Field.all[n]? = some f) (hx : FieldText u f x) (s : List Char)
      (hs : EndsNumeral s) : r.read (x ++ s) = (afterElement (slots.put u f) (n + 1)).read s := by
    obtain ⟨t, ht, hfill⟩ := slots.fill_of_fieldText hx
    exact read_spelling ht (fun _ _ => hs) ((hr.fills hf).step t _ hfill)
  induction ht generalizing r slots n with
  | @one f b x b' hb hx hb' =>
    obtain ⟨hget, -⟩ := drop_all hfs
    have hfield := stopsShort_field (hr.fills hget) hx
    exact .item_append hb (hr.fills hget).isOpen hfield (element hr hget hx)
      (stopsShort_blanks (C := Never) hb' isOpen_afterElement) (endsNumeral_of_blanks hb')
      (fun _ _ hcut => hcut.elim) (fun _ _ hcut => hcut.elim)
  | @cons f fs b x b' t hb hx hb' ht ih =>
    obtain ⟨hget, hrest⟩ := drop_all hfs
    have hfield := stopsShort_field (hr.fills hget) hx
    have hn : n + 1 < 3 := by
      have hne : Field.all.drop (n + 1) ≠ [] := by
        rw [hrest]
        exact ht.ne_nil
      exact Nat.lt_of_not_le fun hle => hne (List.drop_eq_nil_of_le hle)
    have hstep : (afterElement (slots.put u f) (n + 1)).step (.mark .comma) =
        .ok (.element (slots.put u f) (n + 1)) := by
      rw [step, if_neg (by decide), if_pos ⟨rfl, hn⟩]
    have hcomma := (ih hrest (.inl rfl)).mark_append (m := .comma) (c := ',') rfl
      isOpen_afterElement hstep isOpen_element
    refine .item_append hb (hr.fills hget).isOpen hfield (element hr hget hx)
      (hcomma.blanks_append hb' isOpen_afterElement) (endsNumeral_of_mark (c := ',') rfl hb' t)
      (fun _ _ hcut => hcut.elim) ?_
    rintro p q ⟨_, -, p', -, hcut⟩
    exact hcut.elim

end Elements

section Texts

theorem eq_nil_of_getLast? (hb : Blanks b) (hlast : ∀ c ∈ (x ++ b).getLast?, isBlank c = false) :
    b = [] := by
  by_contra hne
  have hblank : isBlank (b.getLast hne) = true := isBlank_iff.2 (hb _ (List.getLast_mem hne))
  have hmem : b.getLast hne ∈ (x ++ b).getLast? := by
    rw [List.getLast?_append, List.getLast?_eq_some_getLast hne]
    rfl
  rw [hlast _ hmem] at hblank
  cases hblank

theorem isOpen_start : start.IsOpen := nofun

-- All but the closing bracket stops short.
theorem exists_closing {text : List Char} (hx : UserText u text)
    (hlast : ∀ c ∈ text.getLast?, isBlank c = false) :
    ∃ x c, text = x ++ [c] ∧ EndsNumeral [c] ∧ StopsShort start CutsUnknownNumber x := by
  cases hx with
  | @object ms b t b' hb ht hb' hname hemail hage hothers =>
    have hsplit : b ++ '\x7b' :: (t ++ '\x7d' :: b') = b ++ '\x7b' :: (t ++ ['\x7d']) ++ b' := by simp
    rw [hsplit] at hlast
    obtain rfl := eq_nil_of_getLast? hb' hlast
    have hsupplies := Slots.supplies_empty_iff.2 ⟨hname, hemail, hage, hothers⟩
    have hmembers := stopsShort_members ht (.inr ⟨rfl, rfl⟩) hsupplies
    have hobject := (hmembers.mark_append (m := .openBrace) (c := '\x7b') rfl isOpen_start rfl
      isOpen_firstKey).blanks_append hb isOpen_start
    refine ⟨b ++ '\x7b' :: t, '\x7d', by simp, endsNumeral_closing .object, hobject.mono ?_⟩
    rintro p q ⟨_, rfl, p', rfl, hcut⟩
    exact cutsUnknownNumber_of_items hb hcut
  | @list b t b' hb ht hb' =>
    have hsplit : b ++ '[' :: (t ++ ']' :: b') = b ++ '[' :: (t ++ [']']) ++ b' := by simp
    rw [hsplit] at hlast
    obtain rfl := eq_nil_of_getLast? hb' hlast
    have helements := stopsShort_elements ht rfl (.inr ⟨rfl, rfl, rfl⟩)
    have hlist := (helements.mark_append (m := .openBracket) (c := '[') rfl isOpen_start rfl
      isOpen_firstElement).blanks_append hb isOpen_start
    refine ⟨b ++ '[' :: t, ']', by simp, endsNumeral_closing .list, hlist.mono ?_⟩
    rintro p q ⟨_, -, p', -, hcut⟩
    exact hcut.elim

end Texts

end Reading

-- Only where the cut falls inside a number that nobody looks at may the text be malformed as well.
theorem ofJson_cut {text front rest : String} {u : User} (h : ofJson text = .ok u)
    (hlast : text.toList.getLast? = some '\x7d' ∨ text.toList.getLast? = some ']')
    (hsplit : text = front ++ rest) (hrest : rest ≠ "") :
    ofJson front = .error (.flaw .truncated) ∨
      ofJson front = .error (.flaw .malformed) ∧ CutsUnknownNumber front.toList rest.toList := by
  have hclosed : ∀ c ∈ text.toList.getLast?, isBlank c = false := by
    rcases hlast with hlast | hlast <;> (rw [hlast]; rintro c ⟨⟩; rfl)
  obtain ⟨x, c, hx, hends, hshort⟩ := Reading.exists_closing (userText_of_ofJson h) hclosed
  have hcut : x ++ [c] = front.toList ++ rest.toList := by
    rw [← hx, hsplit, @String.toList_append front rest]
  have hne : rest.toList ≠ [] := fun hnil => hrest (String.toList_eq_nil_iff.1 hnil)
  obtain ⟨q, hq, hq'⟩ := exists_of_append_singleton hcut hne
  rw [ofJson_eq, hq']
  exact (hshort _ q hq).imp_right fun ⟨hread, h⟩ => ⟨hread, h.extend hends⟩

-- Cut inside the number of a list that stands under an unknown key.
theorem ofJson_cut_unknown :
    ofJson "\x7b\"age\":7,\"x\":[0,1.5],\"name\":\"A\",\"email\":\"a@x\"\x7d" = .ok ⟨"A", "a@x", 7⟩ ∧
      (ofJson "\x7b\"age\":7,\"x\":[0,1." = .error (.flaw .truncated) ∨
        ofJson "\x7b\"age\":7,\"x\":[0,1." = .error (.flaw .malformed) ∧
          CutsUnknownNumber "\x7b\"age\":7,\"x\":[0,1.".toList
            "5],\"name\":\"A\",\"email\":\"a@x\"\x7d".toList) := by
  have h : ofJson "\x7b\"age\":7,\"x\":[0,1.5],\"name\":\"A\",\"email\":\"a@x\"\x7d" =
      .ok ⟨"A", "a@x", 7⟩ := by
    cbv
  exact ⟨h, ofJson_cut h (.inl (by decide)) (by decide) (by decide)⟩

end Roster.User
