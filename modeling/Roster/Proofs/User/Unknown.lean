import Mathlib
import Roster.Proofs.Json.NumberCut
import Roster.Proofs.User.RoundTrip

namespace Roster.User

open Json

-- One or more members with commas between them, whatever their keys and values.
def MembersText (t : List Char) : Prop :=
  ∃ xs, Items Eq xs t ∧ ∀ x ∈ xs, ItemOf ValueText .object x

-- A member among blanks whose key is not the name of a field.
inductive OtherMember : List Char → Prop
  | member {key : String} {k v b x b' : List Char} (hb : Blanks b) (hk : Spells key.toList k)
      (hkey : key ∉ ["name", "email", "age"]) (hv : ValueText v) (hx : MemberText k v x)
      (hb' : Blanks b') : OtherMember (b ++ (x ++ b'))

-- What stands between the braces of an object, without `y` and with it as one more member.
inductive Inserted (y : List Char) : List Char → List Char → Prop
  | only {b : List Char} (hb : Blanks b) : Inserted y b y
  | first {t : List Char} (ht : MembersText t) : Inserted y t (y ++ ',' :: t)
  | between {t t' : List Char} (ht : MembersText t) (ht' : MembersText t') :
      Inserted y (t ++ ',' :: t') (t ++ ',' :: (y ++ ',' :: t'))
  | last {t : List Char} (ht : MembersText t) : Inserted y t (t ++ ',' :: y)

theorem OtherMember.membersText {y : List Char} (h : OtherMember y) : MembersText y := by
  cases h with
  | @member key k v b x b' hb hk hkey hv hx hb' =>
    obtain ⟨ps, hps, -⟩ := exists_inside_of_spells hk
    refine ⟨[x], .one hb rfl hb', fun x' hx' => ?_⟩
    rw [List.mem_singleton.1 hx']
    exact ⟨k, v, ⟨ps, hps⟩, hv, hx⟩

namespace Reading

variable {r r' : Reading} {slots : Slots} {t : Token} {f : Field} {g g' : Slots → Reading}
  {b s v x y : List Char}

section Settles

def Leads (r : Reading) (x : List Char) (o : Except Problem Reading) : Prop :=
  ∀ s, EndsNumeral s → r.read (x ++ s) = o.bind fun r' => r'.read s

-- Either a problem is found inside the text, or reading goes on at one kind of place behind it.
def Settles (r : Reading) (x : List Char) (g : Slots → Reading) : Prop :=
  ∃ o : Except Problem Slots, Leads r x (o.map g)

theorem read_unit (hx : Spelling t x) (hs : Ends t s) (r : Reading) :
    r.read (x ++ s) = (r.step t).bind fun r' => r'.read s :=
  read_of_scan (scan_spelling hx hs)

theorem settles_unit {o : Except Problem Slots} (hx : Spelling t x) (h : r.step t = o.map g) :
    Settles r x g := by
  refine ⟨o, fun s hs => ?_⟩
  rw [read_unit hx (fun _ _ => hs), h]

theorem settles_blanks (hb : Blanks b) (slots : Slots) (g : Slots → Reading) :
    Settles (g slots) b g :=
  ⟨.ok slots, fun s _ => read_blanks hb (g slots) s⟩

-- A problem in the first part hides the second one.
theorem Settles.append (hx : Settles r x g) (hends : ∀ s, EndsNumeral s → EndsNumeral (y ++ s))
    (hy : ∀ slots, Settles (g slots) y g') : Settles r (x ++ y) g' := by
  obtain ⟨o, ho⟩ := hx
  cases o with
  | error p =>
    refine ⟨.error p, fun s hs => ?_⟩
    rw [List.append_assoc]
    exact ho (y ++ s) (hends s hs)
  | ok slots =>
    obtain ⟨o', ho'⟩ := hy slots
    refine ⟨o', fun s hs => ?_⟩
    rw [List.append_assoc, ← ho' s hs]
    exact ho (y ++ s) (hends s hs)

theorem Settles.append_blanks (hx : Settles r x g) (hb : Blanks b) : Settles r (x ++ b) g :=
  hx.append (fun _ hs => (endsNumeral_of_blanks hb).append hs) fun slots => settles_blanks hb slots g

-- Behind blanks and a mark.
theorem Settles.append_mark {m : Mark} {c : Char} (hx : Settles r x g) (hb : Blanks b)
    (hc : markOf? c = some m) (hstep : ∀ slots, (g slots).step (.mark m) = .ok (g' slots))
    {g'' : Slots → Reading} (hy : ∀ slots, Settles (g' slots) y g'') :
    Settles r (x ++ (b ++ c :: y)) g'' := by
  refine hx.append (fun s _ => ?_) fun slots => ?_
  · rw [List.append_assoc, List.cons_append]
    exact endsNumeral_of_mark hc hb (y ++ s)
  · obtain ⟨o, ho⟩ := hy slots
    refine ⟨o, fun s hs => ?_⟩
    rw [List.append_assoc, List.cons_append, read_blanks hb, read_mark hc (hstep slots), ho s hs]

end Settles

section Members

-- A bracket where a field is read is a problem, whatever stands inside.
theorem settles_bracket {m : Mark} {c : Char} (hc : markOf? c = some m) (slots : Slots) (f : Field)
    (x : List Char) : Settles (value slots (some f)) (c :: x) afterMember := by
  have hfill : ∃ p, slots.fill f (.mark m) = .error p := by
    cases f <;> exact ⟨_, rfl⟩
  obtain ⟨p, hp⟩ := hfill
  refine ⟨.error p, fun s _ => ?_⟩
  have hstep : (value slots (some f)).step (.mark m) = .error p := by
    rw [step, hp]
    rfl
  have hends : Ends (.mark m) (x ++ s) := by
    rintro n ⟨⟩
  have hread := read_unit (x := [c]) (.mark hc) hends (value slots (some f))
  rw [hstep] at hread
  exact hread

theorem settles_field (slots : Slots) (f : Field) (hv : ValueText v) :
    Settles (value slots (some f)) v afterMember := by
  cases hv with
  | null => exact settles_unit .null rfl
  | true => exact settles_unit .true rfl
  | false => exact settles_unit .false rfl
  | number h => exact settles_unit (.number h) rfl
  | string h => exact settles_unit (.string h) rfl
  | emptyList | list => exact settles_bracket (m := .openBracket) rfl slots f _
  | emptyObject | object => exact settles_bracket (m := .openBrace) rfl slots f _

theorem settles_value (slots : Slots) (o : Option Field) (hv : ValueText v) :
    Settles (value slots o) v afterMember := by
  cases o with
  | none => exact ⟨.ok slots, fun s hs => read_skipped slots hv hs⟩
  | some f => exact settles_field slots f hv

-- A key is read as the name of a field or of none, or it is refused.
theorem exists_settles_key {ps : List Piece} (slots : Slots) (hps : Inside ps x) :
    ∃ f, Settles (key slots) ('"' :: (x ++ ['"'])) (colon · f) := by
  cases hkey : readKey slots (.string ps) with
  | error p => exact ⟨none, settles_unit (o := .error p) (.string hps) hkey⟩
  | ok r =>
    obtain ⟨_, label, -, -, -, rfl⟩ := readKey_eq_ok_iff.1 hkey
    exact ⟨_, settles_unit (o := .ok slots) (.string hps) hkey⟩

theorem settles_member (slots : Slots) (hx : ItemOf ValueText .object x) :
    Settles (key slots) x afterMember := by
  obtain ⟨k, v, ⟨ps, hps⟩, hv, hm⟩ := hx
  cases hm with
  | @pair b b' hb hb' =>
    obtain ⟨f, hkey⟩ := exists_settles_key slots hps
    have hvalue (slots : Slots) : Settles (value slots f) (b' ++ v) afterMember := by
      obtain ⟨o, ho⟩ := settles_value slots f hv
      refine ⟨o, fun s hs => ?_⟩
      rw [List.append_assoc, read_blanks hb', ho s hs]
    have hmember := hkey.append_mark (m := .colon) (c := ':') hb rfl (fun _ => rfl) hvalue
    have hsplit : '"' :: (k ++ '"' :: (b ++ ':' :: (b' ++ v))) =
        '"' :: (k ++ ['"']) ++ (b ++ ':' :: (b' ++ v)) := by simp
    rw [hsplit]
    exact hmember

theorem settles_items {xs : List (List Char)} (hx : Items Eq xs x)
    (hxs : ∀ x ∈ xs, ItemOf ValueText .object x) (slots : Slots) :
    Settles (key slots) x afterMember := by
  induction hx generalizing slots with
  | @one y b x b' hb hy hb' =>
    subst hy
    have hmember := settles_member slots (hxs y (by simp))
    obtain ⟨o, ho⟩ := hmember.append_blanks hb'
    refine ⟨o, fun s hs => ?_⟩
    rw [List.append_assoc, read_blanks hb, ho s hs]
  | @cons y ys b x b' t hb hy hb' _ ih =>
    subst hy
    have hmember := settles_member slots (hxs y (by simp))
    have hrest := ih fun x hx => hxs x (List.mem_cons_of_mem y hx)
    obtain ⟨o, ho⟩ := hmember.append_mark (m := .comma) (c := ',') hb' rfl (fun _ => rfl) hrest
    refine ⟨o, fun s hs => ?_⟩
    rw [List.append_assoc, read_blanks hb, ho s hs]

theorem settles_membersText (h : MembersText x) (slots : Slots) :
    Settles (key slots) x afterMember := by
  obtain ⟨xs, hx, hxs⟩ := h
  exact settles_items hx hxs slots

end Members

section Inserted

theorem endsNumeral_cons {m : Mark} {c : Char} (hc : markOf? c = some m) (s : List Char) :
    EndsNumeral (c :: s) :=
  endsNumeral_of_mark hc Blanks.nil s

-- Only an object without members tells the first key from the others.
theorem read_firstKey_member {ps : List Piece} {k : List Char} (hps : Inside ps k)
    (hm : MemberText k v y) (s : List Char) : firstKey.read (y ++ s) = (key {}).read (y ++ s) := by
  cases hm with
  | @pair b b' hb hb' =>
    have hsplit : '"' :: (k ++ '"' :: (b ++ ':' :: (b' ++ v))) ++ s =
        '"' :: (k ++ ['"']) ++ (b ++ ':' :: (b' ++ (v ++ s))) := by simp
    rw [hsplit, read_unit (.string hps) nofun, read_unit (.string hps) nofun]
    rfl

theorem read_firstKey_items {α : Type} {Item : α → List Char → Prop} {as : List α}
    (hx : Items Item as x)
    (hitem : ∀ a ∈ as, ∀ y, Item a y → ∃ ps k v, Inside ps k ∧ MemberText k v y) (s : List Char) :
    firstKey.read (x ++ s) = (key {}).read (x ++ s) := by
  cases hx with
  | @one a b y b' hb hy hb' =>
    obtain ⟨ps, k, v, hps, hm⟩ := hitem a (by simp) y hy
    simp only [List.append_assoc]
    rw [read_blanks hb, read_blanks hb, read_firstKey_member hps hm]
  | @cons a as b y b' t hb hy hb' _ =>
    obtain ⟨ps, k, v, hps, hm⟩ := hitem a (by simp) y hy
    simp only [List.append_assoc]
    rw [read_blanks hb, read_blanks hb, read_firstKey_member hps hm]

theorem read_firstKey_membersText (h : MembersText x) (s : List Char) :
    firstKey.read (x ++ s) = (key {}).read (x ++ s) := by
  obtain ⟨xs, hx, hxs⟩ := h
  refine read_firstKey_items hx (fun y hy z hz => ?_) s
  obtain ⟨k, v, ⟨ps, hps⟩, -, hm⟩ := hxs y hy
  exact ⟨ps, k, v, hps, hz ▸ hm⟩

theorem read_other (hy : OtherMember y) (slots : Slots) (hs : EndsNumeral s) :
    (key slots).read (y ++ s) = (afterMember slots).read s := by
  cases hy with
  | @member key k v b x b' hb hk hkey hv hx hb' =>
    have hnone : Field.labelled? key = none :=
      Field.labelled?_eq_none_iff.2 (Field.forall_ne_label_iff.2 hkey)
    have hends := (endsNumeral_of_blanks hb').append hs
    simp only [List.append_assoc]
    rw [read_blanks hb, read_key hk hx (by simp [hnone]), hnone, read_skipped slots hv hends,
      read_blanks hb']

theorem read_comma_other (hy : OtherMember y) (slots : Slots) (hs : EndsNumeral s) :
    (afterMember slots).read (',' :: (y ++ s)) = (afterMember slots).read s := by
  rw [read_mark (m := .comma) rfl rfl, read_other hy slots hs]

theorem read_membersText_comma (h : MembersText x) (hy : OtherMember y) (hs : EndsNumeral s) :
    firstKey.read (x ++ ',' :: (y ++ s)) = firstKey.read (x ++ s) := by
  obtain ⟨o, ho⟩ := settles_membersText h {}
  have hcomma := endsNumeral_cons (m := .comma) (c := ',') rfl (y ++ s)
  rw [read_firstKey_membersText h, read_firstKey_membersText h, ho _ hcomma, ho s hs]
  cases o with
  | error p => rfl
  | ok slots => exact read_comma_other hy slots hs

theorem read_inserted (hy : OtherMember y) (h : Inserted y x s) (b : List Char) :
    firstKey.read (s ++ '\x7d' :: b) = firstKey.read (x ++ '\x7d' :: b) := by
  have hbrace := endsNumeral_cons (m := .closeBrace) (c := '\x7d') rfl b
  cases h with
  | only hb =>
    rw [read_firstKey_membersText hy.membersText, read_other hy {} hbrace, read_blanks hb]
    have hclose := read_unit (x := ['\x7d']) (s := b) (.mark (m := .closeBrace) rfl) nofun
    exact (hclose (afterMember {})).trans (hclose firstKey).symm
  | first ht =>
    have hcomma := endsNumeral_cons (m := .comma) (c := ',') rfl (x ++ '\x7d' :: b)
    rw [List.append_assoc, List.cons_append, read_firstKey_membersText hy.membersText,
      read_other hy {} hcomma, read_mark (m := .comma) rfl rfl, read_firstKey_membersText ht]
  | @between t t' ht ht' =>
    have hcomma := endsNumeral_cons (m := .comma) (c := ',') rfl (t' ++ '\x7d' :: b)
    simp only [List.append_assoc, List.cons_append]
    exact read_membersText_comma ht hy hcomma
  | last ht =>
    simp only [List.append_assoc, List.cons_append]
    exact read_membersText_comma ht hy hbrace

end Inserted

end Reading

-- One more member that no field is read from changes neither the user nor the problem that is found
-- instead.
theorem ofJson_inserted {text text' : String} {b t t' b' y : List Char} (hb : Blanks b)
    (hy : OtherMember y) (h : Inserted y t t')
    (htext : text.toList = b ++ '\x7b' :: (t ++ '\x7d' :: b'))
    (htext' : text'.toList = b ++ '\x7b' :: (t' ++ '\x7d' :: b')) :
    ofJson text' = ofJson text := by
  rw [ofJson_eq, ofJson_eq, htext, htext', Reading.read_blanks hb, Reading.read_blanks hb,
    Reading.read_mark (m := .openBrace) rfl rfl, Reading.read_mark (m := .openBrace) rfl rfl,
    Reading.read_inserted hy h b']

theorem items_singleton (x : List Char) : Items Eq [x] x := by
  have hone : Items Eq [x] _ := .one Blanks.nil rfl Blanks.nil
  simpa using hone

theorem membersText_written (key : String) {v : List Char} (hv : ValueText v) :
    MembersText (writeString key ++ ':' :: v) := by
  obtain ⟨k, hk, hm⟩ := keyedMember_written key v
  obtain ⟨ps, hps, -⟩ := exists_inside_of_spells hk
  refine ⟨_, items_singleton _, fun x hx => ?_⟩
  rw [List.mem_singleton.1 hx]
  exact ⟨k, v, ⟨ps, hps⟩, hv, hm⟩

theorem otherMember_written {key : String} {v : List Char} (hkey : key ∉ ["name", "email", "age"])
    (hv : ValueText v) : OtherMember (writeString key ++ ':' :: v) := by
  obtain ⟨k, hk, hm⟩ := keyedMember_written key v
  simpa using OtherMember.member Blanks.nil hk hkey hv hm Blanks.nil

theorem valueText_big : ValueText "1e999".toList := by
  have hw : WholeText ['1'] := .row (by decide) ⟨nofun, by simp⟩
  have he : ExponentText (some (false, ['9', '9', '9'])) ['e', '9', '9', '9'] :=
    .plain (.inl rfl) ⟨nofun, by simp⟩
  exact .number (.plain hw .absent he)

-- Between two members, of which one is a problem, with a field's name deep inside.
theorem ofJson_inserted_nested :
    ofJson "\x7b\"age\":-1,\"name\":\"A\"\x7d" =
        .error (.data (.outOfRange (.integer (-1)) "u32")) ∧
      ofJson "\x7b\"age\":-1,\"x\":[\x7b\"age\":1e999\x7d],\"name\":\"A\"\x7d" =
        ofJson "\x7b\"age\":-1,\"name\":\"A\"\x7d" := by
  have hw : WholeText ['1'] := .row (by decide) ⟨nofun, by simp⟩
  have hage : ValueText "-1".toList := .number (.negative hw .absent .absent)
  have hname : ValueText "\"A\"".toList :=
    .string (.cons (.raw (by decide) (by decide) (by decide)) .nil)
  have hinner : MembersText "\"age\":1e999".toList := membersText_written "age" valueText_big
  obtain ⟨xs, hitems, hxs⟩ := hinner
  have hobject : ValueText "\x7b\"age\":1e999\x7d".toList := valueText_of_items .object hitems hxs
  have hlist : ValueText "[\x7b\"age\":1e999\x7d]".toList :=
    .list (items_singleton "\x7b\"age\":1e999\x7d".toList) (by simpa using hobject)
  have hother : OtherMember "\"x\":[\x7b\"age\":1e999\x7d]".toList :=
    @otherMember_written "x" _ (by decide) hlist
  have hgain := Inserted.between (y := "\"x\":[\x7b\"age\":1e999\x7d]".toList)
    (membersText_written "age" hage) (membersText_written "name" hname)
  exact ⟨by cbv, ofJson_inserted .nil hother hgain rfl rfl⟩

end Roster.User
