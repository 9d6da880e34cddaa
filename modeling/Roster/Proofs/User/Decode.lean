import Roster.Proofs.User.Format
import Roster.Proofs.User.Skip

namespace Roster.User

open Json

namespace Reading

variable {slots slots' : Slots} {u v : User} {r r' : Reading} {t : Token} {f : Field}
  {b k s x y : List Char}

-- Readings with the same next steps read the same users.
theorem read_eq_ok_iff_of_step (h : ∀ t next, r.step t = .ok next ↔ r'.step t = .ok next)
    (hr : ∀ v, r ≠ .finished v) (hr' : ∀ v, r' ≠ .finished v) :
    r.read s = .ok u ↔ r'.read s = .ok u := by
  unfold read
  cases (scan s).1 with
  | nil =>
    constructor
    · exact fun h => absurd (stopped_eq_ok h).1 (hr u)
    · exact fun h => absurd (stopped_eq_ok h).1 (hr' u)
  | cons t ts =>
    rw [List.foldlM_cons, List.foldlM_cons]
    cases hstep : r.step t with
    | ok next => rw [(h t next).1 hstep]
    | error p =>
      cases hstep' : r'.step t with
      | ok next => exact absurd (hstep.symm.trans ((h t next).2 hstep')) nofun
      | error p' => constructor <;> nofun

-- The bracket that closes an empty object or list helps no more than any other wrong unit.
theorem read_firstKey_iff : firstKey.read s = .ok u ↔ (key {}).read s = .ok u := by
  refine read_eq_ok_iff_of_step (fun t next => ?_) nofun nofun
  by_cases ht : t = .mark .closeBrace
  · subst ht
    constructor <;> nofun
  · rw [step, if_neg ht]
    rfl

theorem read_firstElement_iff : firstElement.read s = .ok u ↔ (element {} 0).read s = .ok u := by
  refine read_eq_ok_iff_of_step (fun t next => ?_) nofun nofun
  by_cases ht : t = .mark .closeBracket
  · subst ht
    constructor <;> nofun
  · rw [step, if_neg ht]
    rfl

theorem blanks_of_read_finished (h : (finished v).read s = .ok u) : Blanks s ∧ v = u := by
  rcases exists_spelling_of_read h with ⟨hs, hv⟩ | ⟨_, _, _, _, _, -, -, -, -, hstep, -⟩
  · exact ⟨hs, finished.inj hv⟩
  · cases hstep

theorem readKey_eq_ok_iff {slots : Slots} :
    readKey slots t = .ok r ↔ ∃ ps label, t = .string ps ∧ textOf? ps = some label ∧
      (∀ f, Field.labelled? label = some f → slots.has f = false) ∧
      r = .colon slots (Field.labelled? label) := by
  constructor
  · intro h
    unfold readKey at h
    split at h
    · split at h
      · cases h
      · rename_i label hlabel
        split at h
        · rename_i hnone
          cases h
          exact ⟨_, label, rfl, hlabel, by simp [hnone], by rw [hnone]⟩
        · rename_i f hf
          split_ifs at h with hhas
          cases h
          refine ⟨_, label, rfl, hlabel, fun g hg => ?_, by rw [hf]⟩
          obtain rfl : f = g := Option.some.inj (hf.symm.trans hg)
          exact Bool.eq_false_iff.2 hhas
    · cases h
  · rintro ⟨ps, label, rfl, hlabel, hfree, rfl⟩
    simp only [readKey, hlabel]
    cases hf : Field.labelled? label with
    | none => rfl
    | some f => simp [hfree f hf]

section Complete

theorem read_key {label : String} (hk : Spells label.toList k) (hx : MemberText k y x)
    (hfree : ∀ f, Field.labelled? label = some f → slots.has f = false) (s : List Char) :
    (key slots).read (x ++ s) = (value slots (Field.labelled? label)).read (y ++ s) := by
  obtain ⟨hb, hb'⟩ := hx
  rename_i b b'
  obtain ⟨ps, hps, hlabel⟩ := exists_spelling_of_stringText ⟨k, hk, rfl⟩
  have hstep : (key slots).step (.string ps) = .ok (.colon slots (Field.labelled? label)) :=
    readKey_eq_ok_iff.2 ⟨ps, label, rfl, hlabel, hfree, rfl⟩
  have hsplit : '"' :: (k ++ '"' :: (b ++ ':' :: (b' ++ y))) ++ s =
      '"' :: (k ++ ['"']) ++ (b ++ ':' :: (b' ++ (y ++ s))) := by simp
  rw [hsplit, read_spelling hps nofun hstep, read_blanks hb, read_mark (m := .colon) rfl rfl,
    read_blanks hb']

theorem exists_read_member {m : String × List Char} {ms : List (String × List Char)}
    (hx : KeyedMember m x) (h : slots.Supplies u (m :: ms)) :
    ∃ slots' : Slots, slots'.Supplies u ms ∧
      ∀ s, EndsNumeral s → (key slots).read (x ++ s) = (afterMember slots').read s := by
  obtain ⟨label, y⟩ := m
  obtain ⟨k, hk, hx⟩ := hx
  cases hlabel : Field.labelled? label with
  | none =>
    obtain ⟨hy, hms⟩ := (Slots.supplies_cons_other_iff (Field.labelled?_eq_none_iff.1 hlabel)).1 h
    refine ⟨slots, hms, fun s hs => ?_⟩
    rw [read_key hk hx (by simp [hlabel]), hlabel, read_skipped slots hy hs]
  | some f =>
    obtain rfl := Field.labelled?_eq_some_iff.1 hlabel
    obtain ⟨hf, hy, hms⟩ := Slots.supplies_cons_label_iff.1 h
    obtain ⟨t, ht, hfill⟩ := slots.fill_of_fieldText hy
    have hstep : (value slots (some f)).step t = .ok (.afterMember (slots.put u f)) := by
      rw [step, hfill]
      rfl
    have hfree : ∀ g, Field.labelled? f.label = some g → slots.has g = false := by
      intro g hg
      obtain rfl : f = g := Option.some.inj (hlabel.symm.trans hg)
      exact hf
    refine ⟨slots.put u f, hms, fun s hs => ?_⟩
    rw [read_key hk hx hfree, hlabel, read_spelling ht (fun _ _ => hs) hstep]

theorem read_members {ms : List (String × List Char)} (hx : Items KeyedMember ms x)
    (h : slots.Supplies u ms) (hb : Blanks b) :
    (key slots).read (x ++ '\x7d' :: b) = .ok u := by
  induction hx generalizing slots with
  | @one m b₁ x b₂ hb₁ hm hb₂ =>
    obtain ⟨slots', hms, hread⟩ := exists_read_member hm h
    have hclose : (afterMember slots').step (.mark .closeBrace) = .ok (.finished u) := by
      rw [step, if_neg (by decide), if_pos rfl, Slots.supplies_nil_iff.1 hms]
      rfl
    have hsplit : b₁ ++ (x ++ b₂) ++ '\x7d' :: b = b₁ ++ (x ++ (b₂ ++ '\x7d' :: b)) := by simp
    rw [hsplit, read_item_mark hb₁ hb₂ rfl hread hclose, read_finished hb]
  | @cons m ms b₁ x b₂ t hb₁ hm hb₂ _ ih =>
    obtain ⟨slots', hms, hread⟩ := exists_read_member hm h
    have hcomma : (afterMember slots').step (.mark .comma) = .ok (.key slots') := rfl
    have hsplit : b₁ ++ (x ++ (b₂ ++ ',' :: t)) ++ '\x7d' :: b =
        b₁ ++ (x ++ (b₂ ++ ',' :: (t ++ '\x7d' :: b))) := by simp
    rw [hsplit, read_item_mark hb₁ hb₂ rfl hread hcomma]
    exact ih hms

theorem step_element_eq_ok_iff {n : Nat} :
    (element slots n).step t = .ok r ↔
      ∃ f slots', Field.all[n]? = some f ∧ slots.fill f t = .ok slots' ∧
        r = .afterElement slots' (n + 1) := by
  rw [step, readElement]
  cases Field.all[n]? with
  | none => simp [malformed]
  | some f =>
    rw [Except.map_eq_ok_iff]
    constructor
    · rintro ⟨slots', hfill, rfl⟩
      exact ⟨f, slots', rfl, hfill, rfl⟩
    · rintro ⟨_, slots', ⟨⟩, hfill, rfl⟩
      exact ⟨slots', hfill, rfl⟩

theorem read_element {n : Nat} (hf : Field.all[n]? = some f) (hx : Spelling t x)
    (h : slots.fill f t = .ok slots') (s : List Char) (hs : EndsNumeral s) :
    (element slots n).read (x ++ s) = (afterElement slots' (n + 1)).read s :=
  read_spelling hx (fun _ _ => hs) (step_element_eq_ok_iff.2 ⟨f, slots', hf, h, rfl⟩)

theorem drop_all {n : Nat} {fs : List Field} (h : Field.all.drop n = f :: fs) :
    Field.all[n]? = some f ∧ Field.all.drop (n + 1) = fs := by
  rw [← List.head?_drop, ← List.tail_drop, h]
  exact ⟨rfl, rfl⟩

-- `fs` are the fields that are still to be read.
theorem read_elements {n : Nat} {fs : List Field} (hx : Items (FieldText u) fs x)
    (hfs : Field.all.drop n = fs) (h : ∀ f, f ∉ fs → slots.Holds u f) (hb : Blanks b) :
    (element slots n).read (x ++ ']' :: b) = .ok u := by
  have put {f : Field} {fs : List Field} {slots : Slots}
      (h : ∀ g, g ∉ f :: fs → slots.Holds u g) : ∀ g, g ∉ fs → (slots.put u f).Holds u g := by
    intro g hg
    by_cases hgf : g = f
    · rw [hgf]
      exact Slots.holds_put_self
    · exact (Slots.holds_put_of_ne hgf).2 (h g (List.not_mem_cons_of_ne_of_not_mem hgf hg))
  induction hx generalizing slots n with
  | @one f b₁ x b₂ hb₁ hf hb₂ =>
    obtain ⟨hget, hlast⟩ := drop_all hfs
    obtain ⟨t, ht, hfill⟩ := slots.fill_of_fieldText hf
    have hn : n + 1 = 3 := by
      have hlong := (List.getElem?_eq_some_iff.1 hget).1
      have hshort := List.drop_eq_nil_iff.1 hlast
      exact Nat.le_antisymm hlong hshort
    have hclose : (afterElement (slots.put u f) (n + 1)).step (.mark .closeBracket) =
        .ok (.finished u) := by
      rw [step, if_pos rfl, if_pos hn, Slots.user_eq_ok_iff.2 fun g => put h g List.not_mem_nil]
      rfl
    have hsplit : b₁ ++ (x ++ b₂) ++ ']' :: b = b₁ ++ (x ++ (b₂ ++ ']' :: b)) := by simp
    rw [hsplit, read_item_mark hb₁ hb₂ rfl (read_element hget ht hfill) hclose, read_finished hb]
  | @cons f fs b₁ x b₂ y hb₁ hf hb₂ hy ih =>
    obtain ⟨hget, hrest⟩ := drop_all hfs
    obtain ⟨t, ht, hfill⟩ := slots.fill_of_fieldText hf
    have hn : n + 1 < 3 := by
      have hne : Field.all.drop (n + 1) ≠ [] := by
        rw [hrest]
        exact hy.ne_nil
      exact Nat.lt_of_not_le fun hle => hne (List.drop_eq_nil_of_le hle)
    have hcomma : (afterElement (slots.put u f) (n + 1)).step (.mark .comma) =
        .ok (.element (slots.put u f) (n + 1)) := by
      rw [step, if_neg (by decide), if_pos ⟨rfl, hn⟩]
    have hsplit : b₁ ++ (x ++ (b₂ ++ ',' :: y)) ++ ']' :: b =
        b₁ ++ (x ++ (b₂ ++ ',' :: (y ++ ']' :: b))) := by simp
    rw [hsplit, read_item_mark hb₁ hb₂ rfl (read_element hget ht hfill) hcomma]
    exact ih hrest (put h)

end Complete

section Sound

theorem exists_colon_of_read {o : Option Field} (h : (colon slots o).read s = .ok u) :
    ∃ b s', s = b ++ ':' :: s' ∧ Blanks b ∧ s'.length < s.length ∧
      (value slots o).read s' = .ok u := by
  rcases exists_spelling_of_read h with ⟨-, ⟨⟩⟩ | ⟨b, t, x, s', r, rfl, hb, hx, hlt, hstep, hread⟩
  rw [step] at hstep
  split_ifs at hstep with ht
  · subst ht
    cases hstep
    exact ⟨b, s', by rw [hx.eq_char]; rfl, hb, hlt, hread⟩
  · cases hstep

theorem exists_field_of_read (h : (value slots (some f)).read s = .ok u) :
    ∃ b t y s' slots', s = b ++ (y ++ s') ∧ Blanks b ∧ Spelling t y ∧ s'.length < s.length ∧
      slots.fill f t = .ok slots' ∧ (afterMember slots').read s' = .ok u := by
  rcases exists_spelling_of_read h with ⟨-, ⟨⟩⟩ | ⟨b, t, y, s', r, rfl, hb, hy, hlt, hstep, hread⟩
  obtain ⟨slots', hfill, rfl⟩ := Except.map_eq_ok_iff.1 hstep
  exact ⟨b, t, y, s', slots', rfl, hb, hy, hlt, hfill, hread⟩

-- Behind a member stands another one or the end of the object.
theorem exists_mark_of_read_afterMember (h : (afterMember slots).read s = .ok u) :
    ∃ b s', Blanks b ∧ s'.length < s.length ∧
      (s = b ++ ',' :: s' ∧ (key slots).read s' = .ok u ∨
        s = b ++ '\x7d' :: s' ∧ slots.user = .ok u ∧ Blanks s') := by
  rcases exists_spelling_of_read h with ⟨-, ⟨⟩⟩ | ⟨b, t, x, s', r, rfl, hb, hx, hlt, hstep, hread⟩
  rw [step] at hstep
  refine ⟨b, s', hb, hlt, ?_⟩
  split_ifs at hstep with hcomma hclose
  · subst hcomma
    cases hstep
    exact .inl ⟨by rw [hx.eq_char]; rfl, hread⟩
  · subst hclose
    obtain ⟨v, hv, rfl⟩ := Except.map_eq_ok_iff.1 hstep
    obtain ⟨hs', rfl⟩ := blanks_of_read_finished hread
    exact .inr ⟨by rw [hx.eq_char]; rfl, hv, hs'⟩
  · cases hstep

theorem exists_member_of_read (h : (key slots).read s = .ok u) :
    ∃ b m x s' slots', s = b ++ (x ++ s') ∧ Blanks b ∧ KeyedMember m x ∧ s'.length < s.length ∧
      (afterMember slots').read s' = .ok u ∧
      ∀ ms, slots'.Supplies u ms → slots.Supplies u (m :: ms) := by
  rcases exists_spelling_of_read h with ⟨-, ⟨⟩⟩ | ⟨b, t, x, s₁, r, rfl, hb, hx, hlt, hstep, hread⟩
  obtain ⟨ps, label, rfl, hlabel, hfree, rfl⟩ := readKey_eq_ok_iff.1 hstep
  obtain ⟨k, hk, rfl⟩ := stringText_of_spelling hx hlabel
  obtain ⟨b₁, s₂, rfl, hb₁, hlt₁, hread⟩ := exists_colon_of_read hread
  have hmember {b₂ y : List Char} (hb₂ : Blanks b₂) :
      KeyedMember (label, y) ('"' :: (k ++ '"' :: (b₁ ++ ':' :: (b₂ ++ y)))) :=
    ⟨k, hk, .pair hb₁ hb₂⟩
  cases ho : Field.labelled? label with
  | none =>
    rw [ho] at hread
    obtain ⟨b₂, y, s', rfl, hb₂, hy, hle, hread⟩ := exists_valueText_of_read hread
    refine ⟨b, (label, y), _, s', slots, by simp, hb, hmember hb₂, by omega, hread, fun ms hms => ?_⟩
    exact (Slots.supplies_cons_other_iff (Field.labelled?_eq_none_iff.1 ho)).2 ⟨hy, hms⟩
  | some f =>
    rw [ho] at hread
    obtain ⟨b₂, t, y, s', slots', rfl, hb₂, hy, hlt₂, hfill, hread⟩ := exists_field_of_read hread
    refine ⟨b, (label, y), _, s', slots', by simp, hb, hmember hb₂, by omega, hread, fun ms hms => ?_⟩
    obtain rfl := Field.labelled?_eq_some_iff.1 ho
    -- The slot has a value now, so what it holds can only be the value of the user.
    obtain ⟨hfield, rfl⟩ :=
      Slots.fieldText_of_fill hy hfill ((hms.1 f).holds (Slots.has_of_fill hfill))
    exact Slots.supplies_cons_label_iff.2 ⟨hfree f ho, hfield, hms⟩

theorem exists_members_of_read (h : (key slots).read s = .ok u) :
    ∃ ms x b, s = x ++ '\x7d' :: b ∧ Items KeyedMember ms x ∧ Blanks b ∧
      slots.Supplies u ms := by
  induction hn : s.length using Nat.strongRecOn generalizing s slots with
  | ind n ih =>
    obtain ⟨b₁, m, x, s₁, slots', rfl, hb₁, hm, hlt₁, hread, hback⟩ := exists_member_of_read h
    obtain ⟨b₂, s₂, hb₂, hlt₂, ⟨rfl, hnext⟩ | ⟨rfl, huser, hb⟩⟩ :=
      exists_mark_of_read_afterMember hread
    · obtain ⟨ms, y, b, rfl, hms, hb, hsupplies⟩ := ih s₂.length (by omega) hnext rfl
      exact ⟨m :: ms, b₁ ++ (x ++ (b₂ ++ ',' :: y)), b, by simp, .cons hb₁ hm hb₂ hms, hb,
        hback ms hsupplies⟩
    · exact ⟨[m], b₁ ++ (x ++ b₂), s₂, by simp, .one hb₁ hm hb₂, hb,
        hback [] (Slots.supplies_nil_iff.2 huser)⟩

theorem exists_mark_of_read_afterElement {n : Nat} (h : (afterElement slots n).read s = .ok u) :
    ∃ b s', Blanks b ∧ s'.length < s.length ∧
      (s = b ++ ',' :: s' ∧ (element slots n).read s' = .ok u ∨
        s = b ++ ']' :: s' ∧ n = 3 ∧ slots.user = .ok u ∧ Blanks s') := by
  rcases exists_spelling_of_read h with ⟨-, ⟨⟩⟩ | ⟨b, t, x, s', r, rfl, hb, hx, hlt, hstep, hread⟩
  rw [step] at hstep
  refine ⟨b, s', hb, hlt, ?_⟩
  split_ifs at hstep with hclose hn hcomma
  · subst hclose
    obtain ⟨v, hv, rfl⟩ := Except.map_eq_ok_iff.1 hstep
    obtain ⟨hs', rfl⟩ := blanks_of_read_finished hread
    exact .inr ⟨by rw [hx.eq_char]; rfl, hn, hv, hs'⟩
  · obtain ⟨rfl, -⟩ := hcomma
    cases hstep
    exact .inl ⟨by rw [hx.eq_char]; rfl, hread⟩
  · cases hstep

theorem exists_elements_of_read {n : Nat} (h : (element slots n).read s = .ok u) :
    ∃ x b, s = x ++ ']' :: b ∧ Items (FieldText u) (Field.all.drop n) x ∧ Blanks b ∧
      ∀ f, f ∉ Field.all.drop n → slots.Holds u f := by
  induction hlen : s.length using Nat.strongRecOn generalizing s slots n with
  | ind len ih =>
    rcases exists_spelling_of_read h with
      ⟨-, ⟨⟩⟩ | ⟨b₁, t, x, s₁, r, rfl, hb₁, hx, hlt₁, hstep, hread⟩
    obtain ⟨f, slots', hget, hfill, rfl⟩ := step_element_eq_ok_iff.1 hstep
    have hdrop : Field.all.drop n = f :: Field.all.drop (n + 1) := by
      obtain ⟨hn, rfl⟩ := List.getElem?_eq_some_iff.1 hget
      exact List.drop_eq_getElem_cons hn
    have hnodup : (f :: Field.all.drop (n + 1)).Nodup := by
      rw [← hdrop]
      exact List.Nodup.sublist (List.drop_sublist n _) (by decide)
    -- What a later slot gets leaves this one as it is.
    have hback (h : ∀ g, g ∉ Field.all.drop (n + 1) → slots'.Holds u g) :
        FieldText u f x ∧ ∀ g, g ∉ Field.all.drop n → slots.Holds u g := by
      obtain ⟨hfield, rfl⟩ :=
        Slots.fieldText_of_fill hx hfill (h f (List.nodup_cons.1 hnodup).1)
      refine ⟨hfield, fun g hg => ?_⟩
      rw [hdrop, List.mem_cons, not_or] at hg
      exact (Slots.holds_put_of_ne hg.1).1 (h g hg.2)
    obtain ⟨b₂, s₂, hb₂, hlt₂, ⟨rfl, hnext⟩ | ⟨rfl, hn, huser, hb⟩⟩ :=
      exists_mark_of_read_afterElement hread
    · obtain ⟨y, b, rfl, hy, hb, hheld⟩ := ih s₂.length (by omega) hnext rfl
      obtain ⟨hfield, hheld⟩ := hback hheld
      refine ⟨b₁ ++ (x ++ (b₂ ++ ',' :: y)), b, by simp, ?_, hb, hheld⟩
      rw [hdrop]
      exact .cons hb₁ hfield hb₂ hy
    · obtain ⟨hfield, hheld⟩ := hback fun g _ => Slots.user_eq_ok_iff.1 huser g
      refine ⟨b₁ ++ (x ++ b₂), s₂, by simp, ?_, hb, hheld⟩
      rw [hdrop, hn]
      exact .one hb₁ hfield hb₂

end Sound

end Reading

theorem ofJson_of_userText {text : String} {u : User} (h : UserText u text.toList) :
    ofJson text = .ok u := by
  rw [ofJson_eq]
  generalize text.toList = s at h
  cases h with
  | @object ms b t b' hb ht hb' hname hemail hage hothers =>
    rw [Reading.read_blanks hb, Reading.read_mark (m := .openBrace) rfl rfl]
    have hsupplies := Slots.supplies_empty_iff.2 ⟨hname, hemail, hage, hothers⟩
    exact Reading.read_firstKey_iff.2 (Reading.read_members ht hsupplies hb')
  | @list b t b' hb ht hb' =>
    rw [Reading.read_blanks hb, Reading.read_mark (m := .openBracket) rfl rfl]
    exact Reading.read_firstElement_iff.2
      (Reading.read_elements ht rfl (fun f hf => absurd f.mem_all hf) hb')

theorem userText_of_ofJson {text : String} {u : User} (h : ofJson text = .ok u) :
    UserText u text.toList := by
  rw [ofJson_eq] at h
  generalize text.toList = s at h
  rcases Reading.exists_spelling_of_read h with
    ⟨-, ⟨⟩⟩ | ⟨b, t, x, s', r, rfl, hb, hx, -, hstep, hread⟩
  rw [Reading.step] at hstep
  split_ifs at hstep with hbrace hbracket
  · subst hbrace
    cases hstep
    obtain ⟨ms, y, b', rfl, hms, hb', hsupplies⟩ :=
      Reading.exists_members_of_read (Reading.read_firstKey_iff.1 hread)
    obtain ⟨hname, hemail, hage, hothers⟩ := Slots.supplies_empty_iff.1 hsupplies
    rw [hx.eq_char]
    exact .object hb hms hb' hname hemail hage hothers
  · subst hbracket
    cases hstep
    obtain ⟨y, b', rfl, hy, hb', -⟩ :=
      Reading.exists_elements_of_read (Reading.read_firstElement_iff.1 hread)
    rw [hx.eq_char]
    exact .list hb hy hb'

theorem ofJson_eq_ok_iff (text : String) (u : User) :
    ofJson text = .ok u ↔ UserText u text.toList :=
  ⟨userText_of_ofJson, ofJson_of_userText⟩

end Roster.User
