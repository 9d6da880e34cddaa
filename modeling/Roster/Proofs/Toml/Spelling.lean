import Roster.Proofs.Toml.Written

namespace Roster.Toml

open Number

-- The text of a string between quotes. Any character with four hexadecimal digits may be written by its
-- number, and the controls of ASCII but the tab have to be.
inductive BasicText : List Char → List Char → Prop
  | nil : BasicText [] []
  | raw {c : Char} {p x : List Char} (hc : isText c = true) (hquote : c ≠ '"') (hescape : c ≠ '\\')
      (h : BasicText p x) : BasicText (c :: p) (c :: x)
  | escaped {c : Char} {p x : List Char} (hc : c = '"' ∨ c = '\\') (h : BasicText p x) :
      BasicText (c :: p) ('\\' :: c :: x)
  | number {c : Char} {p x ds : List Char} (hlen : ds.length = 4)
      (hds : ds.all fun d => (hexValue? d).isSome) (hc : ofBase 16 ds = c.toNat) (h : BasicText p x) :
      BasicText (c :: p) ('\\' :: 'u' :: (ds ++ x))

inductive StringText (v : String) : List Char → Prop
  | basic {x : List Char} (h : BasicText v.toList x) : StringText v ('"' :: (x ++ ['"']))
  | literal (h : ∀ c ∈ v.toList, isLiteral c = true) : StringText v ('\'' :: (v.toList ++ ['\'']))

variable {b k p x y name : List Char} {c : Char} {v : String}

theorem scalar?_toNat (c : Char) : scalar? c.toNat = some c := by
  have hvalid : c.toNat.isValidChar := c.valid
  rw [scalar?, dif_pos hvalid]
  rfl

theorem exists_code (hc : isText c = false) :
    ∃ ds : List Char,
      ds.length = 4 ∧ (ds.all fun d => (hexValue? d).isSome) ∧ ofBase 16 ds = c.toNat := by
  have digits : ∀ n < 128,
      (['0', '0', Nat.digitChar (n / 16), Nat.digitChar (n % 16)].all fun d => (hexValue? d).isSome) ∧
        ofBase 16 ['0', '0', Nat.digitChar (n / 16), Nat.digitChar (n % 16)] = n := by
    decide
  have hlt : c.toNat < 128 := by
    by_contra hge
    have htext : isText c = true := isText_iff.2 (.inr (by omega))
    rw [hc] at htext
    cases htext
  exact ⟨_, rfl, digits c.toNat hlt⟩

-- No character is without a spelling.
theorem exists_basicText (p : List Char) : ∃ x, BasicText p x := by
  induction p with
  | nil => exact ⟨[], .nil⟩
  | cons c p ih =>
    obtain ⟨x, hx⟩ := ih
    by_cases hescaped : c = '"' ∨ c = '\\'
    · exact ⟨_, .escaped hescaped hx⟩
    · cases hc : isText c with
      | true => exact ⟨_, .raw hc (not_or.1 hescaped).1 (not_or.1 hescaped).2 hx⟩
      | false =>
        obtain ⟨ds, hlen, hds, hcode⟩ := exists_code hc
        exact ⟨_, .number hlen hds hcode hx⟩

section Strings

theorem readCode_append {ds : List Char} (hds : ds.all fun d => (hexValue? d).isSome)
    (hc : ofBase 16 ds = c.toNat) (r : List Char) : readCode ds.length (ds ++ r) = some (c, r) := by
  have htake : (ds ++ r).take ds.length = ds := List.take_left
  have hdrop : (ds ++ r).drop ds.length = r := List.drop_left
  rw [readCode, htake, hdrop, if_pos ⟨rfl, hds⟩, hc, scalar?_toNat]
  rfl

theorem basicBody_basicText (h : BasicText p x) (r : List Char) :
    basicBody (x ++ '"' :: r) = some (p, r) := by
  induction h with
  | nil => exact basicBody_quote r
  | raw hc hquote hescape _ ih =>
    rw [List.cons_append, basicBody_text hquote hescape hc, ih]
    rfl
  | @escaped c p x hc _ ih =>
    have hread : readEscape (c :: (x ++ '"' :: r)) = some (c, x ++ '"' :: r) := by
      rcases hc with rfl | rfl <;> rfl
    rw [List.cons_append, List.cons_append, basicBody_escape hread, ih]
    rfl
  | @number c p x ds hlen hds hc _ ih =>
    have hread : readEscape ('u' :: (ds ++ (x ++ '"' :: r))) = some (c, x ++ '"' :: r) := by
      have hcode := readCode_append hds hc (x ++ '"' :: r)
      rw [hlen] at hcode
      exact hcode
    rw [List.cons_append, List.cons_append, List.append_assoc, basicBody_escape hread, ih]
    rfl

theorem BasicText.body (h : BasicText p x) : BodyText x := by
  induction h with
  | nil => exact .nil
  | raw hc hquote hescape _ ih => exact .text hc hquote hescape ih
  | escaped hc _ ih => exact .escape (.plain (by rcases hc with rfl | rfl <;> rfl)) ih
  | number hlen hds _ _ ih => exact .escape (.short hlen hds) ih

theorem StringText.quoted (h : StringText v x) : QuotedText x := by
  cases h with
  | basic h => exact .basic h.body
  | literal h => exact .literal (List.all_eq_true.2 h)

theorem readQuoted_stringText (h : StringText v x) (r : List Char) :
    readQuoted (x ++ r) = some (v, r) := by
  cases h with
  | @basic x h =>
    have hassoc : '"' :: (x ++ ['"']) ++ r = '"' :: (x ++ '"' :: r) := by simp
    rw [hassoc, readQuoted, basicBody_basicText h]
    simp [ofChars]
  | literal h =>
    have hassoc : '\'' :: (v.toList ++ ['\'']) ++ r = '\'' :: (v.toList ++ '\'' :: r) := by simp
    rw [hassoc, readQuoted, literalBody_append (List.all_eq_true.2 h)]
    simp [ofChars]

theorem settled_stringText (n : Nat) (h : StringText v x) :
    Settled (readValue n) x (some (.scalar (.string v))) := by
  refine .given _ fun t ht => ?_
  have hstring : readString (x ++ t) = some (v, t) := by
    rw [h.quoted.readString_append ht, readQuoted_stringText h]
  obtain ⟨c, r, rfl, hc⟩ := h.quoted.exists_cons
  have hlist : c ≠ '[' := by rcases hc with rfl | rfl <;> decide
  have hbraces : c ≠ '\x7b' := by rcases hc with rfl | rfl <;> decide
  rw [List.cons_append] at hstring ⊢
  rw [readValue_leaf hlist hbraces, readLeaf, readScalar_quoted hc, hstring]
  rfl

end Strings

section Keys

def IsName (name : List Char) : Prop := name ≠ [] ∧ ∀ c ∈ name, isBare c = true

-- The text of a key, with a blank behind it.
structure Names (k : List Char) (key : Key) : Prop where
  text : KeyText (k ++ [' '])
  read (b t : List Char) : b.all isWs → readKey (b ++ (k ++ [' '] ++ '=' :: t)) = some (key, '=' :: t)

theorem IsName.partText (h : IsName name) : PartText name := .bare h.1 (List.all_eq_true.2 h.2)

theorem readKey_of_readParts {s r : List Char} {parts : List String} {key : Key}
    (h : readParts s = some (parts, r)) (hle : parts.length ≤ depthLimit)
    (hkey : keyOf parts = some key) : readKey s = some (key, r) := by
  simp [readKey, h, hle, hkey]

theorem readParts_name (h : IsName name) (hb : b.all isWs) (t : List Char) :
    readParts (b ++ (name ++ [' '] ++ '=' :: t)) = some ([String.ofList name], '=' :: t) := by
  have hpart : readPart (skipWs (b ++ (name ++ ' ' :: '=' :: t))) =
      some (String.ofList name, ' ' :: '=' :: t) := by
    rw [h.partText.skipWs_append hb, readPart_bare h.1 h.2 (endsPart_cons rfl _)]
  have hws : skipWs (' ' :: '=' :: t) = '=' :: t := rfl
  rw [List.append_assoc, List.cons_append, List.nil_append, readParts_last hpart (by simp [hws]), hws]

theorem names_bare (h : IsName name) : Names name ⟨[], String.ofList name⟩ where
  text := .last h.partText rfl
  read _ t hb := readKey_of_readParts (readParts_name h hb t) (by simp [depthLimit]) rfl

theorem names_dotted {front : List Char} (hfront : IsName front) (h : IsName name) :
    Names (front ++ '.' :: name) ⟨[String.ofList front], String.ofList name⟩ where
  text := by
    rw [List.append_assoc]
    exact .point (b := []) (q := []) hfront.partText rfl rfl (.last h.partText rfl)
  read b t hb := by
    have hsplit : front ++ '.' :: name ++ [' '] ++ '=' :: t =
        front ++ '.' :: (name ++ [' '] ++ '=' :: t) := by simp
    have hpart : readPart (skipWs (b ++ (front ++ '.' :: (name ++ [' '] ++ '=' :: t)))) =
        some (String.ofList front, '.' :: (name ++ [' '] ++ '=' :: t)) := by
      rw [hfront.partText.skipWs_append hb, readPart_bare hfront.1 hfront.2 (endsPart_cons rfl _)]
    have hlt : (name ++ [' '] ++ '=' :: t).length <
        (b ++ (front ++ '.' :: (name ++ [' '] ++ '=' :: t))).length := by
      simp only [List.length_append, List.length_cons]
      omega
    have hparts := readParts_name h (b := []) rfl t
    rw [List.nil_append] at hparts
    have hboth := readParts_point hpart rfl hlt
    rw [hparts, ← hsplit] at hboth
    exact readKey_of_readParts hboth (by simp [depthLimit]) rfl

end Keys

section Entries

-- The text of an entry: its key, an equals sign between blanks, and the text of its value.
def assignment (key text : List Char) : List Char := key ++ ' ' :: '=' :: ' ' :: text

theorem assigns_assignment (k x : List Char) : Assigns (k ++ [' ']) x (assignment k x) := by
  have hsplit : assignment k x = (k ++ [' ']) ++ '=' :: ([' '] ++ x) := by simp [assignment]
  rw [hsplit]
  exact .equals rfl

theorem settled_assignment {item : Reader Node} {key : Key} {node : Node} (hk : Names k key)
    (hx : ValueText x) (h : Settled item x (some node)) (hb : b.all isWs) :
    Settled (readEntry item) (b ++ assignment k x) (some ⟨key, node⟩) :=
  (assigns_assignment k x).settled (o := some key) hk.read hx.solid.head h hb

-- A text that writes an entry on a line of its own.
structure Writes (x : List Char) (e : Entry) : Prop where
  text : ExpressionText x
  entry : expression? x = some e

theorem writes_assignment {key : Key} {node : Node} (hk : Names k key) (hx : ValueText x)
    (h : Settled (readValue depthLimit) x (some node)) : Writes (assignment k x) ⟨key, node⟩ := by
  have htext : ExpressionText (assignment k x) := ⟨_, _, hk.text, hx, assigns_assignment k x⟩
  have hentry := settled_assignment hk hx h (b := []) rfl
  rw [List.nil_append] at hentry
  exact ⟨htext, by rw [expression?, hentry.read_self]⟩

theorem writes_string (hname : IsName name) (h : StringText v x) :
    Writes (assignment name x) ⟨⟨[], String.ofList name⟩, .scalar (.string v)⟩ :=
  writes_assignment (names_bare hname) (.string h.quoted) (settled_stringText _ h)

theorem writes_dotted {front : List Char} (hfront : IsName front) (hname : IsName name)
    (h : StringText v x) :
    Writes (assignment (front ++ '.' :: name) x)
      ⟨⟨[String.ofList front], String.ofList name⟩, .scalar (.string v)⟩ :=
  writes_assignment (names_dotted hfront hname) (.string h.quoted) (settled_stringText _ h)

end Entries

section Braces

def inBraces (xs : List (List Char)) : List Char :=
  '\x7b' :: ' ' :: (List.intercalate [',', ' '] xs ++ [' ', '\x7d'])

theorem inBraces_pair (x y : List Char) :
    inBraces [x, y] = '\x7b' :: ' ' :: (x ++ ',' :: ' ' :: (y ++ [' ', '\x7d'])) := by
  simp [inBraces, List.intercalate]

theorem valueText_inBraces {k' : List Char} (hk : KeyText (k ++ [' '])) (hk' : KeyText (k' ++ [' ']))
    (hx : ValueText x) (hy : ValueText y) :
    ValueText (inBraces [assignment k x, assignment k' y]) := by
  have hlast : Members [(k' ++ [' '], y)] (assignment k' y ++ [' ']) :=
    .last (assigns_assignment k' y) rfl
  have hmembers : Members [(k ++ [' '], x), (k' ++ [' '], y)]
      (assignment k x ++ ([] ++ ',' :: ([' '] ++ (assignment k' y ++ [' '])))) :=
    .comma (assigns_assignment k x) rfl rfl hlast
  have hbraces := ValueText.braces (b := [' ']) rfl hmembers (by simp [hk, hk']) (by simp [hx, hy])
  rw [inBraces_pair]
  simpa using hbraces

theorem settled_inBraces {n : Nat} {e e' : Entry} {d : Draft}
    (hhead : ∃ c r, x = c :: r ∧ isEnd c = false) (hx : Settled (readEntry (readValue n)) x (some e))
    (hy : Settled (readEntry (readValue n)) (' ' :: y) (some e'))
    (hd : assignAll [e, e'] [] = some d) :
    Settled (readValue (n + 1)) (inBraces [x, y]) (some (.table .closed d)) := by
  refine .given _ fun t _ => ?_
  obtain ⟨c, r, rfl, hc⟩ := hhead
  have hsecond : readEntry (readValue n) (' ' :: (y ++ ' ' :: '\x7d' :: t)) =
      some (e', ' ' :: '\x7d' :: t) :=
    hy.read_append (.blanks_append (b := [' ']) rfl (endsValue_cons rfl rfl t))
  have hentries : readEntries (readValue n) (c :: (r ++ ',' :: ' ' :: (y ++ ' ' :: '\x7d' :: t))) =
      some ([e, e'], t) := by
    have hfirst := hx.read_append (endsValue_cons (c := ',') rfl rfl (' ' :: (y ++ ' ' :: '\x7d' :: t)))
    rw [List.cons_append] at hfirst
    rw [readEntries_comma hfirst rfl (by simp; omega), readEntries_last hsecond rfl]
    rfl
  have hopen : skipWs (' ' :: c :: (r ++ ',' :: ' ' :: (y ++ ' ' :: '\x7d' :: t))) =
      c :: (r ++ ',' :: ' ' :: (y ++ ' ' :: '\x7d' :: t)) := by
    rw [skipWs_cons_of_isWs rfl, skipWs_cons_of_not (isWs_of_not_isEnd hc)]
  have hne : c ≠ '\x7d' := (ne_of_isEnd rfl hc).symm
  have hsplit : inBraces [c :: r, y] ++ t =
      '\x7b' :: ' ' :: c :: (r ++ ',' :: ' ' :: (y ++ ' ' :: '\x7d' :: t)) := by
    simp [inBraces_pair]
  rw [hsplit, readValue, if_neg (by decide), if_pos rfl, readBraces_of_not (by simp [hopen, hne]), hopen,
    hentries]
  simp [hd]

theorem settled_string (n : Nat) (hname : IsName name) (h : StringText v x) (hb : b.all isWs) :
    Settled (readEntry (readValue n)) (b ++ assignment name x)
      (some ⟨⟨[], String.ofList name⟩, .scalar (.string v)⟩) :=
  settled_assignment (names_bare hname) (.string h.quoted) (settled_stringText n h) hb

theorem writes_inBraces {front name' : List Char} {w : String} {d : Draft} (hfront : IsName front)
    (hname : IsName name) (hname' : IsName name') (hx : StringText v x) (hy : StringText w y)
    (hd : assignAll [⟨⟨[], String.ofList name⟩, .scalar (.string v)⟩,
      ⟨⟨[], String.ofList name'⟩, .scalar (.string w)⟩] [] = some d) :
    Writes (assignment front (inBraces [assignment name x, assignment name' y]))
      ⟨⟨[], String.ofList front⟩, .table .closed d⟩ := by
  have hlimit : depthLimit = 78 + 1 := rfl
  have hfirst := settled_string 78 hname hx (b := []) rfl
  have hsecond := settled_string 78 hname' hy (b := [' ']) rfl
  have hhead : ∃ c r, assignment name x = c :: r ∧ isEnd c = false := by
    obtain ⟨c, r, hcons, hc, -⟩ := (names_bare hname).text.exists_cons
    obtain ⟨d, name, rfl⟩ := List.exists_cons_of_ne_nil hname.1
    obtain ⟨rfl, -⟩ := List.cons.inj hcons
    exact ⟨d, _, rfl, hc⟩
  refine writes_assignment (names_bare hfront) ?_ ?_
  · exact valueText_inBraces (names_bare hname).text (names_bare hname').text (.string hx.quoted)
      (.string hy.quoted)
  · rw [hlimit]
    exact settled_inBraces hhead hfirst hsecond hd

end Braces

section Documents

theorem exists_writes_of_mem {xs : List (List Char)} {es : List Entry} (h : List.Forall₂ Writes xs es)
    (hx : x ∈ xs) : ∃ e, Writes x e := by
  induction h with
  | nil => cases hx
  | cons hwrites _ ih =>
    rcases List.mem_cons.1 hx with rfl | hx
    · exact ⟨_, hwrites⟩
    · exact ih hx

theorem entriesOf_of_writes {xs : List (List Char)} {es : List Entry} (h : List.Forall₂ Writes xs es) :
    entriesOf xs = es := by
  induction h with
  | nil => rfl
  | cons hwrites _ ih => rw [entriesOf, List.filterMap_cons_some hwrites.entry, ← ih, entriesOf]

theorem read?_onLines {xs : List (List Char)} {es : List Entry} {text : String}
    (h : List.Forall₂ Writes xs es) (htext : text.toList = onLines xs) :
    Document.read? text = some ⟨es, []⟩ := by
  have hxs : ∀ x ∈ xs, ExpressionText x := by
    intro x hx
    obtain ⟨e, hwrites⟩ := exists_writes_of_mem h hx
    exact hwrites.text
  have hwritten : Written xs text.toList := by
    rw [htext]
    exact written_onLines hxs
  have hall : AllRead xs := by
    intro x hx
    obtain ⟨e, hwrites⟩ := exists_writes_of_mem h hx
    rw [hwrites.entry]
    rfl
  rw [read?_of_written hwritten hxs, if_pos hall, entriesOf_of_writes h]

end Documents

end Roster.Toml
