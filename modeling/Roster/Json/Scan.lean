import Roster.Json.Token

-- From a text to its units. Each unit is as long as it can be; blanks between units are dropped.

namespace Roster.Json

open Number

def isBlank (c : Char) : Bool := c = ' ' || c = '\t' || c = '\n' || c = '\r'

-- The rest of a word whose first character has been seen.
def scanWord : List Char → List Char → Except Flaw (List Char)
  | [], s => .ok s
  | _ :: _, [] => .error .truncated
  | w :: ws, c :: s => if c = w then scanWord ws s else .error .malformed

-- At least one digit.
def scanDigits (s : List Char) : Except Flaw (List Char × List Char) :=
  match s.takeWhile isDigit, s.dropWhile isDigit with
  | [], [] => .error .truncated
  | [], _ :: _ => .error .malformed
  | ds, r => .ok (ds, r)

-- The digits in front of the point: a zero alone, or a row that starts with another digit.
def scanWhole (s : List Char) : Except Flaw (List Char × List Char) :=
  match s with
  | '0' :: r => if r.head?.any isDigit then .error .malformed else .ok (['0'], r)
  | _ => scanDigits s

def scanFraction (s : List Char) : Except Flaw (Option (List Char) × List Char) :=
  match s with
  | '.' :: r => (scanDigits r).map fun (ds, r') => (some ds, r')
  | _ => .ok (none, s)

def scanExponent (s : List Char) : Except Flaw (Option (Bool × List Char) × List Char) :=
  match s with
  | e :: r =>
    if e = 'e' || e = 'E' then
      match r with
      | '-' :: r' => (scanDigits r').map fun (ds, r'') => (some (true, ds), r'')
      | '+' :: r' => (scanDigits r').map fun (ds, r'') => (some (false, ds), r'')
      | _ => (scanDigits r).map fun (ds, r') => (some (false, ds), r')
    else .ok (none, s)
  | [] => .ok (none, s)

def scanNumeral (negative : Bool) (s : List Char) : Except Flaw (Numeral × List Char) := do
  let (whole, s) ← scanWhole s
  let (fraction, s) ← scanFraction s
  let (exponent, s) ← scanExponent s
  return (⟨negative, whole, fraction, exponent⟩, s)

def byteCount (s : List Char) : Nat := s.foldr (fun c n => c.utf8Size + n) 0

-- The value of four hexadecimal digits. Fewer than four bytes of text are too few for them,
-- whatever they are.
def scanCode (s : List Char) : Except Flaw (Nat × List Char) :=
  if byteCount (s.take 4) < 4 then .error .truncated
  else match s with
    | a :: b :: c :: d :: r =>
      match hexValue? a, hexValue? b, hexValue? c, hexValue? d with
      | some a, some b, some c, some d => .ok (((a * 16 + b) * 16 + c) * 16 + d, r)
      | _, _, _, _ => .error .malformed
    | _ => .error .malformed

-- The characters that a backslash puts in front of their own names.
def plainEscape? : Char → Option Char
  | '"' => some '"'
  | '\\' => some '\\'
  | '/' => some '/'
  | 'b' => some '\x08'
  | 'f' => some '\x0c'
  | 'n' => some '\n'
  | 'r' => some '\r'
  | 't' => some '\t'
  | _ => none

-- What follows a backslash.
def scanEscape : List Char → Except Flaw (Piece × List Char)
  | [] => .error .truncated
  | c :: s =>
    if c = 'u' then (scanCode s).map fun (code, r) => (Piece.ofCode code, r)
    else match plainEscape? c with
      | some d => .ok (.char d, s)
      | none => .error .malformed

-- One part of a string, or its closing quote.
def scanPiece : List Char → Except Flaw (Option Piece × List Char)
  | [] => .error .truncated
  | c :: s =>
    if c = '"' then .ok (none, s)
    else if c = '\\' then (scanEscape s).map fun (p, r) => (some p, r)
    else if c.toNat < 0x20 then .error .malformed
    else .ok (some (.char c), s)

theorem exists_of_map_eq_ok {ε α β : Type} {x : Except ε α} {f : α → β} {b : β}
    (h : x.map f = .ok b) : ∃ a, x = .ok a ∧ f a = b := by
  cases x with
  | error e => cases h
  | ok a => exact ⟨a, rfl, Except.ok.inj h⟩

theorem length_scanWord_le {w s r : List Char} (h : scanWord w s = .ok r) :
    r.length ≤ s.length := by
  fun_induction scanWord w s with
  | case1 s => cases h; exact Nat.le_refl _
  | case2 => cases h
  | case3 ws c s ih => exact Nat.le_succ_of_le (ih h)
  | case4 => cases h

theorem length_scanDigits_lt {s ds r : List Char} (h : scanDigits s = .ok (ds, r)) :
    r.length < s.length := by
  have hs := congrArg List.length (List.takeWhile_append_dropWhile (p := isDigit) (l := s))
  rw [List.length_append] at hs
  unfold scanDigits at h
  split at h
  · cases h
  · cases h
  · rename_i hnil hcons
    cases h
    cases ht : s.takeWhile isDigit with
    | nil =>
      cases hd : s.dropWhile isDigit with
      | nil => exact absurd hd (hnil ht)
      | cons c r => exact absurd hd (hcons c r ht)
    | cons c r =>
      rw [ht, List.length_cons] at hs
      omega

theorem length_scanWhole_lt {s ds r : List Char} (h : scanWhole s = .ok (ds, r)) :
    r.length < s.length := by
  unfold scanWhole at h
  split at h
  · split at h
    · cases h
    · cases h; simp
  · exact length_scanDigits_lt h

theorem length_scanFraction_le {s r : List Char} {f : Option (List Char)}
    (h : scanFraction s = .ok (f, r)) : r.length ≤ s.length := by
  unfold scanFraction at h
  split at h
  · obtain ⟨⟨ds, t⟩, hd, hm⟩ := exists_of_map_eq_ok h
    cases hm
    exact Nat.le_succ_of_le (Nat.le_of_lt (length_scanDigits_lt hd))
  · cases h; exact Nat.le_refl _

theorem length_scanExponent_le {s r : List Char} {e : Option (Bool × List Char)}
    (h : scanExponent s = .ok (e, r)) : r.length ≤ s.length := by
  unfold scanExponent at h
  split at h
  · split at h
    · split at h
      all_goals
        obtain ⟨⟨ds, t⟩, hd, hm⟩ := exists_of_map_eq_ok h
        cases hm
        have := length_scanDigits_lt hd
        simp only [List.length_cons]
        omega
    · cases h; exact Nat.le_refl _
  · cases h; exact Nat.le_refl _

theorem length_scanNumeral_lt {negative : Bool} {s r : List Char} {n : Numeral}
    (h : scanNumeral negative s = .ok (n, r)) : r.length < s.length := by
  unfold scanNumeral at h
  cases hw : scanWhole s with
  | error e => rw [hw] at h; cases h
  | ok whole =>
    rw [hw] at h
    cases hf : scanFraction whole.2 with
    | error e => simp only [bind, Except.bind, hf] at h; cases h
    | ok fraction =>
      cases he : scanExponent fraction.2 with
      | error e => simp only [bind, Except.bind, hf, he] at h; cases h
      | ok exponent =>
        simp only [bind, Except.bind, hf, he] at h
        cases h
        have h1 := length_scanWhole_lt hw
        have h2 := length_scanFraction_le hf
        have h3 := length_scanExponent_le he
        omega

theorem length_scanCode_le {s r : List Char} {n : Nat} (h : scanCode s = .ok (n, r)) :
    r.length ≤ s.length := by
  unfold scanCode at h
  split at h
  · cases h
  · split at h
    · split at h
      · cases h; simp only [List.length_cons]; omega
      · cases h
    · cases h

theorem length_scanEscape_le {s r : List Char} {p : Piece} (h : scanEscape s = .ok (p, r)) :
    r.length ≤ s.length := by
  unfold scanEscape at h
  split at h
  · cases h
  · split at h
    · obtain ⟨⟨n, t⟩, hc, hm⟩ := exists_of_map_eq_ok h
      cases hm
      exact Nat.le_succ_of_le (length_scanCode_le hc)
    · split at h
      · cases h; simp
      · cases h

theorem length_scanPiece_lt {s r : List Char} {p : Option Piece} (h : scanPiece s = .ok (p, r)) :
    r.length < s.length := by
  unfold scanPiece at h
  split at h
  · cases h
  · split at h
    · cases h; simp
    · split at h
      · obtain ⟨⟨q, t⟩, he, hm⟩ := exists_of_map_eq_ok h
        cases hm
        exact Nat.lt_succ_of_le (length_scanEscape_le he)
      · split at h
        · cases h
        · cases h; simp

-- The parts up to the closing quote, and the text behind it or the flaw that keeps it away.
def scanString (s : List Char) : List Piece × Except Flaw (List Char) :=
  match _h : scanPiece s with
  | .error f => ([], .error f)
  | .ok (none, r) => ([], .ok r)
  | .ok (some p, r) =>
    let (ps, e) := scanString r
    (p :: ps, e)
termination_by s.length
decreasing_by all_goals exact length_scanPiece_lt ‹_›

def markOf? : Char → Option Mark
  | '\x7b' => some .openBrace
  | '\x7d' => some .closeBrace
  | '[' => some .openBracket
  | ']' => some .closeBracket
  | ':' => some .colon
  | ',' => some .comma
  | _ => none

def wordToken (word : List Char) (t : Token) (s : List Char) : Except Stop (Token × List Char) :=
  match scanWord word s with
  | .ok r => .ok (t, r)
  | .error f => .error (.word f)

def numberToken (negative : Bool) (s : List Char) : Except Stop (Token × List Char) :=
  match scanNumeral negative s with
  | .ok (n, r) => .ok (.number n, r)
  | .error f => .error (.number f)

def stringToken (s : List Char) : Except Stop (Token × List Char) :=
  match scanString s with
  | (pieces, .ok r) => .ok (.string pieces, r)
  | (pieces, .error f) => .error (.string pieces f)

-- The unit that starts with this character, and the text behind it.
def readToken (c : Char) (s : List Char) : Except Stop (Token × List Char) :=
  match markOf? c with
  | some m => .ok (.mark m, s)
  | none =>
    if c = 'n' then wordToken ['u', 'l', 'l'] .null s
    else if c = 't' then wordToken ['r', 'u', 'e'] (.boolean true) s
    else if c = 'f' then wordToken ['a', 'l', 's', 'e'] (.boolean false) s
    else if c = '"' then stringToken s
    else if c = '-' then numberToken true s
    else if isDigit c then numberToken false (c :: s)
    else .error .stray

theorem length_scanString_lt {s r : List Char} {ps : List Piece}
    (h : scanString s = (ps, .ok r)) : r.length < s.length := by
  fun_induction scanString s generalizing ps with
  | case1 => cases h
  | case2 s t hp => cases h; exact length_scanPiece_lt hp
  | case3 s p t hp ps' e hs ih =>
    cases h
    exact Nat.lt_trans (ih hs) (length_scanPiece_lt hp)

theorem length_readToken_le {c : Char} {s r : List Char} {t : Token}
    (h : readToken c s = .ok (t, r)) : r.length ≤ s.length := by
  have word : ∀ w u, wordToken w u s = .ok (t, r) → r.length ≤ s.length := by
    intro w u h
    unfold wordToken at h
    split at h
    · rename_i hw; cases h; exact length_scanWord_le hw
    · cases h
  have number : ∀ negative s', numberToken negative s' = .ok (t, r) → r.length < s'.length := by
    intro negative s' h
    unfold numberToken at h
    split at h
    · rename_i hn; cases h; exact length_scanNumeral_lt hn
    · cases h
  have string : stringToken s = .ok (t, r) → r.length ≤ s.length := by
    intro h
    unfold stringToken at h
    split at h
    · rename_i hs; cases h; exact Nat.le_of_lt (length_scanString_lt hs)
    · cases h
  unfold readToken at h
  split at h
  · cases h; exact Nat.le_refl _
  · split at h
    · exact word _ _ h
    · split at h
      · exact word _ _ h
      · split at h
        · exact word _ _ h
        · split at h
          · exact string h
          · split at h
            · exact Nat.le_of_lt (number _ _ h)
            · split at h
              · exact Nat.le_of_lt_succ (number _ _ h)
              · cases h

-- The same apart from each other, with no text behind a stop.
def scanToken (c : Char) (s : List Char) : Except Stop Token × List Char :=
  match readToken c s with
  | .error stop => (.error stop, [])
  | .ok (t, r) => (.ok t, r)

theorem length_scanToken_le (c : Char) (s : List Char) : (scanToken c s).2.length ≤ s.length := by
  unfold scanToken
  split
  · exact Nat.zero_le _
  · rename_i h; exact length_readToken_le h

-- A whole text: its units, and what stands behind the last of them.
def scan (s : List Char) : List Token × Stop :=
  match s with
  | [] => ([], .done)
  | c :: r =>
    if isBlank c then scan r
    else match (scanToken c r).1 with
      | .error stop => ([], stop)
      | .ok t =>
        let (ts, stop) := scan (scanToken c r).2
        (t :: ts, stop)
termination_by s.length
decreasing_by
  · simp
  · exact Nat.lt_succ_of_le (length_scanToken_le c r)

end Roster.Json
