import Roster.Proofs.Json.Scan
import Roster.User.Json

namespace Roster.User

open Json

namespace Reading

variable {r r' : Reading} {b s : List Char} {u : User}

-- What a text comes to that is read on from here.
def read (r : Reading) (s : List Char) : Except Problem User :=
  match (scan s).1.foldlM step r with
  | .error p => .error p
  | .ok r' => r'.stopped (scan s).2

theorem read_blanks (hb : Blanks b) (r : Reading) (s : List Char) :
    r.read (b ++ s) = r.read s := by
  rw [read, scan_blanks hb]
  rfl

theorem read_nil (r : Reading) : r.read [] = r.stopped .done := by
  rw [read, scan_nil]
  rfl

theorem read_cons_blank {c : Char} (hc : isBlank c = true) (r : Reading) (s : List Char) :
    r.read (c :: s) = r.read s := by
  rw [read, read, scan, if_pos hc]

theorem read_of_scan {t : Token} {rest : List Char}
    (h : scan s = (t :: (scan rest).1, (scan rest).2)) :
    r.read s = (r.step t).bind fun r' => r'.read rest := by
  rw [read, h, List.foldlM_cons]
  cases r.step t <;> rfl

theorem read_of_stop {stop : Stop} (h : scan s = ([], stop)) (r : Reading) :
    r.read s = r.stopped stop := by
  rw [read, h]
  rfl

theorem read_spelling {t : Token} {x : List Char} (hx : Spelling t x) (hs : Ends t s)
    (h : r.step t = .ok r') : r.read (x ++ s) = r'.read s := by
  rw [read, scan_spelling hx hs, List.foldlM_cons, h]
  rfl

theorem read_mark {m : Mark} {c : Char} (hc : markOf? c = some m) (h : r.step (.mark m) = .ok r') :
    r.read (c :: s) = r'.read s :=
  read_spelling (x := [c]) (.mark hc) nofun h

-- An item among blanks, and the mark behind it.
theorem read_item_mark {b₁ b₂ x : List Char} {c : Char} {m : Mark} {next : Reading}
    (hb₁ : Blanks b₁) (hb₂ : Blanks b₂) (hc : markOf? c = some m)
    (hx : ∀ s, EndsNumeral s → r.read (x ++ s) = r'.read s) (hstep : r'.step (.mark m) = .ok next)
    (s : List Char) : r.read (b₁ ++ (x ++ (b₂ ++ c :: s))) = next.read s := by
  rw [read_blanks hb₁, hx _ (endsNumeral_of_mark hc hb₂ s), read_blanks hb₂, read_mark hc hstep]

theorem read_finished (hb : Blanks b) (u : User) : (finished u).read b = .ok u := by
  rw [← List.append_nil b, read_blanks hb, read, scan_nil]
  rfl

theorem stopped_eq_ok {stop : Stop} (h : r.stopped stop = .ok u) :
    r = .finished u ∧ stop = .done := by
  cases r with
  | finished v =>
    rw [stopped] at h
    split_ifs at h with hs
    · cases h
      exact ⟨rfl, hs⟩
    · cases h
  | value slots field => cases field <;> cases h
  | _ => cases h

theorem exists_spelling_of_read (h : r.read s = .ok u) :
    (Blanks s ∧ r = .finished u) ∨
      ∃ b t x s' r', s = b ++ (x ++ s') ∧ Blanks b ∧ Spelling t x ∧ s'.length < s.length ∧
        r.step t = .ok r' ∧ r'.read s' = .ok u := by
  induction s with
  | nil =>
    rw [read, scan_nil] at h
    exact .inl ⟨nofun, (stopped_eq_ok h).1⟩
  | cons c s ih =>
    cases hc : isBlank c with
    | true =>
      have hblank : Blanks [c] := fun d hd => List.mem_singleton.1 hd ▸ isBlank_iff.1 hc
      rw [← List.singleton_append, read_blanks hblank] at h
      rcases ih h with ⟨hs, hr⟩ | ⟨b, t, x, s', r', rfl, hb, hx, hlt, hstep, hread⟩
      · exact .inl ⟨hblank.append hs, hr⟩
      · exact .inr ⟨c :: b, t, x, s', r', rfl, hblank.append hb, hx, Nat.lt_succ_of_lt hlt, hstep,
          hread⟩
    | false =>
      rcases scan_cons_of_not_blank hc s with ⟨stop, hstop, hscan⟩ | ⟨t, x, s', hs, hx, hle, hscan⟩
      · rw [read, hscan] at h
        exact absurd (stopped_eq_ok h).2 hstop
      · rw [read, hscan, List.foldlM_cons] at h
        cases hstep : r.step t with
        | error p =>
          rw [hstep] at h
          cases h
        | ok r' =>
          rw [hstep] at h
          exact .inr ⟨[], t, x, s', r', hs, nofun, hx, Nat.lt_succ_of_le hle, hstep, h⟩

end Reading

theorem ofJson_eq (text : String) : ofJson text = Reading.start.read text.toList := rfl

end Roster.User
