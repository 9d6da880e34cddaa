import Roster.Proofs.Json.Scan

namespace Roster.Json

open Number

variable {s r more : List Char}

theorem startsNoDigit_dropWhile (s : List Char) : StartsNoDigit (s.dropWhile isDigit) := by
  intro c hc
  have h := List.head?_dropWhile_not isDigit s
  rw [Option.mem_def.1 hc] at h
  exact h

theorem StartsNoDigit.behind (hr : StartsNoDigit r) (hmore : r = [] → StartsNoDigit more) :
    StartsNoDigit (r ++ more) := by
  cases r with
  | nil => exact hmore rfl
  | cons c r => exact hr

theorem scanDigits_behind {ds : List Char} (h : scanDigits s = .ok (ds, r))
    (hmore : r = [] → StartsNoDigit more) : scanDigits (s ++ more) = .ok (ds, r ++ more) := by
  have hr : StartsNoDigit r := by
    have hdrop : s.dropWhile isDigit = r := by
      unfold scanDigits at h
      split at h <;> cases h
      rfl
    exact hdrop ▸ startsNoDigit_dropWhile s
  obtain ⟨rfl, hds⟩ := eq_append_of_scanDigits h
  rw [List.append_assoc]
  exact scanDigits_append hds (hr.behind hmore)

theorem scanWhole_behind {w : List Char} (h : scanWhole s = .ok (w, r))
    (hmore : r = [] → StartsNoDigit more) : scanWhole (s ++ more) = .ok (w, r ++ more) := by
  unfold scanWhole at h
  split at h
  · rename_i r'
    split_ifs at h with hdigit
    cases h
    have hr : StartsNoDigit r := by
      intro c hc
      rw [Option.mem_def.1 hc, Option.any_some] at hdigit
      exact Bool.eq_false_iff.2 hdigit
    exact scanWhole_append .zero (hr.behind hmore)
  · rename_i hzero
    have hscan := scanDigits_behind h hmore
    rw [← hscan, scanWhole]
    intro r' hr'
    cases s with
    | nil => cases h
    | cons c s =>
      obtain ⟨rfl, -⟩ := List.cons.inj hr'
      exact hzero s rfl

theorem scanFraction_behind {f : Option (List Char)} (h : scanFraction s = .ok (f, r))
    (hmore : r = [] → StartsNoDigit more ∧ ∀ c ∈ more.head?, c ≠ '.') :
    scanFraction (s ++ more) = .ok (f, r ++ more) := by
  unfold scanFraction at h
  split at h
  · obtain ⟨⟨ds, t⟩, hd, hm⟩ := exists_of_map_eq_ok h
    cases hm
    rw [List.cons_append, scanFraction, scanDigits_behind hd fun hr => (hmore hr).1]
    rfl
  · rename_i hpoint
    cases h
    unfold scanFraction
    split
    · rename_i r' hr'
      cases s with
      | nil =>
        rw [List.nil_append] at hr'
        exact absurd rfl ((hmore rfl).2 '.' (by rw [hr']; rfl))
      | cons c s =>
        obtain ⟨rfl, -⟩ := List.cons.inj hr'
        exact absurd rfl (hpoint s)
    · rfl

theorem scanExponent_behind {e : Option (Bool × List Char)} (h : scanExponent s = .ok (e, r))
    (hmore : r = [] → EndsNumeral more) : scanExponent (s ++ more) = .ok (e, r ++ more) := by
  have digits {negative : Bool} {s : List Char}
      (h : (scanDigits s).map (fun o => (some (negative, o.1), o.2)) = .ok (e, r)) :
      (scanDigits (s ++ more)).map (fun o => (some (negative, o.1), o.2)) = .ok (e, r ++ more) := by
    obtain ⟨⟨ds, t⟩, hd, hm⟩ := exists_of_map_eq_ok h
    cases hm
    rw [scanDigits_behind hd fun hr => (hmore hr).startsNoDigit]
    rfl
  cases s with
  | nil =>
    cases h
    exact scanExponent_append .absent (hmore rfl)
  | cons c s =>
    rw [scanExponent.eq_def] at h
    rw [List.cons_append, scanExponent.eq_def]
    dsimp only at h ⊢
    split_ifs at h ⊢ with hc
    · cases s with
      | nil => cases h
      | cons d s =>
        split at h
        · rename_i heq
          obtain ⟨rfl, rfl⟩ := List.cons.inj heq
          exact digits h
        · rename_i heq
          obtain ⟨rfl, rfl⟩ := List.cons.inj heq
          exact digits h
        · rename_i hminus hplus
          have hscan := digits h
          split
          · rename_i r' hr'
            obtain ⟨rfl, -⟩ := List.cons.inj hr'
            exact absurd rfl (hminus s)
          · rename_i r' hr'
            obtain ⟨rfl, -⟩ := List.cons.inj hr'
            exact absurd rfl (hplus s)
          · exact hscan
    · cases h
      rfl

theorem eq_nil_of_append_eq_nil {x : List Char} (h : s = x ++ r) (hs : s = []) : r = [] := by
  rw [hs] at h
  exact (List.append_eq_nil_iff.1 h.symm).2

theorem scanNumeral_behind {negative : Bool} {n : Numeral} (h : scanNumeral negative s = .ok (n, r))
    (hmore : r = [] → EndsNumeral more) :
    scanNumeral negative (s ++ more) = .ok (n, r ++ more) := by
  obtain ⟨⟨w, s₁⟩, hw, h⟩ := Except.bind_eq_ok_iff.1 h
  obtain ⟨⟨f, s₂⟩, hf, h⟩ := Except.bind_eq_ok_iff.1 h
  obtain ⟨⟨e, s₃⟩, he, h⟩ := Except.bind_eq_ok_iff.1 h
  cases h
  -- Where an earlier part takes up all of the text, so do the later ones.
  have hexponent : s₂ = [] → EndsNumeral more := by
    obtain ⟨x, hx, -⟩ := eq_append_of_scanExponent he
    exact fun hs => hmore (eq_nil_of_append_eq_nil hx hs)
  have hfraction : s₁ = [] → EndsNumeral more := by
    obtain ⟨x, hx, -⟩ := eq_append_of_scanFraction hf
    exact fun hs => hexponent (eq_nil_of_append_eq_nil hx hs)
  have hw' := scanWhole_behind hw fun hs => (hfraction hs).startsNoDigit
  have hf' := scanFraction_behind hf fun hs =>
    ⟨(hexponent hs).startsNoDigit, fun c hc => (hexponent hs c hc).2.1⟩
  have he' := scanExponent_behind he hmore
  simp only [scanNumeral, hw', hf', he', bind, Except.bind, pure, Except.pure]

theorem numberToken_behind {negative : Bool} {n : Numeral}
    (h : numberToken negative s = .ok (.number n, r)) (hmore : r = [] → EndsNumeral more) :
    numberToken negative (s ++ more) = .ok (.number n, r ++ more) := by
  unfold numberToken at h
  split at h
  · rename_i hn
    cases h
    rw [numberToken, scanNumeral_behind hn hmore]
  · cases h

theorem readToken_number_behind {c : Char} {n : Numeral} (h : readToken c s = .ok (.number n, r))
    (hmore : r = [] → EndsNumeral more) :
    readToken c (s ++ more) = .ok (.number n, r ++ more) := by
  have word {w : List Char} {u : Token} (hu : ∀ n, u ≠ .number n) :
      wordToken w u s ≠ .ok (.number n, r) := by
    intro h
    unfold wordToken at h
    split at h <;> cases h
    exact hu n rfl
  unfold readToken at h ⊢
  split at h
  · cases h
  · split_ifs at h ⊢ with hn ht hf hq hd hdigit
    · exact absurd h (word nofun)
    · exact absurd h (word nofun)
    · exact absurd h (word nofun)
    · unfold stringToken at h
      split at h <;> cases h
    · exact numberToken_behind h hmore
    · exact numberToken_behind (s := c :: s) h hmore

-- The unit that a text starts with, with more text behind it.
theorem scan_behind {c : Char} {t : Token} (hc : isBlank c = false)
    (h : readToken c s = .ok (t, r)) (hmore : r = [] → Ends t more) :
    scan (c :: s ++ more) = (t :: (scan (r ++ more)).1, (scan (r ++ more)).2) := by
  obtain ⟨x, hx, ht⟩ := exists_spelling_of_readToken h
  have other (hends : Ends t (r ++ more)) :
      scan (c :: s ++ more) = (t :: (scan (r ++ more)).1, (scan (r ++ more)).2) := by
    rw [hx, List.append_assoc]
    exact scan_spelling ht hends
  cases t with
  | number n => exact scan_of_readToken hc (readToken_number_behind h fun hr => hmore hr n rfl)
  | _ => exact other nofun

section EndsInDigit

def EndsInDigit (s : List Char) : Prop := ∃ d ∈ s.getLast?, d.isDigit = true

theorem EndsInDigit.behind {x : List Char} (h : EndsInDigit s) : EndsInDigit (x ++ s) := by
  obtain ⟨d, hd, hdigit⟩ := h
  refine ⟨d, ?_, hdigit⟩
  rw [List.getLast?_append, Option.mem_def.1 hd]
  rfl

theorem Digits.endsInDigit {ds : List Char} (h : Digits ds) : EndsInDigit ds :=
  ⟨ds.getLast h.1, List.getLast?_eq_some_getLast h.1, h.2 _ (List.getLast_mem h.1)⟩

theorem WholeText.endsInDigit {w : List Char} (h : WholeText w) : EndsInDigit w := by
  cases h with
  | zero => exact ⟨'0', rfl, rfl⟩
  | row _ h => exact h.endsInDigit

theorem EndsInDigit.fraction {w x : List Char} {f : Option (List Char)} (hw : EndsInDigit w)
    (hx : FractionText f x) : EndsInDigit (w ++ x) := by
  cases hx with
  | absent => rwa [List.append_nil]
  | present h => exact (h.endsInDigit.behind (x := ['.'])).behind

theorem EndsInDigit.exponent {w y : List Char} {e : Option (Bool × List Char)} (hw : EndsInDigit w)
    (hy : ExponentText e y) : EndsInDigit (w ++ y) := by
  cases hy with
  | absent => rwa [List.append_nil]
  | @plain e _ _ h => exact (h.endsInDigit.behind (x := [e])).behind
  | @plus e _ _ h => exact (h.endsInDigit.behind (x := [e, '+'])).behind
  | @minus e _ _ h => exact (h.endsInDigit.behind (x := [e, '-'])).behind

theorem NumberText.endsInDigit {n : Numeral} {x : List Char} (h : NumberText n x) :
    EndsInDigit x := by
  cases h with
  | plain hw hf he =>
    rw [← List.append_assoc]
    exact (hw.endsInDigit.fraction hf).exponent he
  | negative hw hf he =>
    rw [← List.append_assoc]
    exact ((hw.endsInDigit.fraction hf).exponent he).behind (x := ['-'])

end EndsInDigit

end Roster.Json
