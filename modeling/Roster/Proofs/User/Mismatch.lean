import Mathlib
import Roster.Proofs.Json.Behind
import Roster.Proofs.User.Reading

namespace Roster.User

open Json

namespace Reading

variable {r : Reading} {s more : List Char} {m : Mismatch}

-- Where a text stops, nothing can be said about what fits.
theorem stopped_ne_data (r : Reading) (stop : Stop) (m : Mismatch) :
    r.stopped stop ≠ .error (.data m) := by
  intro h
  cases r with
  | finished u =>
    rw [stopped] at h
    split_ifs at h
    cases h
  | value slots field => cases field <;> cases h
  | _ => cases h

-- A text does not end in a digit, or what stands behind it does not go on with a number.
def Parts (s more : List Char) : Prop :=
  (∀ c ∈ s.getLast?, c.isDigit = false) ∨ EndsNumeral more

theorem Parts.of_append {x : List Char} (h : Parts (x ++ s) more) : Parts s more := by
  refine h.imp_left fun hlast c hc => hlast c ?_
  rw [List.getLast?_append, Option.mem_def.1 hc]
  rfl

theorem Parts.ends {t : Token} {x : List Char} (h : Parts x more) (ht : Spelling t x) :
    Ends t more := by
  rintro n rfl
  cases ht with
  | number hn =>
    obtain ⟨d, hd, hdigit⟩ := hn.endsInDigit
    exact h.resolve_left fun hlast => absurd hdigit (by rw [hlast d hd]; decide)

theorem read_behind_mismatch (h : r.read s = .error (.data m)) (hparts : Parts s more) :
    r.read (s ++ more) = .error (.data m) := by
  induction hn : s.length using Nat.strongRecOn generalizing s r with
  | ind n ih =>
    cases s with
    | nil =>
      rw [read_nil] at h
      exact absurd h (stopped_ne_data r .done m)
    | cons c s =>
      cases hc : isBlank c with
      | true =>
        rw [read_cons_blank hc] at h
        rw [List.cons_append, read_cons_blank hc]
        exact ih s.length (hn ▸ Nat.lt_succ_self _) h (hparts.of_append (x := [c])) rfl
      | false =>
        cases htoken : readToken c s with
        | error stop =>
          rw [read_of_stop (scan_of_stop hc htoken)] at h
          exact absurd h (stopped_ne_data r stop m)
        | ok o =>
          obtain ⟨t, rest⟩ := o
          obtain ⟨x, hx, ht⟩ := exists_spelling_of_readToken htoken
          rw [hx] at hparts
          have hends : rest = [] → Ends t more := by
            rintro rfl
            rw [List.append_nil] at hparts
            exact hparts.ends ht
          rw [read_of_scan (scan_behind hc htoken hends)]
          rw [read_of_scan (scan_of_readToken hc htoken)] at h
          -- Either this unit does not fit, or one behind it.
          rcases Except.bind_eq_error_iff.1 h with hstep | ⟨r', hstep, hrest⟩
          · exact Except.bind_eq_error_iff.2 (.inl hstep)
          · have hlt : rest.length < n := by
              have := length_readToken_le htoken
              rw [← hn, List.length_cons]
              omega
            have hread := ih rest.length hlt hrest hparts.of_append rfl
            exact Except.bind_eq_error_iff.2 (.inr ⟨r', hstep, hread⟩)

end Reading

theorem ofJson_behind_mismatch {text more : String} {m : Mismatch}
    (h : ofJson text = .error (.data m))
    (hparts : (∀ c ∈ text.toList.getLast?, c.isDigit = false) ∨
      ∀ c ∈ more.toList.head?, c.isDigit = false ∧ c ≠ '.' ∧ c ≠ 'e' ∧ c ≠ 'E') :
    ofJson (text ++ more) = .error (.data m) := by
  rw [ofJson_eq] at h ⊢
  rw [@String.toList_append text more]
  refine Reading.read_behind_mismatch h (hparts.imp_right fun hmore c hc => ?_)
  rw [Number.isDigit_eq]
  exact hmore c hc

-- A number below zero, and behind it a text that is no JSON.
theorem ofJson_behind_mismatch_negative :
    ofJson "\x7b\"age\":-1" = .error (.data (.outOfRange (.integer (-1)) "u32")) ∧
      ofJson ("\x7b\"age\":-1" ++ "\x7d\x7d, \"name") =
        .error (.data (.outOfRange (.integer (-1)) "u32")) := by
  have h : ofJson "\x7b\"age\":-1" = .error (.data (.outOfRange (.integer (-1)) "u32")) := by
    cbv
  have hhead : "\x7d\x7d, \"name".toList.head? = some '\x7d' := by decide
  refine ⟨h, ofJson_behind_mismatch h (.inr fun c hc => ?_)⟩
  obtain rfl := Option.some.inj (hhead.symm.trans hc)
  decide

end Roster.User
