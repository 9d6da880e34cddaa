import Mathlib.Data.List.Basic
import Roster.Toml.Layout

namespace Roster.Toml

def LineEnd (e : List Char) : Prop := e = ['\n'] ∨ e = ['\r', '\n']

def isInline (c : Char) : Bool := c ≠ '\n' && c ≠ '\r'

inductive SameLines : List Char → List Char → Prop
  | nil : SameLines [] []
  | char {c : Char} {s s' : List Char} (hc : isInline c = true) (h : SameLines s s') :
      SameLines (c :: s) (c :: s')
  | ends {e e' s s' : List Char} (he : LineEnd e) (he' : LineEnd e') (h : SameLines s s') :
      SameLines (e ++ s) (e' ++ s')

variable {a b e s y t : List Char} {c : Char}

theorem newline?_ends (he : LineEnd e) (s : List Char) : newline? (e ++ s) = some s := by
  rcases he with rfl | rfl <;> rfl

theorem newline?_of_isInline (hc : isInline c = true) (s : List Char) : newline? (c :: s) = none := by
  unfold newline?
  split
  · rename_i h
    obtain ⟨rfl, -⟩ := List.cons.inj h
    cases hc
  · rename_i h
    obtain ⟨rfl, -⟩ := List.cons.inj h
    cases hc
  · rfl

theorem exists_cons_of_lineEnd (he : LineEnd e) (s : List Char) :
    ∃ c r, e ++ s = c :: r ∧ isInline c = false := by
  rcases he with rfl | rfl
  · exact ⟨'\n', s, rfl, rfl⟩
  · exact ⟨'\r', '\n' :: s, rfl, rfl⟩

theorem sameLines_refl (hs : s.all isInline) : SameLines s s := by
  induction s with
  | nil => exact .nil
  | cons c s ih =>
    rw [List.all_cons, Bool.and_eq_true] at hs
    exact .char hs.1 (ih hs.2)

theorem SameLines.append {a' b' : List Char} (ha : SameLines a a') (hb : SameLines b b') :
    SameLines (a ++ b) (a' ++ b') := by
  induction ha with
  | nil => exact hb
  | char hc _ ih => exact .char hc ih
  | ends he he' _ ih =>
    rw [List.append_assoc, List.append_assoc]
    exact .ends he he' ih

theorem SameLines.eq_nil (h : SameLines [] y) : y = [] := by
  generalize hx : [] = x at h
  cases h with
  | nil => rfl
  | char => cases hx
  | ends he => rcases he with rfl | rfl <;> cases hx

theorem SameLines.of_cons (h : SameLines (c :: s) y) (hc : isInline c = true) :
    ∃ s', y = c :: s' ∧ SameLines s s' := by
  generalize hx : c :: s = x at h
  cases h with
  | nil => cases hx
  | char _ h =>
    obtain ⟨rfl, rfl⟩ := List.cons.inj hx
    exact ⟨_, rfl, h⟩
  | @ends e _ s₀ _ he =>
    obtain ⟨d, r, hd, hinline⟩ := exists_cons_of_lineEnd he s₀
    obtain ⟨rfl, -⟩ := List.cons.inj (hx.trans hd)
    rw [hc] at hinline
    cases hinline

theorem SameLines.of_inline (ha : a.all isInline) (h : SameLines (a ++ s) y) :
    ∃ s', y = a ++ s' ∧ SameLines s s' := by
  induction a generalizing y with
  | nil => exact ⟨y, rfl, h⟩
  | cons c a ih =>
    rw [List.all_cons, Bool.and_eq_true] at ha
    obtain ⟨r, rfl, hr⟩ := h.of_cons ha.1
    obtain ⟨s', rfl, hs⟩ := ih ha.2 hr
    exact ⟨s', rfl, hs⟩

theorem SameLines.eq_of_inline (ha : a.all isInline) (h : SameLines a y) : y = a := by
  rw [← List.append_nil a] at h
  obtain ⟨s', rfl, hs⟩ := h.of_inline ha
  rw [hs.eq_nil, List.append_nil]

theorem SameLines.of_lineEnd (he : LineEnd e) (h : SameLines (e ++ s) y) :
    ∃ e' s', LineEnd e' ∧ y = e' ++ s' ∧ SameLines s s' := by
  generalize hx : e ++ s = x at h
  cases h with
  | nil => rcases he with rfl | rfl <;> cases hx
  | char hc =>
    obtain ⟨d, r, hd, hinline⟩ := exists_cons_of_lineEnd he s
    obtain ⟨rfl, -⟩ := List.cons.inj (hd.symm.trans hx)
    rw [hc] at hinline
    cases hinline
  | ends he₁ he' h =>
    rcases he with rfl | rfl <;> rcases he₁ with rfl | rfl <;> cases hx <;> exact ⟨_, _, he', rfl, h⟩

theorem exists_of_lineEnd_append (he : LineEnd e) (hnil : a ≠ [])
    (hcut : a.getLast? ≠ some '\r' ∨ b.head? ≠ some '\n') (h : e ++ s = a ++ b) :
    ∃ a', a = e ++ a' ∧ a' ++ b = s := by
  cases a with
  | nil => exact absurd rfl hnil
  | cons c a =>
    rcases he with rfl | rfl
    · obtain ⟨rfl, rfl⟩ := List.cons.inj h
      exact ⟨a, rfl, rfl⟩
    · obtain ⟨rfl, hrest⟩ := List.cons.inj h
      cases a with
      | nil =>
        obtain rfl : b = '\n' :: s := hrest.symm
        rcases hcut with hcut | hcut <;> exact absurd rfl hcut
      | cons d a =>
        obtain ⟨rfl, rfl⟩ := List.cons.inj hrest
        exact ⟨a, rfl, rfl⟩

-- A text is cut between two lines, or inside of one of them, but not inside of a line end.
theorem SameLines.of_append (h : SameLines (a ++ b) y)
    (hcut : a.getLast? ≠ some '\r' ∨ b.head? ≠ some '\n') :
    ∃ a' b', y = a' ++ b' ∧ SameLines a a' ∧ SameLines b b' := by
  generalize hx : a ++ b = x at h
  induction h generalizing a with
  | nil =>
    obtain ⟨rfl, rfl⟩ := List.append_eq_nil_iff.1 hx
    exact ⟨[], [], rfl, .nil, .nil⟩
  | @char c s s' hc h ih =>
    cases a with
    | nil =>
      obtain rfl : b = c :: s := hx
      exact ⟨[], c :: s', rfl, .nil, .char hc h⟩
    | cons d a =>
      obtain ⟨rfl, rfl⟩ := List.cons.inj hx
      have hrest : a.getLast? ≠ some '\r' ∨ b.head? ≠ some '\n' := by
        refine hcut.imp_left fun hlast hlast' => hlast ?_
        rw [List.getLast?_cons, hlast']
        rfl
      obtain ⟨a', b', rfl, haa, hbb⟩ := ih hrest rfl
      exact ⟨d :: a', b', rfl, .char hc haa, hbb⟩
  | @ends e e' s s' he he' h ih =>
    by_cases hnil : a = []
    · subst hnil
      obtain rfl : b = e ++ s := hx
      exact ⟨[], e' ++ s', rfl, .nil, .ends he he' h⟩
    · obtain ⟨a, rfl, hs⟩ := exists_of_lineEnd_append he hnil hcut hx.symm
      have hrest : a.getLast? ≠ some '\r' ∨ b.head? ≠ some '\n' := by
        refine hcut.imp_left fun hlast hlast' => hlast ?_
        rw [List.getLast?_append, hlast']
        rfl
      obtain ⟨a', b', rfl, haa, hbb⟩ := ih hrest hs
      exact ⟨e' ++ a', b', (List.append_assoc ..).symm, .ends he he' haa, hbb⟩

end Roster.Toml
