import Roster.Proofs.Toml.Grammar

-- What is read of a text that has more behind it. Either the text is read to its end and nothing
-- else, or it is refused, whatever it is that follows.

namespace Roster.Toml

variable {α β : Type} {C D : List Char → Prop} {c : Char} {t x y : List Char}

-- Reading goes to the end of `x`, and what it comes to does not depend on what follows.
def Gives (C : List Char → Prop) (read : List Char → Option (α × List Char)) (x : List Char) : Prop :=
  ∃ o : Option α, ∀ t, C t → read (x ++ t) = o.map fun v => (v, t)

def Anything (_ : List Char) : Prop := True

theorem gives_none {read : List Char → Option (α × List Char)} (h : ∀ t, C t → read (x ++ t) = none) :
    Gives C read x :=
  ⟨none, h⟩

theorem Gives.mono {read : List Char → Option (α × List Char)} (h : Gives C read x)
    (hC : ∀ t, D t → C t) : Gives D read x := by
  obtain ⟨o, ho⟩ := h
  exact ⟨o, fun t ht => ho t (hC t ht)⟩

theorem Gives.congr {read read' : List Char → Option (α × List Char)} {x' : List Char}
    (h : Gives C read x) (heq : ∀ t, C t → read' (x' ++ t) = read (x ++ t)) : Gives C read' x' := by
  obtain ⟨o, ho⟩ := h
  exact ⟨o, fun t ht => (heq t ht).trans (ho t ht)⟩

-- One part behind another: the second begins where the first one stops.
theorem Gives.bind {read : List Char → Option (α × List Char)}
    {f : α × List Char → Option (β × List Char)} (h : Gives C read x)
    (hC : ∀ t, D t → C (y ++ t)) (hf : ∀ v, Gives D (fun s => f (v, s)) y) :
    Gives D (fun s => (read s).bind f) (x ++ y) := by
  obtain ⟨o, ho⟩ := h
  cases o with
  | none =>
    refine gives_none fun t ht => ?_
    rw [List.append_assoc, ho _ (hC t ht)]
    rfl
  | some v =>
    refine (hf v).congr fun t ht => ?_
    rw [List.append_assoc, ho _ (hC t ht)]
    rfl

theorem Gives.map {read : List Char → Option (α × List Char)} (h : Gives C read x) (f : α → β) :
    Gives C (fun s => (read s).map fun (v, r) => (f v, r)) x := by
  obtain ⟨o, ho⟩ := h
  refine ⟨o.map f, fun t ht => ?_⟩
  simp only [ho t ht]
  cases o <;> rfl

theorem Gives.bindSome {read : List Char → Option (α × List Char)} (h : Gives C read x) (f : α → β) :
    Gives C (fun s => (read s).bind fun (v, r) => some (f v, r)) x :=
  (h.map f).congr fun t _ => by cases read (x ++ t) <;> rfl

section EndsValue

-- Blanks, marks, comments and line ends.
def isEnd (c : Char) : Bool :=
  isWs c || c = ',' || c = ']' || c = '\x7d' || c = '#' || c = '\n' || c = '\r'

-- Nothing that could still belong to a value.
def EndsValue (t : List Char) : Prop := ∀ c ∈ (skipWs t).head?, isEnd c = true

theorem isWs_iff : isWs c = true ↔ c = ' ' ∨ c = '\t' := by
  rw [isWs, Bool.or_eq_true, decide_eq_true_eq, decide_eq_true_eq]

theorem isEnd_iff : isEnd c = true ↔
    c = ' ' ∨ c = '\t' ∨ c = ',' ∨ c = ']' ∨ c = '\x7d' ∨ c = '#' ∨ c = '\n' ∨ c = '\r' := by
  simp [isEnd, isWs, or_assoc]

theorem ne_of_isEnd {d : Char} (hc : isEnd c = true) (hd : isEnd d = false) : c ≠ d := by
  rintro rfl
  rw [hc] at hd
  cases hd

theorem skipWs_cons_of_isWs (hc : isWs c = true) (s : List Char) : skipWs (c :: s) = skipWs s :=
  List.dropWhile_cons_of_pos hc

theorem skipWs_cons_of_not (hc : isWs c = false) (s : List Char) : skipWs (c :: s) = c :: s :=
  List.dropWhile_cons_of_neg (by simp [hc])

theorem skipWs_append_of_blanks {b : List Char} (hb : b.all isWs) (s : List Char) :
    skipWs (b ++ s) = skipWs s :=
  List.dropWhile_append_of_pos (List.all_eq_true.1 hb)

theorem endsValue_nil : EndsValue [] := nofun

theorem endsValue_cons (hc : isEnd c = true) (hws : isWs c = false) (s : List Char) :
    EndsValue (c :: s) := by
  intro d hd
  rw [skipWs_cons_of_not hws] at hd
  cases hd
  exact hc

theorem EndsValue.blanks_append {b : List Char} (hb : b.all isWs) (ht : EndsValue t) :
    EndsValue (b ++ t) := by
  rwa [EndsValue, skipWs_append_of_blanks hb]

theorem EndsValue.head (ht : EndsValue t) : ∀ c ∈ t.head?, isEnd c = true := by
  cases t with
  | nil => nofun
  | cons c t =>
    rintro d ⟨⟩
    cases hws : isWs c with
    | true => rw [isEnd, hws]; rfl
    | false =>
      rw [EndsValue, skipWs_cons_of_not hws] at ht
      exact ht c rfl

theorem not_endsValue_cons (hc : isEnd c = false) (s : List Char) : ¬EndsValue (c :: s) := by
  intro h
  have hend := h.head c rfl
  rw [hc] at hend
  cases hend

-- What is left over is no end of a value, so nothing can make sense of it.
def Stuck (o : Option (α × List Char)) : Prop := ∀ v r, o = some (v, r) → ¬EndsValue r

theorem stuck_none : Stuck (none : Option (α × List Char)) := nofun

inductive Settled (read : List Char → Option (α × List Char)) (x : List Char) : Option α → Prop
  | given (v : α) (h : ∀ t, EndsValue t → read (x ++ t) = some (v, t)) : Settled read x (some v)
  | refused (h : ∀ t, EndsValue t → Stuck (read (x ++ t))) : Settled read x none

theorem Settled.read_append {read : List Char → Option (α × List Char)} {v : α}
    (h : Settled read x (some v)) (ht : EndsValue t) : read (x ++ t) = some (v, t) := by
  cases h with
  | given _ h => exact h t ht

theorem Settled.read_self {read : List Char → Option (α × List Char)} {v : α}
    (h : Settled read x (some v)) : read x = some (v, []) := by
  rw [← List.append_nil x, h.read_append endsValue_nil]

theorem Settled.stuck_append {read : List Char → Option (α × List Char)} (h : Settled read x none)
    (ht : EndsValue t) : Stuck (read (x ++ t)) := by
  cases h with
  | refused h => exact h t ht

theorem Settled.stuck_self {read : List Char → Option (α × List Char)} (h : Settled read x none) :
    Stuck (read x) := by
  have hstuck := h.stuck_append endsValue_nil
  rwa [List.append_nil] at hstuck

theorem Gives.exists_settled {read : List Char → Option (α × List Char)}
    (h : Gives EndsValue read x) : ∃ o, Settled read x o := by
  obtain ⟨o, ho⟩ := h
  refine ⟨o, ?_⟩
  cases o with
  | none => exact .refused fun t ht => by rw [ho t ht]; exact stuck_none
  | some v => exact .given v ho

theorem Settled.congr {read read' : List Char → Option (α × List Char)} {o : Option α}
    (h : Settled read x o) (heq : ∀ t, EndsValue t → read' (x ++ t) = read (x ++ t)) :
    Settled read' x o := by
  cases h with
  | given v h => exact .given v fun t ht => (heq t ht).trans (h t ht)
  | refused h => exact .refused fun t ht => by rw [heq t ht]; exact h t ht

theorem Settled.map {read : List Char → Option (α × List Char)} {o : Option α}
    (h : Settled read x o) (f : α → β) :
    Settled (fun s => (read s).map fun (v, r) => (f v, r)) x (o.map f) := by
  cases h with
  | given v h => exact .given (f v) fun t ht => by simp only [h t ht]; rfl
  | refused h =>
    refine .refused fun t ht w r hread => ?_
    obtain ⟨⟨v, q⟩, hv, heq⟩ := Option.map_eq_some_iff.1 hread
    cases heq
    exact h t ht v _ hv

end EndsValue

end Roster.Toml
