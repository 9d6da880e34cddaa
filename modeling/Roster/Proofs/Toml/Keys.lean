import Roster.Proofs.Toml.Order

namespace Roster.Toml

open Ordered

-- The key under which an entry comes.
def Key.top (key : Key) : String := key.path.headD key.name

def keys {α : Type} (t : List (String × α)) : List String := t.map Prod.fst

variable {t d : Draft} {es : List Entry} {k : String}

theorem keys_enter (k : String) (n : Node) (t : Draft) :
    keys (enter k n t) = if k ∈ keys t then keys t else keys t ++ [k] := by
  induction t with
  | nil => rfl
  | cons e r ih =>
    by_cases hk : e.1 = k
    · simp [enter, keys, hk]
    · have hne : k ≠ e.1 := fun h => hk h.symm
      simp only [keys] at ih
      by_cases hr : k ∈ r.map Prod.fst <;> simp [enter, keys, hk, hne, hr, ih]

theorem mem_keys_enter_iff {k' : String} {n : Node} :
    k ∈ keys (enter k' n t) ↔ k ∈ keys t ∨ k = k' := by
  rw [keys_enter]
  by_cases h : k' ∈ keys t
  · rw [if_pos h, or_iff_left_of_imp]
    rintro rfl
    exact h
  · rw [if_neg h, List.mem_append, List.mem_singleton]

theorem head?_keys_enter (n : Node) :
    (keys (enter k n t)).head? = (keys t ++ [k]).head? := by
  rw [keys_enter]
  by_cases h : k ∈ keys t
  · obtain ⟨first, rest, hcons⟩ := List.exists_cons_of_ne_nil (List.ne_nil_of_mem h)
    rw [if_pos h, hcons]
    rfl
  · rw [if_neg h]

-- Whatever happens further down, at the top one key is given a node.
theorem exists_enter_of_assign {path : List String} {name : String} {v : Node}
    (h : assign path name v t = some d) : ∃ n, d = enter (path.headD name) n t := by
  cases path with
  | nil =>
    rw [assign] at h
    split at h
    · cases h
    · exact ⟨v, (Option.some.inj h).symm⟩
  | cons p ps =>
    have of_map {f : Draft → Node} {x : Option Draft}
        (hx : (x.map fun t' => enter p (f t') t) = some d) : ∃ n, d = enter p n t := by
      obtain ⟨t', -, rfl⟩ := Option.map_eq_some_iff.1 hx
      exact ⟨f t', rfl⟩
    rw [assign] at h
    split at h
    · exact of_map h
    · exact of_map h
    · split at h
      · cases h
      · exact of_map h
    · split at h
      · cases h
      · exact of_map h
    · cases h

theorem assignAll_cons_eq_some_iff {e : Entry} :
    assignAll (e :: es) t = some d ↔
      ∃ t', assign e.key.path e.key.name e.value t = some t' ∧ assignAll es t' = some d := by
  rw [assignAll, List.foldlM_cons, Option.bind_eq_bind, Option.bind_eq_some_iff]
  rfl

-- Each entry comes under the first part of its key, and a key stands where it was first used.
theorem mem_keys_assignAll_iff (h : assignAll es t = some d) :
    k ∈ keys d ↔ k ∈ keys t ∨ ∃ e ∈ es, e.key.top = k := by
  induction es generalizing t with
  | nil =>
    obtain rfl : t = d := Option.some.inj h
    simp
  | cons e es ih =>
    obtain ⟨t', ht', hd⟩ := assignAll_cons_eq_some_iff.1 h
    obtain ⟨n, rfl⟩ := exists_enter_of_assign ht'
    rw [ih hd, mem_keys_enter_iff, or_assoc]
    simp only [List.mem_cons, exists_eq_or_imp]
    exact or_congr_right (or_congr_left eq_comm)

theorem head?_keys_assignAll (h : assignAll es t = some d) :
    (keys d).head? = (keys t ++ es.map fun e => e.key.top).head? := by
  induction es generalizing t with
  | nil =>
    obtain rfl : t = d := Option.some.inj h
    simp
  | cons e es ih =>
    obtain ⟨t', ht', hd⟩ := assignAll_cons_eq_some_iff.1 h
    obtain ⟨n, rfl⟩ := exists_enter_of_assign ht'
    rw [ih hd, List.head?_append, head?_keys_enter, ← List.head?_append, List.append_assoc]
    rfl

theorem mem_keys_put_iff {α : Type} {e : String × α} {l : List (String × α)} :
    k ∈ keys (put Prod.fst e l) ↔ k = e.1 ∨ k ∈ keys l := by
  have hfind := find?_put Prod.fst e k l
  rw [keys, keys, ← isSome_find?_iff, ← isSome_find?_iff, hfind]
  by_cases hk : e.1 = k
  · simp [hk]
  · simp [hk, Ne.symm hk]

theorem mem_keys_finishEntries_iff {u : Table} (h : finishEntries d = some u) :
    k ∈ keys u ↔ k ∈ keys d := by
  induction d generalizing u with
  | nil =>
    obtain rfl : [] = u := by simpa [finishEntries] using h
    rfl
  | cons e d ih =>
    obtain ⟨v, -, r, hr, rfl⟩ := finishEntries_cons_eq_some_iff.1 h
    rw [mem_keys_put_iff, ih hr]
    simp [keys]

end Roster.Toml
