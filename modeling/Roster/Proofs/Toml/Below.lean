import Mathlib.Data.List.Induction
import Roster.Proofs.Toml.Keys

namespace Roster.Toml

-- The entries whose keys go on below this key, with what is left of their keys.
def below (k : String) (es : List Entry) : List Entry :=
  es.filterMap fun e =>
    match e.key.path with
    | [] => none
    | p :: ps => if p = k then some ⟨⟨ps, e.key.name⟩, e.value⟩ else none

-- The values that are given to this key itself.
def given (k : String) (es : List Entry) : List Node :=
  es.filterMap fun e => if e.key = ⟨[], k⟩ then some e.value else none

-- What the entries put under a key, if they agree about it.
def nodeAt (k : String) (es : List Entry) : Option (Option Node) :=
  match given k es, below k es with
  | [], [] => some none
  | [v], [] => some (some v)
  | [], e :: us => (assignAll (e :: us) []).map fun d => some (.table .dotted d)
  | _, _ => none

-- The values that stand behind an equals sign: nothing can be added to them.
def IsValue : Node → Prop
  | .scalar _ => True
  | .list _ => True
  | .table origin _ => origin = .closed
  | .tables _ _ => False

theorem isValue_of_readLeaf {s r : List Char} {v : Node} (h : readLeaf s = some (v, r)) : IsValue v := by
  obtain ⟨⟨x, q⟩, -, heq⟩ := Option.map_eq_some_iff.1 h
  cases heq
  exact trivial

theorem isValue_of_readBraces {item : Reader Node} {s r : List Char} {v : Node}
    (h : readBraces item s = some (v, r)) : IsValue v := by
  unfold readBraces at h
  split at h
  · cases h
    rfl
  · obtain ⟨⟨es, q⟩, -, hes⟩ := Option.bind_eq_some_iff.1 h
    obtain ⟨d, -, heq⟩ := Option.bind_eq_some_iff.1 hes
    cases heq
    rfl

theorem isValue_of_readValue {n : Nat} {s r : List Char} {v : Node}
    (h : readValue n s = some (v, r)) : IsValue v := by
  unfold readValue at h
  split at h
  · cases h
  · split at h
    · cases h
    · exact isValue_of_readLeaf h
  · split at h
    · obtain ⟨⟨ns, q⟩, -, heq⟩ := Option.map_eq_some_iff.1 h
      cases heq
      exact trivial
    · split at h
      · exact isValue_of_readBraces h
      · exact isValue_of_readLeaf h

theorem isValue_of_readEntry {n : Nat} {s r : List Char} {e : Entry}
    (h : readEntry (readValue n) s = some (e, r)) : IsValue e.value := by
  obtain ⟨⟨key, q⟩, -, hrest⟩ := Option.bind_eq_some_iff.1 h
  dsimp only at hrest
  split at hrest
  · obtain ⟨⟨v, t⟩, hv, heq⟩ := Option.bind_eq_some_iff.1 hrest
    cases heq
    exact isValue_of_readValue hv
  · cases hrest

variable {es : List Entry} {e : Entry} {t d : Draft} {k : String} {v : Node} {ps : List String}
  {name : String}

section LookUp

theorem lookUp_cons (e : String × Node) (t : Draft) (k : String) :
    lookUp k (e :: t) = if e.1 = k then some e.2 else lookUp k t := by
  rw [lookUp, lookUp, List.lookup_cons]
  by_cases h : k = e.1
  · rw [if_pos h.symm, beq_iff_eq.2 h]
  · rw [if_neg (Ne.symm h), beq_false_of_ne h]

theorem lookUp_enter (k' : String) (n : Node) (t : Draft) :
    lookUp k (enter k' n t) = if k' = k then some n else lookUp k t := by
  induction t with
  | nil => rw [enter, lookUp_cons]
  | cons e t ih =>
    rw [enter, lookUp_cons]
    split
    · rename_i he
      rw [lookUp_cons, he]
      split <;> rfl
    · rename_i he
      rw [lookUp_cons, ih]
      grind

theorem assignAll_append (es us : List Entry) (t : Draft) :
    assignAll (es ++ us) t = (assignAll es t).bind (assignAll us) := by
  rw [assignAll, assignAll, List.foldlM_append]
  rfl

theorem assignAll_singleton (e : Entry) (t : Draft) :
    assignAll [e] t = assign e.key.path e.key.name e.value t := by
  rw [assignAll, List.foldlM_cons]
  cases assign e.key.path e.key.name e.value t <;> rfl

theorem assignAll_concat (es : List Entry) (e : Entry) (t : Draft) :
    assignAll (es ++ [e]) t = (assignAll es t).bind (assign e.key.path e.key.name e.value) := by
  rw [assignAll_append]
  exact Option.bind_congr fun d _ => assignAll_singleton e d

end LookUp

section Assign

theorem below_concat_of_path (es : List Entry) (he : e.key.path = k :: ps) :
    below k (es ++ [e]) = below k es ++ [⟨⟨ps, e.key.name⟩, e.value⟩] ∧
      given k (es ++ [e]) = given k es := by
  have hne : e.key ≠ ⟨[], k⟩ := by
    intro heq
    rw [heq] at he
    cases he
  simp [below, given, he, hne]

theorem given_concat_of_key (es : List Entry) (he : e.key = ⟨[], k⟩) :
    given k (es ++ [e]) = given k es ++ [e.value] ∧ below k (es ++ [e]) = below k es := by
  simp [below, given, he]

theorem nodeAt_concat_of_ne (hk : e.key.top ≠ k) : nodeAt k (es ++ [e]) = nodeAt k es := by
  have hbelow : below k (es ++ [e]) = below k es := by
    unfold below
    rw [List.filterMap_append]
    cases hpath : e.key.path with
    | nil => simp [hpath]
    | cons p ps =>
      have hp : p ≠ k := by simpa [Key.top, hpath] using hk
      simp [hpath, hp]
  have hgiven : given k (es ++ [e]) = given k es := by
    have hne : e.key ≠ ⟨[], k⟩ := by
      intro heq
      rw [heq] at hk
      exact hk rfl
    simp [given, hne]
  rw [nodeAt, nodeAt, hbelow, hgiven]

theorem nodeAt_cases {o : Option Node} (h : nodeAt k es = some o) :
    given k es = [] ∧ below k es = [] ∧ o = none ∨
      (∃ v, given k es = [v] ∧ below k es = [] ∧ o = some v) ∨
      given k es = [] ∧ below k es ≠ [] ∧
        ∃ d, assignAll (below k es) [] = some d ∧ o = some (.table .dotted d) := by
  unfold nodeAt at h
  split at h
  · rename_i hgiven hbelow
    cases h
    exact .inl ⟨hgiven, hbelow, rfl⟩
  · rename_i v hgiven hbelow
    cases h
    exact .inr (.inl ⟨v, hgiven, hbelow, rfl⟩)
  · rename_i e us hgiven hbelow
    obtain ⟨d, hd, rfl⟩ := Option.map_eq_some_iff.1 h
    exact .inr (.inr ⟨hgiven, by simp [hbelow], d, by rw [hbelow, hd], rfl⟩)
  · cases h

theorem nodeAt_of_below (hgiven : given k es = []) (hbelow : below k es ≠ []) :
    nodeAt k es = (assignAll (below k es) []).map fun d => some (.table .dotted d) := by
  obtain ⟨e, us, hcons⟩ := List.exists_cons_of_ne_nil hbelow
  rw [nodeAt, hgiven, hcons]

-- An entry for the key itself, which must not be taken yet.
theorem nodeAt_concat_key (he : e.key = ⟨[], k⟩) (h : nodeAt k es = some (lookUp k t)) :
    nodeAt k (es ++ [e]) = (assign [] k e.value t).map (lookUp k) := by
  obtain ⟨hgiven, hbelow⟩ := given_concat_of_key es he
  rw [assign, nodeAt, hgiven, hbelow]
  rcases nodeAt_cases h with ⟨hg, hb, ho⟩ | ⟨v, hg, hb, ho⟩ | ⟨hg, hb, d, -, ho⟩
  · rw [hg, hb, ho]
    simp [lookUp_enter]
  · rw [hg, hb, ho]
    rfl
  · obtain ⟨e', us, hcons⟩ := List.exists_cons_of_ne_nil hb
    rw [hg, hcons, ho]
    rfl

theorem isValue_of_mem_given (hv : ∀ e ∈ es, IsValue e.value) (h : v ∈ given k es) : IsValue v := by
  obtain ⟨e, he, hsome⟩ := List.mem_filterMap.1 h
  split at hsome
  · cases hsome
    exact hv e he
  · cases hsome

theorem assign_of_isValue {n : Node} (ht : lookUp k t = some v) (hv : IsValue v) :
    assign (k :: ps) name n t = none := by
  rw [assign, ht]
  cases v with
  | table origin t =>
    obtain rfl : origin = .closed := hv
    rfl
  | tables ts t => cases hv
  | _ => rfl

-- An entry that goes on below the key, which must be free or have a table of dotted keys.
theorem nodeAt_concat_path (he : e.key.path = k :: ps) (hv : ∀ e ∈ es, IsValue e.value)
    (h : nodeAt k es = some (lookUp k t)) :
    nodeAt k (es ++ [e]) = (assign (k :: ps) e.key.name e.value t).map (lookUp k) := by
  obtain ⟨hbelow, hgiven⟩ := below_concat_of_path es he
  have entered (x : Option Draft) :
      (x.map fun d => some (Node.table .dotted d)) =
        (x.map fun d => enter k (.table .dotted d) t).map (lookUp k) := by
    cases x with
    | none => rfl
    | some d => simp [lookUp_enter]
  rcases nodeAt_cases h with ⟨hg, hb, ho⟩ | ⟨v, hg, hb, ho⟩ | ⟨hg, hb, d, hd, ho⟩
  · rw [nodeAt_of_below (hgiven.trans hg) (by simp [hbelow]), hbelow, hb, assignAll_concat, assign, ho]
    exact entered _
  · have hmem : v ∈ given k es := by rw [hg]; exact List.mem_singleton_self v
    have hvalue : IsValue v := isValue_of_mem_given hv hmem
    rw [assign_of_isValue ho hvalue, nodeAt, hgiven, hbelow, hg, hb]
    rfl
  · rw [nodeAt_of_below (hgiven.trans hg) (by simp [hbelow]), hbelow, assignAll_concat, hd, assign, ho]
    exact entered _

theorem nodeAt_concat_top (hv : ∀ e ∈ es, IsValue e.value)
    (h : nodeAt e.key.top es = some (lookUp e.key.top t)) :
    nodeAt e.key.top (es ++ [e]) =
      (assign e.key.path e.key.name e.value t).map (lookUp e.key.top) := by
  obtain ⟨⟨path, name⟩, v⟩ := e
  cases path with
  | nil => exact nodeAt_concat_key rfl h
  | cons p ps => exact nodeAt_concat_path rfl hv h

-- Entries disagree about a key that two of them give a value, or one while another goes on below it, or
-- if they disagree about a key further down.
theorem nodeAt_eq_none_iff :
    nodeAt k es = none ↔ 2 ≤ (given k es).length ∨ (given k es ≠ [] ∧ below k es ≠ []) ∨
      assignAll (below k es) [] = none := by
  have hempty : assignAll [] [] ≠ none := nofun
  unfold nodeAt
  split
  · rename_i hg hb
    simp [hg, hb, hempty]
  · rename_i v hg hb
    simp [hg, hb, hempty]
  · rename_i e us hg hb
    simp [hg, hb]
  · rename_i hnil hone hbelow
    refine iff_of_true rfl ?_
    match hg : given k es, hb : below k es with
    | [], [] => exact absurd hb (hnil hg)
    | [], e :: us => exact absurd hb (hbelow e us hg)
    | [v], [] => exact absurd hb (hone v hg)
    | [v], e :: us => exact .inr (.inl ⟨nofun, nofun⟩)
    | v :: w :: vs, _ => exact .inl (by simp)

theorem nodeAt_concat_eq_none (h : nodeAt k es = none) : nodeAt k (es ++ [e]) = none := by
  have hgiven : given k (es ++ [e]) = given k es ++ given k [e] := List.filterMap_append
  have hbelow : below k (es ++ [e]) = below k es ++ below k [e] := List.filterMap_append
  rw [nodeAt_eq_none_iff, hgiven, hbelow]
  rcases nodeAt_eq_none_iff.1 h with hlen | ⟨hg, hb⟩ | hnone
  · refine .inl ?_
    rw [List.length_append]
    omega
  · exact .inr (.inl ⟨List.append_ne_nil_of_left_ne_nil hg _, List.append_ne_nil_of_left_ne_nil hb _⟩)
  · exact .inr (.inr (by rw [assignAll_append, hnone]; rfl))

end Assign

section AssignAll

theorem nodeAt_assignAll (hv : ∀ e ∈ es, IsValue e.value) :
    (∀ d, assignAll es [] = some d → ∀ k, nodeAt k es = some (lookUp k d)) ∧
      (assignAll es [] = none → ∃ k, nodeAt k es = none) := by
  induction es using List.reverseRecOn with
  | nil =>
    refine ⟨?_, nofun⟩
    rintro d ⟨⟩ k
    rfl
  | append_singleton es e ih =>
    obtain ⟨hsome, hnone⟩ := ih fun e he => hv e (List.mem_append_left _ he)
    have hes : ∀ e ∈ es, IsValue e.value := fun e he => hv e (List.mem_append_left _ he)
    rw [assignAll_concat]
    cases ht : assignAll es [] with
    | none =>
      refine ⟨nofun, fun _ => ?_⟩
      obtain ⟨k, hk⟩ := hnone ht
      exact ⟨k, nodeAt_concat_eq_none hk⟩
    | some t =>
      have htop := nodeAt_concat_top hes (hsome t ht e.key.top)
      constructor
      · intro d hd k
        rw [Option.bind_some] at hd
        by_cases hk : e.key.top = k
        · rw [hd] at htop
          rw [← hk]
          exact htop
        · obtain ⟨n, rfl⟩ := exists_enter_of_assign hd
          rw [nodeAt_concat_of_ne hk, hsome t ht k, lookUp_enter]
          exact congrArg some (if_neg hk).symm
      · intro hd
        rw [Option.bind_some] at hd
        rw [hd] at htop
        exact ⟨e.key.top, htop⟩

-- Under a key stands the value of the one entry for it, or a table of all the entries whose dotted
-- keys go on below it. Anything else is refused.
theorem nodeAt_eq_lookUp (hv : ∀ e ∈ es, IsValue e.value) (h : assignAll es [] = some d) (k : String) :
    nodeAt k es = some (lookUp k d) :=
  (nodeAt_assignAll hv).1 d h k

end AssignAll

end Roster.Toml
