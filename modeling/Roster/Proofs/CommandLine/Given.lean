import Mathlib.Data.List.Induction
import Roster.Proofs.CommandLine.Item

namespace Roster.CommandLine

-- The values of a flag, in the order in which they are given.
def given (f : Flag) (xs : List Choice) : List Bytes :=
  (xs.filter fun x => x.flag = f).map Choice.value

def giveAll (s : Settings) (xs : List Choice) : Except UsageError Settings :=
  xs.foldlM (fun s x => s.give x.flag (some x.value)) s

-- The values that a flag may have.
def Flag.Accepts (f : Flag) (v : Bytes) : Prop :=
  match f with
  | .config | .basePath => v ≠ []
  | .backend => ∃ t k, v = Bytes.ofString t ∧ Backend.parse t = .ok k
  | .email | .name => ∃ t, v = Bytes.ofString t
  | .age => ∃ t a, v = Bytes.ofString t ∧ WritesAge t.toList a

-- The settings hold the only value that is given for a flag, or none if none is.
def Settings.Holds (s : Settings) (f : Flag) (vs : List Bytes) : Prop :=
  (vs = [] ∧ s.value? f = none) ∨ ∃ v x, vs = [v] ∧ Reads f v x ∧ s.value? f = some x

def Reflects (s : Settings) (xs : List Choice) : Prop := ∀ f, s.Holds f (given f xs)

theorem accepts_iff {f : Flag} {v : Bytes} : f.Accepts v ↔ ∃ x, Reads f v x := by
  constructor
  · intro h
    cases f with
    | config => exact ⟨_, .config h⟩
    | basePath => exact ⟨_, .basePath h⟩
    | backend =>
      obtain ⟨t, k, rfl, hk⟩ := h
      exact ⟨_, .backend hk⟩
    | email =>
      obtain ⟨t, rfl⟩ := h
      exact ⟨_, .email t⟩
    | name =>
      obtain ⟨t, rfl⟩ := h
      exact ⟨_, .name t⟩
    | age =>
      obtain ⟨t, a, rfl, ha⟩ := h
      exact ⟨_, .age ha⟩
  · rintro ⟨x, hx⟩
    cases hx with
    | config hv | basePath hv => exact hv
    | backend hk => exact ⟨_, _, rfl, hk⟩
    | email t | name t => exact ⟨t, rfl⟩
    | age ha => exact ⟨_, _, rfl, ha⟩

theorem given_append (f : Flag) (xs ys : List Choice) :
    given f (xs ++ ys) = given f xs ++ given f ys := by
  rw [given, List.filter_append, List.map_append, given, given]

theorem given_singleton_self (x : Choice) : given x.flag [x] = [x.value] := by
  simp [given]

theorem given_singleton_of_ne {f : Flag} {x : Choice} (h : f ≠ x.flag) : given f [x] = [] := by
  simp [given, h.symm]

theorem mem_given_iff {f : Flag} {v : Bytes} {xs : List Choice} :
    v ∈ given f xs ↔ ∃ x ∈ xs, x.flag = f ∧ x.value = v := by
  simp [given, and_assoc]

theorem reflects_empty : Reflects {} [] := by
  intro f
  cases f <;> exact .inl ⟨rfl, rfl⟩

-- Whoever gives a flag finds it not given yet, and leaves the other flags alone.
theorem Reflects.give {s s' : Settings} {xs : List Choice} {x : Choice} (h : Reflects s xs)
    (hs : s.give x.flag (some x.value) = .ok s') : Reflects s' (xs ++ [x]) := by
  obtain ⟨hnone, hput⟩ := give_eq_ok_iff.1 hs
  obtain ⟨y, hy, hself⟩ := exists_reads_of_put hput
  intro f
  rw [given_append]
  by_cases hf : f = x.flag
  · subst hf
    right
    refine ⟨x.value, y, ?_, hy, hself⟩
    rcases h x.flag with ⟨hg, -⟩ | ⟨v, z, -, -, hz⟩
    · rw [hg, given_singleton_self, List.nil_append]
    · rw [hnone] at hz
      cases hz
  · rw [given_singleton_of_ne hf, List.append_nil, Settings.Holds, value?_put_of_ne hput hf]
    exact h f

theorem Reflects.exists_give {s : Settings} {xs : List Choice} {x : Choice} (h : Reflects s xs)
    (hnew : given x.flag xs = []) (hx : x.flag.Accepts x.value) :
    ∃ s', s.give x.flag (some x.value) = .ok s' := by
  obtain ⟨y, hy⟩ := accepts_iff.1 hx
  obtain ⟨s', hs'⟩ := exists_put_of_reads hy s
  refine ⟨s', give_eq_ok_iff.2 ⟨?_, hs'⟩⟩
  rcases h x.flag with ⟨-, hnone⟩ | ⟨v, z, hv, -, -⟩
  · exact hnone
  · rw [hnew] at hv
    cases hv

theorem giveAll_append (s : Settings) (xs ys : List Choice) :
    giveAll s (xs ++ ys) = (giveAll s xs).bind fun s' => giveAll s' ys :=
  List.foldlM_append

theorem giveAll_cons_eq_ok_iff {s s' : Settings} {x : Choice} {xs : List Choice} :
    giveAll s (x :: xs) = .ok s' ↔
      ∃ t, s.give x.flag (some x.value) = .ok t ∧ giveAll t xs = .ok s' := by
  rw [giveAll, List.foldlM_cons]
  exact Except.bind_eq_ok_iff

theorem giveAll_snoc_eq_ok_iff {s s' : Settings} {x : Choice} {xs : List Choice} :
    giveAll s (xs ++ [x]) = .ok s' ↔
      ∃ t, giveAll s xs = .ok t ∧ t.give x.flag (some x.value) = .ok s' := by
  rw [giveAll_append, Except.bind_eq_ok_iff]
  refine exists_congr fun t => and_congr_right fun _ => ?_
  rw [giveAll_cons_eq_ok_iff]
  constructor
  · rintro ⟨u, hu, hs⟩
    cases hs
    exact hu
  · intro h
    exact ⟨s', h, rfl⟩

-- At every point the settings hold what was given so far: nothing, or the only value of a flag.
theorem reflects_of_giveAll {s : Settings} {xs : List Choice} (h : giveAll {} xs = .ok s) :
    Reflects s xs := by
  induction xs using List.reverseRecOn generalizing s with
  | nil =>
    cases h
    exact reflects_empty
  | append_singleton xs x ih =>
    obtain ⟨t, ht, hs⟩ := giveAll_snoc_eq_ok_iff.1 h
    exact (ih ht).give hs

theorem exists_giveAll {xs : List Choice} (honce : ∀ f, (given f xs).length ≤ 1)
    (hvalues : ∀ x ∈ xs, x.flag.Accepts x.value) : ∃ s, giveAll {} xs = .ok s := by
  induction xs using List.reverseRecOn with
  | nil => exact ⟨{}, rfl⟩
  | append_singleton xs x ih =>
    have hlength (f : Flag) : (given f xs).length + (given f [x]).length ≤ 1 := by
      rw [← List.length_append, ← given_append]
      exact honce f
    obtain ⟨t, ht⟩ := ih (fun f => by have := hlength f; omega)
      (fun y hy => hvalues y (List.mem_append_left _ hy))
    have hnew : given x.flag xs = [] := by
      have := hlength x.flag
      rw [given_singleton_self, List.length_singleton] at this
      exact List.eq_nil_of_length_eq_zero (by omega)
    obtain ⟨s, hs⟩ := (reflects_of_giveAll ht).exists_give hnew (hvalues x (by simp))
    exact ⟨s, giveAll_snoc_eq_ok_iff.2 ⟨t, ht, hs⟩⟩

variable {s : Settings} {xs : List Choice}

theorem Reflects.length_le_one (h : Reflects s xs) (f : Flag) : (given f xs).length ≤ 1 := by
  rcases h f with ⟨hg, -⟩ | ⟨v, x, hg, -, -⟩
  · rw [hg]
    exact Nat.zero_le 1
  · rw [hg, List.length_singleton]

theorem Reflects.accepts (h : Reflects s xs) {x : Choice} (hx : x ∈ xs) :
    x.flag.Accepts x.value := by
  have hmem : x.value ∈ given x.flag xs := mem_given_iff.2 ⟨x, hx, rfl, rfl⟩
  rcases h x.flag with ⟨hg, -⟩ | ⟨v, y, hg, hy, -⟩
  · rw [hg] at hmem
    cases hmem
  · rw [hg, List.mem_singleton] at hmem
    rw [hmem]
    exact accepts_iff.2 ⟨y, hy⟩

theorem Reflects.value?_eq_some_iff (h : Reflects s xs) {f : Flag} {x : Value} :
    s.value? f = some x ↔ ∃ v, given f xs = [v] ∧ Reads f v x := by
  rcases h f with ⟨hg, hs⟩ | ⟨v, y, hg, hy, hs⟩
  · rw [hg, hs]
    simp
  · rw [hg, hs]
    constructor
    · intro heq
      cases heq
      exact ⟨v, rfl, hy⟩
    · rintro ⟨u, hu, hx⟩
      cases hu
      rw [hy.unique hx]

theorem Reads.eq_of_path {f : Flag} {v p : Bytes} (h : Reads f v (.path p)) : v = p := by
  cases h <;> rfl

theorem Reflects.path_eq_head? (h : Reflects s xs) {f : Flag} {o : Option Bytes}
    (ho : s.value? f = o.map .path) : o = (given f xs).head? := by
  rcases h f with ⟨hg, hs⟩ | ⟨v, x, hg, hx, hs⟩
  · rw [hg]
    exact Option.map_eq_none_iff.1 (ho.symm.trans hs)
  · obtain ⟨p, hp, rfl⟩ := Option.map_eq_some_iff.1 (ho.symm.trans hs)
    rw [hg, hp, hx.eq_of_path, List.head?_cons]

theorem Reflects.field_eq_some_iff (h : Reflects s xs) {α : Type} {c : α → Value}
    (hc : ∀ a b, c a = c b → a = b) {f : Flag} {o : Option α} (ho : s.value? f = o.map c) {a : α} :
    o = some a ↔ ∃ v, given f xs = [v] ∧ Reads f v (c a) := by
  rw [← h.value?_eq_some_iff, ho, Option.map_eq_some_iff]
  constructor
  · intro ha
    exact ⟨a, ha, rfl⟩
  · rintro ⟨b, hb, heq⟩
    rw [hb, hc b a heq]

theorem Reflects.field_eq_none_iff (h : Reflects s xs) {α : Type} {c : α → Value} {f : Flag}
    {o : Option α} (ho : s.value? f = o.map c) : o = none ↔ given f xs = [] := by
  rw [← Option.map_eq_none_iff (f := c), ← ho]
  rcases h f with ⟨hg, hs⟩ | ⟨v, x, hg, -, hs⟩
  · simp [hg, hs]
  · simp [hg, hs]

theorem Reflects.head?_eq_some_iff (h : Reflects s xs) {f : Flag} {v : Bytes} :
    (given f xs).head? = some v ↔ given f xs = [v] := by
  rcases h f with ⟨hg, -⟩ | ⟨u, x, hg, -, -⟩
  · simp [hg]
  · simp [hg]

theorem Reflects.config_eq (h : Reflects s xs) : s.config = (given .config xs).head? :=
  h.path_eq_head? rfl

theorem Reflects.basePath_eq (h : Reflects s xs) : s.basePath = (given .basePath xs).head? :=
  h.path_eq_head? rfl

theorem Reflects.backend_eq_some_iff (h : Reflects s xs) {k : Backend} :
    s.backend = some k ↔
      ∃ t, given .backend xs = [Bytes.ofString t] ∧ Backend.parse t = .ok k := by
  apply (h.field_eq_some_iff (f := .backend) (fun _ _ => Value.kind.inj) rfl).trans
  constructor
  · rintro ⟨v, hv, hr⟩
    cases hr with
    | backend hk => exact ⟨_, hv, hk⟩
  · rintro ⟨t, hv, hk⟩
    exact ⟨_, hv, .backend hk⟩

theorem Reflects.text_eq_some_iff (h : Reflects s xs) {f : Flag} {o : Option String}
    (hf : f = .email ∨ f = .name) (ho : s.value? f = o.map .text) {t : String} :
    o = some t ↔ given f xs = [Bytes.ofString t] := by
  apply (h.field_eq_some_iff (fun _ _ => Value.text.inj) ho).trans
  constructor
  · rintro ⟨v, hv, hr⟩
    cases hr <;> exact hv
  · intro hv
    rcases hf with rfl | rfl
    · exact ⟨_, hv, .email t⟩
    · exact ⟨_, hv, .name t⟩

theorem Reflects.email_eq_some_iff (h : Reflects s xs) {t : String} :
    s.email = some t ↔ given .email xs = [Bytes.ofString t] :=
  h.text_eq_some_iff (.inl rfl) rfl

theorem Reflects.name_eq_some_iff (h : Reflects s xs) {t : String} :
    s.name = some t ↔ given .name xs = [Bytes.ofString t] :=
  h.text_eq_some_iff (.inr rfl) rfl

theorem Reflects.age_eq_some_iff (h : Reflects s xs) {a : UInt32} :
    s.age = some a ↔ ∃ t, given .age xs = [Bytes.ofString t] ∧ WritesAge t.toList a := by
  apply (h.field_eq_some_iff (f := .age) (fun _ _ => Value.age.inj) rfl).trans
  constructor
  · rintro ⟨v, hv, hr⟩
    cases hr with
    | age ha => exact ⟨_, hv, ha⟩
  · rintro ⟨t, hv, ha⟩
    exact ⟨_, hv, .age ha⟩

end Roster.CommandLine
