import Roster.Proofs.Ordered
import Roster.Proofs.Toml.Below

namespace Roster.Toml

open Ordered

variable {es es' : List Entry} {t d d' : Draft} {k : String} {n : Nat} {T : Table} {v : Node}

-- The entries that go on below a row of keys.
def belowAll (path : List String) (es : List Entry) : List Entry :=
  path.foldl (fun es k => below k es) es

-- The table that these entries build starts with the key of written date-times.
def StartsAsDateTime (es : List Entry) : Prop := ∃ e ∈ es.head?, e.key.top = dateTimeKey

section LookUp

theorem exists_of_mem_below {u : Entry} (h : u ∈ below k es) :
    ∃ e ∈ es, e.key = ⟨k :: u.key.path, u.key.name⟩ ∧ e.value = u.value := by
  obtain ⟨⟨⟨path, name⟩, v⟩, he, hsome⟩ := List.mem_filterMap.1 h
  refine ⟨_, he, ?_⟩
  cases path with
  | nil => cases hsome
  | cons p ps =>
    by_cases hp : p = k
    · subst hp
      obtain rfl := Option.some.inj ((if_pos rfl).symm.trans hsome)
      exact ⟨rfl, rfl⟩
    · cases (if_neg hp).symm.trans hsome

theorem isValue_below (hv : ∀ e ∈ es, IsValue e.value) : ∀ e ∈ below k es, IsValue e.value := by
  intro u hu
  obtain ⟨e, he, -, hvalue⟩ := exists_of_mem_below hu
  rw [← hvalue]
  exact hv e he

theorem length_path_below (hn : ∀ e ∈ es, e.key.path.length < n + 1) :
    ∀ e ∈ below k es, e.key.path.length < n := by
  intro u hu
  obtain ⟨e, he, hkey, -⟩ := exists_of_mem_below hu
  have hlt := hn e he
  rw [hkey, List.length_cons] at hlt
  omega

theorem below_perm (h : es.Perm es') (k : String) : (below k es).Perm (below k es') := h.filterMap _

theorem given_perm (h : es.Perm es') (k : String) : (given k es).Perm (given k es') := h.filterMap _

theorem ne_nil_of_perm {α : Type} {l l' : List α} (h : l.Perm l') (hl : l ≠ []) : l' ≠ [] := by
  rintro rfl
  exact hl (List.perm_nil.1 h)

theorem exists_length_lt (es : List Entry) : ∃ n, ∀ e ∈ es, e.key.path.length < n := by
  induction es with
  | nil => exact ⟨0, nofun⟩
  | cons e es ih =>
    obtain ⟨n, hn⟩ := ih
    refine ⟨max n (e.key.path.length + 1), fun u hu => ?_⟩
    rcases List.mem_cons.1 hu with rfl | hu
    · omega
    · have hlt := hn u hu
      omega

-- No table starts with the key of written date-times when no key has it as a part.
theorem not_startsAsDateTime (h : ∀ e ∈ es, dateTimeKey ∉ e.key.path ∧ e.key.name ≠ dateTimeKey)
    (path : List String) : ¬StartsAsDateTime (belowAll path es) := by
  induction path generalizing es with
  | nil =>
    rintro ⟨⟨⟨path, name⟩, v⟩, he, htop⟩
    obtain ⟨hpath, hname⟩ := h _ (List.mem_of_mem_head? he)
    cases path with
    | nil => exact hname htop
    | cons p ps =>
      obtain rfl : p = dateTimeKey := htop
      exact hpath List.mem_cons_self
  | cons k path ih =>
    refine ih fun u hu => ?_
    obtain ⟨e, he, hkey, -⟩ := exists_of_mem_below hu
    have hnone := h e he
    rw [hkey] at hnone
    exact ⟨fun hmem => hnone.1 (List.mem_cons_of_mem k hmem), hnone.2⟩

end LookUp

section AllRead

-- The induction is on how far the dotted keys reach.
theorem assignAll_eq_none_of_perm (hv : ∀ e ∈ es, IsValue e.value) (h : es.Perm es')
    (hnone : assignAll es [] = none) : assignAll es' [] = none := by
  obtain ⟨n, hn⟩ := exists_length_lt es
  induction n generalizing es es' with
  | zero =>
    cases es with
    | nil => cases hnone
    | cons e es => exact absurd (hn e List.mem_cons_self) (Nat.not_lt_zero _)
  | succ n ih =>
    obtain ⟨k, hk⟩ := (nodeAt_assignAll hv).2 hnone
    have hgiven := given_perm h k
    have hbelow := below_perm h k
    have hk' : nodeAt k es' = none := by
      rw [nodeAt_eq_none_iff, ← hgiven.length_eq]
      rcases nodeAt_eq_none_iff.1 hk with hlen | ⟨hg, hb⟩ | hdeeper
      · exact .inl hlen
      · exact .inr (.inl ⟨ne_nil_of_perm hgiven hg, ne_nil_of_perm hbelow hb⟩)
      · exact .inr (.inr (ih (isValue_below hv) hbelow hdeeper (length_path_below hn)))
    have hv' : ∀ e ∈ es', IsValue e.value := fun e he => hv e (h.mem_iff.2 he)
    cases hd : assignAll es' [] with
    | none => rfl
    | some d =>
      rw [nodeAt_eq_lookUp hv' hd k] at hk'
      cases hk'

end AllRead

section Tables

theorem nodup_keys_enter (ht : (keys t).Nodup) (k : String) (v : Node) : (keys (enter k v t)).Nodup := by
  rw [keys_enter]
  split
  · exact ht
  · rename_i hk
    have hdisjoint : (keys t).Disjoint [k] := by
      simpa using hk
    exact ht.append (List.nodup_singleton k) hdisjoint

theorem nodup_keys_assignAll (ht : (keys t).Nodup) (h : assignAll es t = some d) : (keys d).Nodup := by
  induction es generalizing t with
  | nil =>
    cases h
    exact ht
  | cons e es ih =>
    obtain ⟨t', ht', hd⟩ := assignAll_cons_eq_some_iff.1 h
    obtain ⟨v, rfl⟩ := exists_enter_of_assign ht'
    exact ih (nodup_keys_enter ht _ v) hd

theorem mem_iff_lookUp (ht : (keys t).Nodup) : (k, v) ∈ t ↔ lookUp k t = some v := by
  induction t with
  | nil => simp [lookUp]
  | cons e t ih =>
    obtain ⟨hne, ht⟩ := List.nodup_cons.1 ht
    rw [lookUp_cons, List.mem_cons, ih ht]
    split
    · rename_i hk
      subst hk
      have hnone : lookUp e.1 t ≠ some v := fun h => hne (List.mem_map.2 ⟨(e.1, v), (ih ht).2 h, rfl⟩)
      constructor
      · rintro (h | h)
        · rw [← h]
        · exact absurd h hnone
      · rintro ⟨⟩
        exact .inl rfl
    · rename_i hk
      refine or_iff_right ?_
      rintro rfl
      exact hk rfl

theorem find?_finishEntries (h : finishEntries d = some T) (k : String) :
    find? Prod.fst k T = (lookUp k d).bind fun n => n.finish.map fun v => (k, v) := by
  induction d generalizing T with
  | nil =>
    cases h
    rfl
  | cons e d ih =>
    obtain ⟨v, hv, r, hr, rfl⟩ := finishEntries_cons_eq_some_iff.1 h
    rw [find?_put, ih hr, lookUp_cons]
    split
    · rename_i hk
      subst hk
      simp [hv]
    · rfl

theorem isSome_finishEntries_iff : (finishEntries d).isSome ↔ ∀ e ∈ d, (Node.finish e.2).isSome := by
  induction d with
  | nil => simp [finishEntries]
  | cons e d ih =>
    rw [List.forall_mem_cons, ← ih, finishEntries]
    cases Node.finish e.2 <;> cases finishEntries d <;> simp

-- What a table comes to depends on what is found in it, not on where.
theorem finishEntries_eq_of_lookUp (hd : (keys d).Nodup) (hd' : (keys d').Nodup)
    (h : ∀ k, (lookUp k d).map Node.finish = (lookUp k d').map Node.finish) :
    finishEntries d = finishEntries d' := by
  have hsome (d d' : Draft) (hd : (keys d).Nodup) (hd' : (keys d').Nodup)
      (h : ∀ k, (lookUp k d).map Node.finish = (lookUp k d').map Node.finish)
      (hfinish : (finishEntries d).isSome) : (finishEntries d').isSome := by
    rw [isSome_finishEntries_iff] at hfinish ⊢
    rintro ⟨k, v'⟩ hv'
    have hk := h k
    rw [(mem_iff_lookUp hd').1 hv'] at hk
    obtain ⟨v, hv, heq⟩ := Option.map_eq_some_iff.1 hk
    rw [← heq]
    exact hfinish (k, v) ((mem_iff_lookUp hd).2 hv)
  cases hT : finishEntries d with
  | none =>
    cases hT' : finishEntries d' with
    | none => rfl
    | some T' =>
      have hsome := hsome d' d hd' hd (fun k => (h k).symm) (by rw [hT']; rfl)
      rw [hT] at hsome
      cases hsome
  | some T =>
    obtain ⟨T', hT'⟩ := Option.isSome_iff_exists.1 (hsome d d' hd hd' h (by rw [hT]; rfl))
    rw [hT']
    refine congrArg some (eq_of_find?_eq (sorted_finishEntries hT) (sorted_finishEntries hT') fun k => ?_)
    have hk := h k
    rw [find?_finishEntries hT, find?_finishEntries hT']
    cases hv : lookUp k d <;> cases hv' : lookUp k d' <;> simp_all

theorem tableValue_eq (d : Draft) (x : Option Table) :
    tableValue d x =
      if (keys d).head? = some dateTimeKey then (lookUp dateTimeKey d).bind writtenDateTime
      else x.map .table := by
  cases d with
  | nil => rfl
  | cons e d =>
    rw [tableValue, lookUp_cons]
    by_cases hk : e.1 = dateTimeKey <;> simp [keys, hk]

end Tables

section Finish

theorem head?_keys_eq_iff (h : assignAll es [] = some d) :
    (keys d).head? = some dateTimeKey ↔ StartsAsDateTime es := by
  rw [head?_keys_assignAll h, keys, List.map_nil, List.nil_append, List.head?_map,
    Option.map_eq_some_iff]
  rfl

-- The same is found in both orders, but for tables of dotted keys, which are built in both.
theorem lookUp_of_perm (hv : ∀ e ∈ es, IsValue e.value) (h : es.Perm es')
    (hd : assignAll es [] = some d) (hd' : assignAll es' [] = some d') (k : String) :
    lookUp k d = lookUp k d' ∨ ∃ u u', lookUp k d = some (.table .dotted u) ∧
      lookUp k d' = some (.table .dotted u') ∧ assignAll (below k es) [] = some u ∧
      assignAll (below k es') [] = some u' := by
  have hv' : ∀ e ∈ es', IsValue e.value := fun e he => hv e (h.mem_iff.2 he)
  have hgiven := given_perm h k
  have hbelow := below_perm h k
  rcases nodeAt_cases (nodeAt_eq_lookUp hv hd k) with
    ⟨hg, hb, ho⟩ | ⟨v, hg, hb, ho⟩ | ⟨hg, hb, u, hu, ho⟩ <;>
  rcases nodeAt_cases (nodeAt_eq_lookUp hv' hd' k) with
    ⟨hg', hb', ho'⟩ | ⟨v', hg', hb', ho'⟩ | ⟨hg', hb', u', hu', ho'⟩ <;>
  rw [hg, hg'] at hgiven
  · exact .inl (ho.trans ho'.symm)
  · cases List.nil_perm.1 hgiven
  · rw [hb] at hbelow
    exact absurd (List.nil_perm.1 hbelow) hb'
  · cases List.perm_nil.1 hgiven
  · obtain rfl : v = v' := List.singleton_inj.1 (List.perm_singleton.1 hgiven)
    exact .inl (ho.trans ho'.symm)
  · cases List.perm_nil.1 hgiven
  · rw [hb'] at hbelow
    exact absurd (List.perm_nil.1 hbelow) hb
  · cases List.nil_perm.1 hgiven
  · exact .inr ⟨u, u', ho, ho', hu, hu'⟩

-- A date-time is written by one entry, and a table of dotted keys writes none.
theorem writtenDateTime_of_perm (hv : ∀ e ∈ es, IsValue e.value) (h : es.Perm es')
    (hd : assignAll es [] = some d) (hd' : assignAll es' [] = some d') (k : String) :
    (lookUp k d).bind writtenDateTime = (lookUp k d').bind writtenDateTime := by
  rcases lookUp_of_perm hv h hd hd' k with heq | ⟨u, u', hu, hu', -, -⟩
  · rw [heq]
  · rw [hu, hu']
    rfl

-- The tables further down come to the same by induction, and this one starts with the same key.
theorem finishEntries_of_perm (hv : ∀ e ∈ es, IsValue e.value) (h : es.Perm es')
    (hfirst : ∀ path ≠ [], StartsAsDateTime (belowAll path es) ↔ StartsAsDateTime (belowAll path es'))
    (hd : assignAll es [] = some d) (hd' : assignAll es' [] = some d') :
    finishEntries d = finishEntries d' := by
  obtain ⟨n, hn⟩ := exists_length_lt es
  induction n generalizing es es' d d' with
  | zero =>
    cases es with
    | nil =>
      rw [List.nil_perm.1 h, hd] at hd'
      cases hd'
      rfl
    | cons e es => exact absurd (hn e List.mem_cons_self) (Nat.not_lt_zero _)
  | succ n ih =>
    have hnodup : (keys ([] : Draft)).Nodup := List.nodup_nil
    refine finishEntries_eq_of_lookUp (nodup_keys_assignAll hnodup hd)
      (nodup_keys_assignAll hnodup hd') fun k => ?_
    rcases lookUp_of_perm hv h hd hd' k with heq | ⟨u, u', hu, hu', hbuilt, hbuilt'⟩
    · rw [heq]
    · have hbelow := below_perm h k
      have hsame := ih (isValue_below hv) hbelow (fun path _ => hfirst (k :: path) (List.cons_ne_nil k path))
        hbuilt hbuilt' (length_path_below hn)
      have hhead : (keys u).head? = some dateTimeKey ↔ (keys u').head? = some dateTimeKey := by
        rw [head?_keys_eq_iff hbuilt, head?_keys_eq_iff hbuilt']
        exact hfirst [k] (List.cons_ne_nil k [])
      rw [hu, hu', Option.map_some, Option.map_some, Node.finish, Node.finish, tableValue_eq,
        tableValue_eq, hsame, writtenDateTime_of_perm (isValue_below hv) hbelow hbuilt hbuilt']
      simp only [hhead]

-- The one thing that the order of entries decides is which tables of dotted keys start with the key
-- of written date-times.
theorem finish_of_perm (hv : ∀ e ∈ es, IsValue e.value) (h : es.Perm es')
    (hfirst : ∀ path ≠ [], StartsAsDateTime (belowAll path es) ↔ StartsAsDateTime (belowAll path es')) :
    (assignAll es []).bind finishEntries = (assignAll es' []).bind finishEntries := by
  have hv' : ∀ e ∈ es', IsValue e.value := fun e he => hv e (h.mem_iff.2 he)
  cases hd : assignAll es [] with
  | none => rw [assignAll_eq_none_of_perm hv h hd]
  | some d =>
    cases hd' : assignAll es' [] with
    | none =>
      rw [assignAll_eq_none_of_perm hv' h.symm hd'] at hd
      cases hd
    | some d' => exact finishEntries_of_perm hv h hfirst hd hd'

end Finish

end Roster.Toml
