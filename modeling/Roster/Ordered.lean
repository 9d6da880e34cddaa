-- Lists in ascending order of a text key, with one element for each key.
--
-- A table of a document and the users of a storage are both kept this way. Two such lists that
-- answer every look-up alike are the same list, so what was put in first can no longer be told.

namespace Roster.Ordered

variable {α : Type} (key : α → String)

-- Keys go up strictly, so no key comes twice.
-- Texts compare by character, which is also the order of their UTF-8 bytes.
def Sorted (l : List α) : Prop := l.Pairwise (key · < key ·)

def find? (k : String) : List α → Option α
  | [] => none
  | a :: r => if key a = k then some a else find? k r

-- Takes the place of the element with the same key, if there is one.
def put (a : α) : List α → List α
  | [] => [a]
  | b :: r =>
    if key a < key b then a :: b :: r
    else if key a = key b then a :: r
    else b :: put a r

def erase (k : String) (l : List α) : List α := l.filter fun a => key a ≠ k

theorem mem_put {a b : α} {l : List α} (h : b ∈ put key a l) : b = a ∨ b ∈ l := by
  induction l with
  | nil => simpa [put] using h
  | cons c r ih =>
    simp only [put] at h
    split at h
    · simpa using h
    · split at h
      · simp only [List.mem_cons] at h ⊢
        exact h.imp_right .inr
      · simp only [List.mem_cons] at h ⊢
        rcases h with h | h
        · exact .inr (.inl h)
        · exact (ih h).imp_right .inr

theorem sorted_put (a : α) {l : List α} (h : Sorted key l) : Sorted key (put key a l) := by
  induction l with
  | nil => simp [put, Sorted]
  | cons b r ih =>
    have hb := List.pairwise_cons.1 h
    simp only [put]
    split
    · rename_i hab
      refine List.pairwise_cons.2 ⟨fun c hc => ?_, h⟩
      rcases List.mem_cons.1 hc with rfl | hc
      · exact hab
      · exact String.lt_trans hab (hb.1 c hc)
    · split
      · rename_i hab
        exact List.pairwise_cons.2 ⟨fun c hc => hab ▸ hb.1 c hc, hb.2⟩
      · rename_i hlt hne
        refine List.pairwise_cons.2 ⟨fun c hc => ?_, ih hb.2⟩
        rcases mem_put key hc with rfl | hc
        · grind
        · exact hb.1 c hc

theorem sorted_erase (k : String) {l : List α} (h : Sorted key l) : Sorted key (erase key k l) :=
  List.Pairwise.filter _ h

theorem find?_put (a : α) (k : String) (l : List α) :
    find? key k (put key a l) = if key a = k then some a else find? key k l := by
  induction l with
  | nil => simp [put, find?]
  | cons b r ih =>
    simp only [put]
    split
    · simp [find?]
    · split
      · rename_i hab
        by_cases hk : key a = k <;> simp [find?, hk, ← hab]
      · rename_i hlt hne
        simp only [find?, ih]
        by_cases hk : key b = k
        · simp [hk, hk ▸ hne]
        · simp [hk]

theorem find?_erase (k k' : String) (l : List α) :
    find? key k' (erase key k l) = if k' = k then none else find? key k' l := by
  induction l with
  | nil => simp [erase, find?]
  | cons b r ih =>
    simp only [erase] at ih
    by_cases hk : key b = k
    · simp only [erase, List.filter_cons, hk, ne_eq, not_true, decide_false, find?]
      rw [if_neg (by simp), ih]
      grind
    · simp only [erase, List.filter_cons, hk, ne_eq, not_false_eq_true, decide_true, if_true, find?, ih]
      grind

theorem key_of_find? {a : α} {k : String} {l : List α} (h : find? key k l = some a) :
    key a = k := by
  induction l with
  | nil => simp [find?] at h
  | cons b r ih =>
    simp only [find?] at h
    split at h
    · exact Option.some.inj h ▸ ‹_›
    · exact ih h

theorem isSome_find?_iff (k : String) (l : List α) :
    (find? key k l).isSome ↔ k ∈ l.map key := by
  induction l with
  | nil => simp [find?]
  | cons b r ih =>
    by_cases hk : key b = k
    · simp [find?, hk]
    · have hk' : k ≠ key b := fun h => hk h.symm
      simp [find?, hk, hk', ih]

-- Keys that go up strictly are different from each other.
theorem nodup_keys {l : List α} (h : Sorted key l) : (l.map key).Nodup :=
  List.pairwise_map.2 <| List.Pairwise.imp (fun hab => Std.ne_of_lt hab) h

end Roster.Ordered
