import Mathlib.Data.List.Sort
import Roster.Ordered

namespace Roster.Ordered

variable {α : Type} {key : α → String} {l l' : List α} {a : α} {k : String}

theorem mem_of_find? (h : find? key k l = some a) : a ∈ l := by
  induction l with
  | nil => simp [find?] at h
  | cons b r ih =>
    by_cases hk : key b = k
    · have hb : b = a := by simpa [find?, hk] using h
      simp [hb]
    · have hr : find? key k r = some a := by simpa [find?, hk] using h
      exact List.mem_cons_of_mem b (ih hr)

theorem find?_of_mem (hl : Sorted key l) (h : a ∈ l) : find? key (key a) l = some a := by
  have hsome : (find? key (key a) l).isSome :=
    (isSome_find?_iff key (key a) l).2 (List.mem_map_of_mem h)
  obtain ⟨b, hb⟩ := Option.isSome_iff_exists.1 hsome
  have hkey : key b = key a := key_of_find? key hb
  have hba : b = a := List.inj_on_of_nodup_map (nodup_keys key hl) (mem_of_find? hb) h hkey
  rw [hb, hba]

theorem mem_iff_find? (hl : Sorted key l) : a ∈ l ↔ find? key (key a) l = some a :=
  ⟨find?_of_mem hl, mem_of_find?⟩

theorem eq_of_find?_eq (hl : Sorted key l) (hl' : Sorted key l')
    (h : ∀ k, find? key k l = find? key k l') : l = l' := by
  have irrefl : Std.Irrefl fun a b : α => key a < key b := ⟨fun a => String.lt_irrefl (key a)⟩
  have antisymm : Std.Antisymm fun a b : α => key a < key b :=
    ⟨fun a b hab hba => absurd (String.lt_trans hab hba) (String.lt_irrefl (key a))⟩
  apply List.Pairwise.eq_of_mem_iff hl hl'
  intro a
  rw [mem_iff_find? hl, mem_iff_find? hl', h]

end Roster.Ordered
