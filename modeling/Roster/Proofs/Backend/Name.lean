import Mathlib
import Roster.Proofs.Config.Entry

namespace Roster

open Text

namespace Text

variable {b b' s : List Char} {c d : Char}

theorem eq_or_eq_toUpper_toLower (c : Char) : c = c.toLower ∨ c = c.toLower.toUpper := by
  have ascii : ∀ n < 128, Char.ofNat n = (Char.ofNat n).toLower ∨
      Char.ofNat n = (Char.ofNat n).toLower.toUpper := by
    decide
  by_cases hc : c.toNat < 128
  · have hc' := ascii c.toNat hc
    rwa [Char.ofNat_toNat] at hc'
  · left
    have hupper : ¬(c.val ≥ 'A'.val ∧ c.val ≤ 'Z'.val) := by
      rintro ⟨-, hle⟩
      have hle' : c.toNat ≤ 90 := hle
      omega
    rw [Char.toLower, dif_neg hupper]

theorem dropWhile_eq_self (hs : ∀ c ∈ s, isBlank c = false) : s.dropWhile isBlank = s := by
  cases s with
  | nil => rfl
  | cons c s => rw [List.dropWhile_cons_of_neg (by simp [hs c List.mem_cons_self])]

theorem dropTrailing_append (hb : ∀ c ∈ b, isBlank c = true) (hs : ∀ c ∈ s, isBlank c = false) :
    dropTrailing isBlank (s ++ b) = s := by
  have hb' : ∀ c ∈ b.reverse, isBlank c = true := fun c hc => hb c (List.mem_reverse.1 hc)
  have hs' : ∀ c ∈ s.reverse, isBlank c = false := fun c hc => hs c (List.mem_reverse.1 hc)
  rw [dropTrailing, List.reverse_append, List.dropWhile_append_of_pos hb', dropWhile_eq_self hs',
    List.reverse_reverse]

theorem trim_append (hb : ∀ c ∈ b, isBlank c = true) (hb' : ∀ c ∈ b', isBlank c = true)
    (hs : ∀ c ∈ s, isBlank c = false) : trim (b ++ (s ++ b')) = s := by
  rw [trim, List.dropWhile_append_of_pos hb]
  cases s with
  | nil =>
    rw [List.nil_append, List.dropWhile_eq_nil_iff.2 hb']
    rfl
  | cons c s =>
    have hc : ¬isBlank c = true := by simp [hs c List.mem_cons_self]
    rw [List.cons_append, List.dropWhile_cons_of_neg hc, ← List.cons_append,
      dropTrailing_append hb' hs]

theorem exists_eq_trim_append (s : List Char) : ∃ b b', s = b ++ (trim s ++ b') ∧
    (∀ c ∈ b, isBlank c = true) ∧ ∀ c ∈ b', isBlank c = true := by
  let t := s.dropWhile isBlank
  have ht : t = trim s ++ (t.reverse.takeWhile isBlank).reverse := by
    rw [trim, dropTrailing, ← List.reverse_append, List.takeWhile_append_dropWhile,
      List.reverse_reverse]
  refine ⟨s.takeWhile isBlank, (t.reverse.takeWhile isBlank).reverse, ?_, ?_, ?_⟩
  · rw [← ht, List.takeWhile_append_dropWhile]
  · exact fun c hc => List.mem_takeWhile_imp hc
  · exact fun c hc => List.mem_takeWhile_imp (List.mem_reverse.1 hc)

end Text

namespace Backend

variable {x : String} {k : Backend} {m : List Char}

-- A letter of a name, small or large. Letters outside ASCII have no other case here.
def SpellsLetter (c d : Char) : Prop := c = d ∨ c = d.toUpper

-- The name of a kind, with its letters in either case and any blanks around it.
def WritesName (x : String) (k : Backend) : Prop :=
  ∃ b m b', x.toList = b ++ (m ++ b') ∧ (∀ c ∈ b, isBlank c = true) ∧
    (∀ c ∈ b', isBlank c = true) ∧ List.Forall₂ SpellsLetter m k.name.toList

-- What holds of the letters of a name in either case.
theorem letter_of_mem_name {c d : Char} (hd : d ∈ k.name.toList) (h : SpellsLetter c d) :
    c.toLower = d ∧ isBlank c = false := by
  have letters : ∀ k : Backend, ∀ d ∈ k.name.toList,
      (d.toLower = d ∧ isBlank d = false) ∧ d.toUpper.toLower = d ∧ isBlank d.toUpper = false := by
    rintro (_ | _) <;> simp [name, isBlank]
  rcases h with rfl | rfl
  · exact (letters k c hd).1
  · exact (letters k d hd).2

theorem foldCase_of_spells {ds : List Char} (hds : ∀ d ∈ ds, d ∈ k.name.toList)
    (h : List.Forall₂ SpellsLetter m ds) :
    foldCase m = ds ∧ ∀ c ∈ m, isBlank c = false := by
  induction h with
  | nil => exact ⟨rfl, nofun⟩
  | cons hletter _ ih =>
    obtain ⟨hd, hds⟩ := List.forall_mem_cons.1 hds
    obtain ⟨hfold, hblank⟩ := ih hds
    obtain ⟨hc, hc'⟩ := letter_of_mem_name hd hletter
    refine ⟨?_, List.forall_mem_cons.2 ⟨hc', hblank⟩⟩
    rw [← hfold, ← hc]
    rfl

theorem spells_foldCase (m : List Char) : List.Forall₂ SpellsLetter m (foldCase m) := by
  rw [foldCase, List.forall₂_map_right_iff, List.forall₂_same]
  exact fun c _ => eq_or_eq_toUpper_toLower c

theorem parse?_eq_some_iff_writesName : parse? x = some k ↔ WritesName x k := by
  have hparse : parse? x = some k ↔ foldCase (trim x.toList) = k.name.toList := by
    rw [parse?, Config.named?_eq_some_iff, ← String.toList_inj, String.toList_ofList]
  rw [hparse]
  constructor
  · intro h
    obtain ⟨b, b', hx, hb, hb'⟩ := exists_eq_trim_append x.toList
    refine ⟨b, trim x.toList, b', hx, hb, hb', ?_⟩
    rw [← h]
    exact spells_foldCase _
  · rintro ⟨b, m, b', hx, hb, hb', hm⟩
    obtain ⟨hfold, hblank⟩ := foldCase_of_spells (fun d hd => hd) hm
    rw [hx, trim_append hb hb' hblank, hfold]

theorem writesName_name (k : Backend) : WritesName k.name k := by
  refine parse?_eq_some_iff_writesName.1 ?_
  cases k <;> decide

theorem parse?_eq_none_of_forall (h : ∀ k, ¬WritesName x k) : parse? x = none := by
  rw [Option.eq_none_iff_forall_ne_some]
  exact fun k hk => h k (parse?_eq_some_iff_writesName.1 hk)

end Backend
end Roster
