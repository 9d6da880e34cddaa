import Mathlib.Logic.ExistsUnique
import Mathlib.Logic.Relation
import Roster.Config

namespace Roster

namespace Path

-- One way to spell a path shorter. A slash that is the whole path stays, for it is the root.
inductive Shortens : Bytes → Bytes → Prop
  | repeated (front behind : Bytes) :
      Shortens (front ++ slash :: slash :: behind) (front ++ slash :: behind)
  | here (front behind : Bytes) :
      Shortens (front ++ slash :: (dot ++ slash :: behind)) (front ++ slash :: behind)
  | lastHere (front : Bytes) : Shortens (front ++ slash :: dot) (front ++ [slash])
  | trailing {front : Bytes} (h : front ≠ []) : Shortens (front ++ [slash]) front

def IsShortest (p : Bytes) : Prop := ∀ q, ¬Shortens p q

-- What a path comes to when it is spelled shorter, in some order, for as long as it can be.
structure IsNormalForm (p n : Bytes) : Prop where
  reached : Relation.ReflTransGen Shortens p n
  shortest : IsShortest n

variable {p q n front : Bytes} {ps qs : List Bytes}

theorem pieces_eq_splitOn (p : Bytes) : pieces p = p.splitOn slash := by
  induction p with
  | nil => rfl
  | cons b r ih =>
    rw [pieces, ih, List.splitOn_cons_eq_if_modifyHead]
    by_cases hb : b = slash
    · simp [hb]
    · cases h : r.splitOn slash with
      | nil => exact absurd h (List.splitOn_ne_nil slash r)
      | cons s ps => simp [hb]

theorem exists_pieces (p : Bytes) : ∃ s ps, pieces p = s :: ps := by
  rw [pieces_eq_splitOn]
  exact List.exists_cons_of_ne_nil (List.splitOn_ne_nil slash p)

theorem pieces_append_slash (front behind : Bytes) :
    pieces (front ++ slash :: behind) = pieces front ++ pieces behind := by
  simp only [pieces_eq_splitOn, List.splitOn_append_cons_self]

theorem pieces_slash (behind : Bytes) : pieces (slash :: behind) = [] :: pieces behind :=
  pieces_append_slash [] behind

theorem intercalate_pieces (p : Bytes) : [slash].intercalate (pieces p) = p := by
  rw [pieces_eq_splitOn, List.intercalate_splitOn]

@[simp] theorem plainSteps_append (ps qs : List Bytes) :
    plainSteps (ps ++ qs) = plainSteps ps ++ plainSteps qs :=
  List.filter_append ..

@[simp] theorem plainSteps_nil_cons (ps : List Bytes) : plainSteps ([] :: ps) = plainSteps ps := rfl

@[simp] theorem plainSteps_dot_cons (ps : List Bytes) : plainSteps (dot :: ps) = plainSteps ps := rfl

theorem plainSteps_of_forall (h : ∀ s ∈ ps, s ≠ [] ∧ s ≠ dot) : plainSteps ps = ps := by
  rw [plainSteps, List.filter_eq_self]
  intro s hs
  exact decide_eq_true (h s hs)

theorem steps_of_plain {s : Bytes} (hp : pieces p = s :: ps) (hs : s ≠ [])
    (hps : ∀ t ∈ ps, t ≠ [] ∧ t ≠ dot) : steps p = s :: ps := by
  by_cases hdot : s = dot
  · simp [steps, hp, hdot, plainSteps_of_forall hps]
  · have hall : ∀ t ∈ s :: ps, t ≠ [] ∧ t ≠ dot := List.forall_mem_cons.2 ⟨⟨hs, hdot⟩, hps⟩
    simp [steps, hp, hdot, plainSteps_of_forall hall]

section Agree

-- Both rooted or neither, with the same first piece, and with the same pieces once the empty ones and
-- the dots are left out.
structure Agree (p q : Bytes) : Prop where
  rooted : isRooted p = isRooted q
  first : (pieces p).head? = (pieces q).head?
  plain : plainSteps (pieces p) = plainSteps (pieces q)

-- A first piece that is a dot is a step of its own.
theorem steps_eq (p : Bytes) :
    steps p = (if (pieces p).head? = some dot then [dot] else []) ++ plainSteps (pieces p) := by
  obtain ⟨s, ps, hp⟩ := exists_pieces p
  by_cases hs : s = dot <;> simp [steps, hp, hs]

theorem Agree.steps_eq (h : Agree p q) : steps p = steps q := by
  rw [Path.steps_eq, Path.steps_eq, h.first, h.plain]

-- Pieces that are no steps make no difference behind the first piece.
theorem agree_of_pieces (hrooted : isRooted p = isRooted q) (hp : pieces p = pieces front ++ ps)
    (hq : pieces q = pieces front ++ qs) (h : plainSteps ps = plainSteps qs) : Agree p q where
  rooted := hrooted
  first := by
    obtain ⟨s, rs, hfront⟩ := exists_pieces front
    rw [hp, hq, hfront]
    rfl
  plain := by rw [hp, hq, plainSteps_append, plainSteps_append, h]

-- What stands behind a slash may change as long as the steps in it stay.
theorem agree_of_behind {x y : Bytes} (h : plainSteps (pieces x) = plainSteps (pieces y)) :
    Agree (front ++ slash :: x) (front ++ slash :: y) := by
  have hrooted : isRooted (front ++ slash :: x) = isRooted (front ++ slash :: y) := by
    cases front <;> rfl
  exact agree_of_pieces hrooted (pieces_append_slash ..) (pieces_append_slash ..) h

theorem Shortens.agree (h : Shortens p q) : Agree p q := by
  cases h with
  | repeated front behind => exact agree_of_behind (by rw [pieces_slash, plainSteps_nil_cons])
  | here front behind =>
    exact agree_of_behind (by rw [pieces_append_slash dot, plainSteps_append]; rfl)
  | lastHere front => exact agree_of_behind rfl
  | trailing hq =>
    have hrooted : isRooted (q ++ [slash]) = isRooted q := by
      obtain ⟨b, r, rfl⟩ := List.exists_cons_of_ne_nil hq
      rfl
    exact agree_of_pieces hrooted (pieces_append_slash q []) (List.append_nil _).symm rfl

theorem agree_of_reached (h : Relation.ReflTransGen Shortens p n) : Agree p n := by
  induction h with
  | refl => exact ⟨rfl, rfl, rfl⟩
  | tail _ hstep ih =>
    have hnext := hstep.agree
    exact ⟨ih.rooted.trans hnext.rooted, ih.first.trans hnext.first, ih.plain.trans hnext.plain⟩

end Agree

section Ends

theorem Shortens.length_lt (h : Shortens p q) : q.length < p.length := by
  cases h <;> simp [dot]

theorem wellFounded_shortens : WellFounded fun q p => Shortens p q :=
  Subrelation.wf Shortens.length_lt (measure List.length).wf

theorem exists_isNormalForm (p : Bytes) : ∃ n, IsNormalForm p n := by
  induction p using wellFounded_shortens.induction with
  | _ p ih =>
    by_cases h : IsShortest p
    · exact ⟨p, .refl, h⟩
    · obtain ⟨q, hq⟩ := Classical.not_forall_not.1 h
      obtain ⟨n, hn⟩ := ih q hq
      exact ⟨n, .head hq hn.reached, hn.shortest⟩

theorem eq_or_exists_of_pieces {s : Bytes} (h : pieces p = s :: ps) :
    p = s ∨ ∃ behind, p = s ++ slash :: behind := by
  have hp := intercalate_pieces p
  rw [h] at hp
  cases ps with
  | nil => exact .inl (by simpa using hp.symm)
  | cons t ps => exact .inr ⟨[slash].intercalate (t :: ps), by simpa using hp.symm⟩

-- Every piece but the first stands behind a slash, and in front of one or at the end.
theorem exists_of_mem_tail {s : Bytes} (h : s ∈ (pieces p).tail) :
    ∃ front, p = front ++ slash :: s ∨ ∃ behind, p = front ++ slash :: (s ++ slash :: behind) := by
  induction p with
  | nil => cases h
  | cons b r ih =>
    obtain ⟨t, ps, hr⟩ := exists_pieces r
    have later (hs : s ∈ ps) : ∃ front, b :: r = front ++ slash :: s ∨
        ∃ behind, b :: r = front ++ slash :: (s ++ slash :: behind) := by
      obtain ⟨front, hfront⟩ := ih (by rwa [hr])
      refine ⟨b :: front, hfront.imp (congrArg (b :: ·)) ?_⟩
      rintro ⟨behind, hbehind⟩
      exact ⟨behind, congrArg (b :: ·) hbehind⟩
    by_cases hb : b = slash
    · subst hb
      rw [pieces_slash, hr] at h
      rcases List.mem_cons.1 h with rfl | hs
      · rcases eq_or_exists_of_pieces hr with rfl | ⟨behind, rfl⟩
        · exact ⟨[], .inl rfl⟩
        · exact ⟨[], .inr ⟨behind, rfl⟩⟩
      · exact later hs
    · simp only [pieces, if_neg hb, hr] at h
      exact later h

-- A piece that is no step could be left out.
theorem IsShortest.of_mem_tail (h : IsShortest p) (hp : p ≠ [slash]) {s : Bytes}
    (hs : s ∈ (pieces p).tail) : s ≠ [] ∧ s ≠ dot := by
  obtain ⟨front, rfl | ⟨behind, rfl⟩⟩ := exists_of_mem_tail hs
  · constructor
    · rintro rfl
      have hfront : front ≠ [] := by
        rintro rfl
        exact hp rfl
      exact h _ (.trailing hfront)
    · rintro rfl
      exact h _ (.lastHere front)
  · constructor
    · rintro rfl
      exact h _ (.repeated front behind)
    · rintro rfl
      exact h _ (.here front behind)

-- The spelling that takes these steps without a byte too many.
def spell (rooted : Bool) (steps : List Bytes) : Bytes :=
  (if rooted then [slash] else []) ++ [slash].intercalate steps

theorem IsShortest.eq_spell (h : IsShortest p) : p = spell (isRooted p) (steps p) := by
  by_cases hp : p = [slash]
  · subst hp
    rfl
  have htail := fun s => h.of_mem_tail hp (s := s)
  cases p with
  | nil => rfl
  | cons b r =>
    by_cases hb : b = slash
    · subst hb
      have hplain : plainSteps (pieces r) = pieces r := by
        apply plainSteps_of_forall
        rwa [pieces_slash] at htail
      have hsteps : steps (slash :: r) = pieces r := by
        rw [steps_eq, pieces_slash, plainSteps_nil_cons, hplain]
        rfl
      have hrooted : isRooted (slash :: r) = true := rfl
      rw [hsteps, hrooted, spell, intercalate_pieces]
      rfl
    · obtain ⟨s, ps, hr⟩ := exists_pieces r
      have hpieces : pieces (b :: r) = (b :: s) :: ps := by simp only [pieces, if_neg hb, hr]
      have hsteps : steps (b :: r) = pieces (b :: r) := by
        rw [hpieces] at htail ⊢
        exact steps_of_plain hpieces (List.cons_ne_nil b s) htail
      have hrooted : isRooted (b :: r) = false := by simp [isRooted, hb]
      rw [hsteps, hrooted, spell, intercalate_pieces]
      rfl

theorem IsNormalForm.eq_spell (h : IsNormalForm p n) : n = spell (isRooted p) (steps p) := by
  have hagree := agree_of_reached h.reached
  rw [hagree.rooted, hagree.steps_eq]
  exact h.shortest.eq_spell

-- In whatever order a path is spelled shorter, it comes to an end, and always to the same one.
theorem existsUnique_isNormalForm (p : Bytes) : ∃! n, IsNormalForm p n := by
  obtain ⟨n, hn⟩ := exists_isNormalForm p
  exact ⟨n, hn, fun m hm => hm.eq_spell.trans hn.eq_spell.symm⟩

theorem same_iff_exists_isNormalForm :
    same p q = true ↔ ∃ n, IsNormalForm p n ∧ IsNormalForm q n := by
  rw [same, decide_eq_true_iff]
  constructor
  · rintro ⟨hrooted, hsteps⟩
    obtain ⟨m, hm⟩ := exists_isNormalForm p
    obtain ⟨n, hn⟩ := exists_isNormalForm q
    have hmn : m = n := by rw [hm.eq_spell, hn.eq_spell, hrooted, hsteps]
    exact ⟨m, hm, hmn ▸ hn⟩
  · rintro ⟨n, hp, hq⟩
    have hpn := agree_of_reached hp.reached
    have hqn := agree_of_reached hq.reached
    exact ⟨hpn.rooted.trans hqn.rooted.symm, hpn.steps_eq.trans hqn.steps_eq.symm⟩

end Ends

end Path

namespace Config

open Roster.Path

theorem same_eq_true_iff {a b : Config} :
    a.same b = true ↔
      a.backend = b.backend ∧ ∃ n, IsNormalForm a.basePath n ∧ IsNormalForm b.basePath n := by
  rw [same, decide_eq_true_iff, same_iff_exists_isNormalForm]

theorem equivalence_same : Equivalence fun a b : Config => a.same b = true where
  refl a := by simp [same, Path.same]
  symm := by
    intro a b h
    obtain ⟨hk, n, ha, hb⟩ := same_eq_true_iff.1 h
    exact same_eq_true_iff.2 ⟨hk.symm, n, hb, ha⟩
  trans := by
    intro a b c h h'
    obtain ⟨hk, m, ha, hb⟩ := same_eq_true_iff.1 h
    obtain ⟨hk', n, hb', hc⟩ := same_eq_true_iff.1 h'
    have hmn : m = n := (existsUnique_isNormalForm b.basePath).unique hb hb'
    exact same_eq_true_iff.2 ⟨hk.trans hk', m, ha, hmn ▸ hc⟩

-- Spelling shorter takes away no name, `..` among them, and no dot that a path begins with.
theorem same_iff_normalForm :
    (WellFounded fun q p => Shortens p q) ∧
      (∀ p, ∃! n, IsNormalForm p n) ∧
      (∀ p n, IsNormalForm p n → Agree p n) ∧
      (∀ a b : Config, a.same b = true ↔
        a.backend = b.backend ∧ ∃ n, IsNormalForm a.basePath n ∧ IsNormalForm b.basePath n) ∧
      Equivalence fun a b : Config => a.same b = true := by
  refine ⟨wellFounded_shortens, existsUnique_isNormalForm, ?_, ?_, equivalence_same⟩
  · intro p n h
    exact agree_of_reached h.reached
  · intro a b
    exact same_eq_true_iff

end Config
end Roster
