import Mathlib.Data.List.TakeWhile
import Roster.Proofs.CommandLine.Value
import Roster.CommandLine.Parse

namespace Roster.CommandLine

-- A value that does not look like a flag can be an argument of its own.
def StandsAlone (v : Bytes) : Prop := v.head? = some hyphen → v = [hyphen]

def Flag.argument (f : Flag) : Bytes := hyphen :: hyphen :: Bytes.ofString f.word

-- A flag with its value, in one of the two ways to write it.
inductive Choice
  | attached (f : Flag) (v : Bytes)
  | separate (f : Flag) (v : Bytes) (h : StandsAlone v)

namespace Choice

def flag : Choice → Flag
  | attached f _ | separate f _ _ => f

def value : Choice → Bytes
  | attached _ v | separate _ v _ => v

def arguments : Choice → List Bytes
  | attached f v => [f.argument ++ equalsSign :: v]
  | separate f v _ => [f.argument, v]

end Choice

inductive Subcommand
  | demo
  | info
deriving DecidableEq, Repr

namespace Subcommand

def word : Subcommand → Bytes
  | demo => Bytes.ofString "demo"
  | info => Bytes.ofString "info"

def scope : Subcommand → Scope
  | demo => .demo
  | info => .info

end Subcommand

inductive Item
  | word (c : Subcommand)
  | choice (x : Choice)

namespace Item

def arguments : Item → List Bytes
  | word c => [c.word]
  | choice x => x.arguments

end Item

def written (xs : List Choice) : List Bytes := xs.flatMap Choice.arguments

def arguments (items : List Item) : List Bytes := items.flatMap Item.arguments

-- Two dashes may end a command line; nothing comes behind them.
def dashes : Bytes := [hyphen, hyphen]

theorem arguments_choices (xs : List Choice) : arguments (xs.map .choice) = written xs := by
  rw [arguments, written, List.flatMap_map]
  rfl

theorem word_injective {f g : Flag} (h : f.word = g.word) : f = g := by
  revert h
  cases f <;> cases g <;> decide

theorem equalsSign_not_mem_word (f : Flag) : equalsSign ∉ Bytes.ofString f.word := by
  cases f <;> decide

theorem word_ne_nil (f : Flag) : Bytes.ofString f.word ≠ [] := by
  cases f <;> decide

theorem shape_eq_dashes_iff {a : Bytes} : shape a = .dashes ↔ a = dashes := by
  unfold shape dashes
  split
  · split_ifs <;> simp_all
  · rename_i h
    constructor
    · intro h'
      cases h'
    · rintro rfl
      exact absurd rfl (h hyphen hyphen [])

theorem shape_eq_plain_iff {a : Bytes} : shape a = .plain ↔ StandsAlone a := by
  unfold shape StandsAlone
  split
  · split_ifs <;> simp_all
  · rename_i h
    refine iff_of_true rfl fun ha => ?_
    match a, ha with
    | [b], hb => exact congrArg (fun b => [b]) (Option.some.inj hb)
    | b :: c :: r, _ => exact absurd rfl (h b c r)

theorem mem_word_ne {w : Bytes} (he : equalsSign ∉ w) :
    ∀ b ∈ w, decide (b ≠ equalsSign) = true := by
  intro b hb
  have hne : b ≠ equalsSign := by
    rintro rfl
    exact he hb
  exact decide_eq_true hne

-- The first equals sign of a long argument ends its word.
theorem shape_long {w : Bytes} (hw : w ≠ []) (he : equalsSign ∉ w) :
    shape (hyphen :: hyphen :: w) = .long w none := by
  have hall := mem_word_ne he
  rw [shape, if_pos rfl, if_pos rfl, if_neg hw, List.takeWhile_eq_self_iff.2 hall,
    List.dropWhile_eq_nil_iff.2 hall]
  rfl

theorem shape_long_append {w : Bytes} (he : equalsSign ∉ w) (v : Bytes) :
    shape (hyphen :: hyphen :: (w ++ equalsSign :: v)) = .long w (some v) := by
  have hall := mem_word_ne he
  rw [shape, if_pos rfl, if_pos rfl, if_neg (by simp), List.takeWhile_append_of_pos hall,
    List.dropWhile_append_of_pos hall]
  simp

theorem takeWhile_append_tail (r : Bytes) :
    r.takeWhile (· ≠ equalsSign) ++
      ((r.dropWhile (· ≠ equalsSign)).tail?.map (equalsSign :: ·)).getD [] = r := by
  have hr := List.takeWhile_append_dropWhile (p := fun b => decide (b ≠ equalsSign)) (l := r)
  cases hd : r.dropWhile (fun b => decide (b ≠ equalsSign)) with
  | nil =>
    rw [hd] at hr
    exact hr
  | cons b u =>
    have hne : r.dropWhile (fun b => decide (b ≠ equalsSign)) ≠ [] := by
      rw [hd]
      exact List.cons_ne_nil b u
    have hb := List.head_dropWhile_not (fun b => decide (b ≠ equalsSign)) hne
    simp only [hd, List.head_cons, decide_eq_false_iff_not, not_not] at hb
    rw [hd, hb] at hr
    exact hr

theorem eq_of_shape_eq_long {a w : Bytes} {v : Option Bytes} (h : shape a = .long w v) :
    a = hyphen :: hyphen :: (w ++ (v.map (equalsSign :: ·)).getD []) := by
  unfold shape at h
  split at h
  · split_ifs at h with h1 h2 h3
    subst h1 h2
    cases h
    rw [takeWhile_append_tail]
  · cases h

theorem shape_argument (f : Flag) : shape f.argument = .long (Bytes.ofString f.word) none :=
  shape_long (word_ne_nil f) (equalsSign_not_mem_word f)

theorem shape_attached (f : Flag) (v : Bytes) :
    shape (f.argument ++ equalsSign :: v) = .long (Bytes.ofString f.word) (some v) :=
  shape_long_append (equalsSign_not_mem_word f) v

theorem shape_word (c : Subcommand) : shape c.word = .plain := by
  cases c <;> decide

theorem ofString_word_injective {f g : Flag}
    (h : Bytes.ofString f.word = Bytes.ofString g.word) : f = g :=
  word_injective (Bytes.ofString_injective h)

-- The shape of the first argument of an item tells the items apart.
def Item.firstShape : Item → Shape
  | word _ => .plain
  | choice (.attached f v) => .long (Bytes.ofString f.word) (some v)
  | choice (.separate f _ _) => .long (Bytes.ofString f.word) none

theorem Item.shape_head (x : Item) (r : List Bytes) :
    (x.arguments ++ r).head?.map shape = some x.firstShape := by
  cases x with
  | word c => exact congrArg some (shape_word c)
  | choice y =>
    cases y with
    | attached f v => exact congrArg some (shape_attached f v)
    | separate f v hv => exact congrArg some (shape_argument f)

theorem Item.eq_of_append {x y : Item} {r s : List Bytes}
    (h : x.arguments ++ r = y.arguments ++ s) : x = y ∧ r = s := by
  have hshape : x.firstShape = y.firstShape := by
    rw [← Option.some_inj, ← x.shape_head r, ← y.shape_head s, h]
  match x, y with
  | word c, word d =>
    obtain ⟨hw, hr⟩ := List.cons.inj h
    refine ⟨?_, hr⟩
    cases c <;> cases d <;> first | rfl | exact absurd hw (by decide)
  | choice (.attached f v), choice (.attached g u) =>
    obtain ⟨hf, hv⟩ := Shape.long.inj hshape
    obtain rfl := ofString_word_injective hf
    obtain rfl := Option.some.inj hv
    exact ⟨rfl, (List.cons.inj h).2⟩
  | choice (.separate f v hv), choice (.separate g u hu) =>
    obtain rfl := ofString_word_injective (Shape.long.inj hshape).1
    obtain ⟨rfl, hr⟩ := List.cons.inj (List.cons.inj h).2
    exact ⟨rfl, hr⟩
  | word _, choice (.attached _ _) | word _, choice (.separate _ _ _) => cases hshape
  | choice (.attached _ _), word _ | choice (.separate _ _ _), word _ => cases hshape
  | choice (.attached _ _), choice (.separate _ _ _)
  | choice (.separate _ _ _), choice (.attached _ _) => cases (Shape.long.inj hshape).2

theorem Item.arguments_ne_nil (x : Item) : x.arguments ≠ [] := by
  cases x with
  | word c => exact List.cons_ne_nil _ _
  | choice y => cases y <;> exact List.cons_ne_nil _ _

-- No item looks like the two dashes.
theorem Item.ne_dashes (x : Item) (r tail : List Bytes) (htail : tail = [] ∨ tail = [dashes]) :
    x.arguments ++ r ≠ tail := by
  intro h
  have hx := x.shape_head r
  rw [h] at hx
  rcases htail with rfl | rfl
  · cases hx
  · have hd : shape dashes = x.firstShape := Option.some.inj hx
    rw [shape_eq_dashes_iff.2 rfl] at hd
    match x with
    | word _ | choice (.attached _ _) | choice (.separate _ _ _) => cases hd

-- A flag and its value are one argument or two, and the arguments can be cut back in only one way.
theorem eq_of_arguments_eq_append {xs ys : List Item} {tail : List Bytes}
    (htail : tail = [] ∨ tail = [dashes]) (h : arguments xs = arguments ys ++ tail) :
    xs = ys ∧ tail = [] := by
  induction xs generalizing ys with
  | nil =>
    cases ys with
    | nil => exact ⟨rfl, h.symm⟩
    | cons y ys =>
      have hy := (List.append_eq_nil_iff.1 (List.append_eq_nil_iff.1 h.symm).1).1
      exact absurd hy y.arguments_ne_nil
  | cons x xs ih =>
    cases ys with
    | nil => exact absurd h (x.ne_dashes _ tail htail)
    | cons y ys =>
      have hxy : x.arguments ++ arguments xs = y.arguments ++ (arguments ys ++ tail) := by
        rw [← List.append_assoc]
        exact h
      obtain ⟨rfl, hr⟩ := Item.eq_of_append hxy
      obtain ⟨rfl, ht⟩ := ih hr
      exact ⟨rfl, ht⟩

end Roster.CommandLine
