import Roster.Proofs.Bytes.Utf8
import Roster.Proofs.CommandLine.Age
import Roster.Proofs.Except
import Roster.CommandLine.Flag

namespace Roster.CommandLine

-- What a flag can be set to.
inductive Value
  | path (p : Bytes)
  | kind (k : Backend)
  | text (t : String)
  | age (a : UInt32)
deriving DecidableEq, Repr

-- What the bytes behind a flag stand for. A path stands for itself, everything else is text.
inductive Reads : Flag → Bytes → Value → Prop
  | config {p : Bytes} : p ≠ [] → Reads .config p (.path p)
  | basePath {p : Bytes} : p ≠ [] → Reads .basePath p (.path p)
  | backend {t : String} {k : Backend} :
    Backend.parse t = .ok k → Reads .backend (Bytes.ofString t) (.kind k)
  | email (t : String) : Reads .email (Bytes.ofString t) (.text t)
  | name (t : String) : Reads .name (Bytes.ofString t) (.text t)
  | age {t : String} {a : UInt32} :
    WritesAge t.toList a → Reads .age (Bytes.ofString t) (.age a)

-- The bytes leave no choice of what they stand for.
theorem Reads.unique {f : Flag} {v : Bytes} {x y : Value} (hx : Reads f v x) (hy : Reads f v y) :
    x = y := by
  cases hx with
  | config hp | basePath hp =>
    cases hy
    rfl
  | @backend t k hk =>
    generalize hv : Bytes.ofString t = v at hy
    cases hy with
    | backend hk' =>
      obtain rfl := Bytes.ofString_injective hv
      rw [Except.ok.inj (hk.symm.trans hk')]
  | email t | name t =>
    generalize hv : Bytes.ofString t = v at hy
    cases hy
    rw [Bytes.ofString_injective hv]
  | @age t a ha =>
    generalize hv : Bytes.ofString t = v at hy
    cases hy with
    | age hb =>
      obtain rfl := Bytes.ofString_injective hv
      have hread := (readAge_eq_ok_iff.2 ha).symm.trans (readAge_eq_ok_iff.2 hb)
      rw [Except.ok.inj hread]

def Settings.value? (s : Settings) : Flag → Option Value
  | .config => s.config.map .path
  | .backend => s.backend.map .kind
  | .basePath => s.basePath.map .path
  | .email => s.email.map .text
  | .name => s.name.map .text
  | .age => s.age.map .age

theorem Settings.has_eq (s : Settings) (f : Flag) : s.has f = (s.value? f).isSome := by
  cases f <;> simp [Settings.has, Settings.value?]

theorem readPath_eq_ok_iff {f : Flag} {v p : Bytes} :
    readPath f v = .ok p ↔ v ≠ [] ∧ p = v := by
  unfold readPath
  split <;> rename_i hv
  · simp [hv]
  · simp [hv, eq_comm]

theorem readText_eq_ok_iff {v : Bytes} {t : String} :
    readText v = .ok t ↔ v = Bytes.ofString t := by
  rw [← Bytes.text?_eq_some_iff, readText]
  cases Bytes.text? v <;> simp

theorem parse_eq_ok_iff {t : String} {k : Backend} :
    Backend.parse t = .ok k ↔ Backend.parse? t = some k := by
  rw [Backend.parse]
  cases Backend.parse? t <;> simp

theorem readBackend_eq_ok_iff {v : Bytes} {k : Backend} :
    readBackend v = .ok k ↔ ∃ t, v = Bytes.ofString t ∧ Backend.parse t = .ok k := by
  refine Except.bind_eq_ok_iff.trans (exists_congr fun t => ?_)
  rw [readText_eq_ok_iff, parse_eq_ok_iff]
  refine and_congr_right fun _ => ?_
  cases Backend.parse? t <;> simp [pure, Except.pure]

theorem readAgeValue_eq_ok_iff {v : Bytes} {a : UInt32} :
    readAgeValue v = .ok a ↔ ∃ t, v = Bytes.ofString t ∧ WritesAge t.toList a := by
  refine Except.bind_eq_ok_iff.trans (exists_congr fun t => ?_)
  rw [readText_eq_ok_iff, ← readAge_eq_ok_iff]
  refine and_congr_right fun _ => ?_
  cases readAge t.toList <;> simp [pure, Except.pure]

-- A flag that is put takes the value that its bytes stand for.
theorem exists_reads_of_put {s s' : Settings} {f : Flag} {v : Bytes} (h : s.put f v = .ok s') :
    ∃ x, Reads f v x ∧ s'.value? f = some x := by
  cases f with
  | config =>
    obtain ⟨p, hp, rfl⟩ := Except.map_eq_ok_iff.1 h
    obtain ⟨hv, rfl⟩ := readPath_eq_ok_iff.1 hp
    exact ⟨_, .config hv, rfl⟩
  | backend =>
    obtain ⟨k, hk, rfl⟩ := Except.map_eq_ok_iff.1 h
    obtain ⟨t, rfl, ht⟩ := readBackend_eq_ok_iff.1 hk
    exact ⟨_, .backend ht, rfl⟩
  | basePath =>
    obtain ⟨p, hp, rfl⟩ := Except.map_eq_ok_iff.1 h
    obtain ⟨hv, rfl⟩ := readPath_eq_ok_iff.1 hp
    exact ⟨_, .basePath hv, rfl⟩
  | email =>
    obtain ⟨t, ht, rfl⟩ := Except.map_eq_ok_iff.1 h
    obtain rfl := readText_eq_ok_iff.1 ht
    exact ⟨_, .email t, rfl⟩
  | name =>
    obtain ⟨t, ht, rfl⟩ := Except.map_eq_ok_iff.1 h
    obtain rfl := readText_eq_ok_iff.1 ht
    exact ⟨_, .name t, rfl⟩
  | age =>
    obtain ⟨a, ha, rfl⟩ := Except.map_eq_ok_iff.1 h
    obtain ⟨t, rfl, ht⟩ := readAgeValue_eq_ok_iff.1 ha
    exact ⟨_, .age ht, rfl⟩

-- The other flags keep theirs.
theorem value?_put_of_ne {s s' : Settings} {f g : Flag} {v : Bytes} (h : s.put f v = .ok s')
    (hg : g ≠ f) : s'.value? g = s.value? g := by
  cases f <;> obtain ⟨x, -, rfl⟩ := Except.map_eq_ok_iff.1 h <;> cases g <;>
    first | rfl | exact absurd rfl hg

theorem exists_put_of_reads {f : Flag} {v : Bytes} {x : Value} (h : Reads f v x) (s : Settings) :
    ∃ s', s.put f v = .ok s' := by
  cases h with
  | config hv | basePath hv =>
    exact ⟨_, Except.map_eq_ok_iff.2 ⟨v, readPath_eq_ok_iff.2 ⟨hv, rfl⟩, rfl⟩⟩
  | backend hk =>
    exact ⟨_, Except.map_eq_ok_iff.2 ⟨_, readBackend_eq_ok_iff.2 ⟨_, rfl, hk⟩, rfl⟩⟩
  | email t | name t => exact ⟨_, Except.map_eq_ok_iff.2 ⟨t, readText_eq_ok_iff.2 rfl, rfl⟩⟩
  | age ha => exact ⟨_, Except.map_eq_ok_iff.2 ⟨_, readAgeValue_eq_ok_iff.2 ⟨_, rfl, ha⟩, rfl⟩⟩

theorem give_eq_ok_iff {s s' : Settings} {f : Flag} {v : Bytes} :
    s.give f (some v) = .ok s' ↔ s.value? f = none ∧ s.put f v = .ok s' := by
  rw [Settings.give, Settings.has_eq]
  cases hf : s.value? f with
  | none => simp
  | some x => simp

end Roster.CommandLine
