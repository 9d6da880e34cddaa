import Roster.Proofs.Run.Usage
import Roster.Proofs.User.RoundTrip

namespace Roster.Run

open CommandLine

theorem carryOut_of_baseConfig {i : Invocation} {w : Surroundings} {base : Config}
    (h : baseConfig i w = .ok base) :
    (carryOut i w).code = 0 ∧
      (carryOut i w).stdout = (perform i.command (.ofConfig (override i base))).1 := by
  rw [carryOut, h]
  exact ⟨rfl, rfl⟩

-- The user that was just saved is found again.
theorem perform_demo_memory (u : User) {c : Config} (hc : c.backend = .memory) :
    (perform (.demo u) (.ofConfig c)).1 = u.toJson ++ "\n" := by
  simp only [Storage.ofConfig, hc, perform, Storage.save, Storage.load, Memory.load_save_self]
  rfl

theorem perform_demo_file (u : User) {c : Config} (hc : c.backend = .file) :
    (perform (.demo u) (.ofConfig c)).1 = "absent\n" := by
  simp only [Storage.ofConfig, hc, perform, Storage.save, Storage.load]
  rfl

theorem demo_prints {args : List Bytes} {w : Surroundings} {i : Invocation} {u : User}
    {base : Config} (hparse : parse args = .ok i) (hdemo : i.command = .demo u)
    (hbase : baseConfig i w = .ok base) :
    (∃ front behind tail,
      args = written front ++ Subcommand.demo.word :: (written behind ++ tail) ∧
      (tail = [] ∨ tail = [dashes]) ∧ IsUser u behind ∧
      Overrides front behind base (override i base)) ∧
    (run args w).code = 0 ∧
    ((override i base).backend = .memory → ∃ line, (run args w).stdout = line ++ "\n" ∧
      (∀ c ∈ line.toList, 0x20 ≤ c.toNat) ∧ User.ofJson line = .ok u) ∧
    ((override i base).backend = .file → (run args w).stdout = "absent\n") := by
  obtain ⟨hcode, hout⟩ := carryOut_of_baseConfig hbase
  rw [hdemo] at hout
  rw [run_eq_carryOut hparse w]
  refine ⟨?_, hcode, ?_, ?_⟩
  · obtain ⟨front, c, behind, tail, hargs, htail, hacc, hmeans⟩ := exists_accepted_of_parse hparse
    cases c with
    | demo =>
      obtain ⟨v, hv, huser⟩ := hmeans.demo rfl
      obtain rfl : u = v := Command.demo.inj (hdemo.symm.trans hv)
      exact ⟨front, behind, tail, hargs, htail, huser, overrides_of_means hacc hmeans base⟩
    | info =>
      rw [hmeans.info rfl] at hdemo
      cases hdemo
  · intro hmemory
    refine ⟨u.toJson, ?_, fun c => User.not_control_of_mem_toJson, User.ofJson_toJson u⟩
    rw [hout, perform_demo_memory u hmemory]
  · intro hfile
    rw [hout, perform_demo_file u hfile]

-- An email that needs escapes, and no name at all.
def quotedEmail : List Choice :=
  [.attached .email (Bytes.ofString "\"a\\\n"), .separate .name [] nofun]

theorem accepted_quotedEmail : Accepted [] .demo quotedEmail where
  front_global := nofun
  behind_known := fun _ _ => .inr rfl
  front_once := fun _ => Nat.zero_le 1
  behind_once := by rintro (_ | _) <;> decide
  required := fun _ => ⟨List.cons_ne_nil _ _, List.cons_ne_nil _ _⟩
  values := List.forall_mem_cons.2 ⟨⟨_, rfl⟩, List.forall_mem_cons.2 ⟨⟨"", rfl⟩, nofun⟩⟩

theorem demo_prints_quotedEmail : ∃ i,
    parse (written [] ++ Subcommand.demo.word :: written quotedEmail) = .ok i ∧
    i.command = .demo ⟨"", "\"a\\\n", 0⟩ ∧
    ∃ line, (run (written [] ++ Subcommand.demo.word :: written quotedEmail)
        { read := fun _ => .error .notFound }).stdout = line ++ "\n" ∧
      (∀ c ∈ line.toList, 0x20 ≤ c.toNat) ∧ User.ofJson line = .ok ⟨"", "\"a\\\n", 0⟩ := by
  obtain ⟨i, hi, hmeans⟩ := exists_parse_of_accepted accepted_quotedEmail
  obtain ⟨⟨name, email, age⟩, hu, hemail, hname, hage⟩ := hmeans.demo rfl
  obtain rfl : "\"a\\\n" = email := Bytes.ofString_injective (List.singleton_inj.1 hemail)
  obtain rfl : "" = name := Bytes.ofString_injective (List.singleton_inj.1 hname)
  have h0 : age = 0 := by
    rcases hage with ⟨-, h0⟩ | ⟨t, ht, -⟩
    · exact h0
    · cases ht
  subst h0
  have hconfig : i.config = none := hmeans.config
  have hbackend : i.backend = none := by
    cases hb : i.backend with
    | none => rfl
    | some k =>
      obtain ⟨t, ht, -⟩ := (hmeans.backend k).1 hb
      cases ht
  have hbase : baseConfig i { read := fun _ => .error .notFound } = .ok {} := by
    rw [baseConfig, hconfig]
    rfl
  have hmemory : (override i {}).backend = .memory := by rw [override, hbackend]; rfl
  exact ⟨i, hi, hu, (demo_prints hi hu hbase).2.2.1 hmemory⟩

end Roster.Run
