import Mathlib
import Roster.Proofs.CommandLine.BadAge
import Roster.Proofs.CommandLine.Line
import Roster.Proofs.Run.Demo
import Roster.Proofs.Terminal

namespace Roster.Run

open CommandLine Terminal

variable {s : String} {l l' : Line}

section Report

theorem printable_of_isDigit {c : Char} (h : Number.isDigit c = true) : Printable c := by
  obtain ⟨hlow, hhigh⟩ := Number.isDigit_iff.1 h
  have h0 : '0'.toNat = 48 := rfl
  have h9 : '9'.toNat = 57 := rfl
  exact ⟨by omega, by omega⟩

theorem printable_toDigits (n : Nat) : ∀ c ∈ Nat.toDigits 10 n, Printable c :=
  fun _ hc => printable_of_isDigit (Number.isDigit_of_mem_toDigits hc)

theorem printable_append {t t' : List Char} (h : ∀ c ∈ t, Printable c) (h' : ∀ c ∈ t', Printable c) :
    ∀ c ∈ t ++ t', Printable c := by
  intro c hc
  exact (List.mem_append.1 hc).elim (h c) (h' c)

theorem printable_toString (n : Int) : ∀ c ∈ (toString n).toList, Printable c := by
  cases n with
  | ofNat n =>
    have htext : (toString (Int.ofNat n)).toList = Nat.toDigits 10 n := String.toList_ofList
    rw [htext]
    exact printable_toDigits n
  | negSucc n =>
    have htext : (toString (Int.negSucc n)).toList = ['-'] ++ Nat.toDigits 10 (n + 1) := by
      have hsplit : toString (Int.negSucc n) = "-" ++ Nat.repr (n + 1) := rfl
      rw [hsplit, @String.toList_append "-" (Nat.repr (n + 1)), Nat.repr, String.toList_ofList,
        String.toList_ofList]
    rw [htext]
    exact printable_append (printable_of_all rfl) (printable_toDigits (n + 1))

theorem printable_message (p : AgeProblem) : ∀ c ∈ p.message.toList, Printable c := by
  cases p with
  | empty | badDigit | tooLarge | tooSmall => exact printable_of_all rfl
  | outOfRange n =>
    have hrange : ∀ c ∈ " is not in 0..=4294967295".toList, Printable c :=
      printable_of_all rfl
    rw [AgeProblem.message, @String.toList_append (toString n)]
    exact printable_append (printable_toString n) hrange

theorem plain_hint : plain hint = "\n\nFor more information, try '--help'.\n".toList := by decide

-- What a terminal would take for a control sequence is left out of the value, and nothing else.
theorem plain_badAge (s : String) (p : AgeProblem) (notes : List Char) :
    plain ((UsageError.badAge s p).text notes) =
      "error: ".toList ++ ("invalid value '".toList ++ (plain s.toList ++ ("' for '".toList ++
        ("--age <AGE>".toList ++ ("': ".toList ++ (p.message.toList ++ plain hint)))))) := by
  have htext : (UsageError.badAge s p).text notes =
      "error: ".toList ++ ("invalid value '".toList ++ (s.toList ++ (reset ++ ("' for '".toList ++
        ("--age <AGE>".toList ++ (reset ++ ("': ".toList ++ (p.message.toList ++ hint)))))))) := by
    have hbody : (UsageError.badAge s p).text notes =
        "error: ".toList ++ ("invalid value '".toList ++ (s.toList ++ reset) ++ "' for '".toList ++
          ("--age <AGE>".toList ++ reset) ++ "': ".toList ++ p.message.toList) ++ [] ++ hint := rfl
    rw [hbody]
    simp only [List.append_assoc, List.nil_append]
  have hflag : plain "--age <AGE>".toList = "--age <AGE>".toList :=
    plain_printable (printable_of_all rfl)
  rw [htext, plain_printable_append (printable_of_all rfl),
    plain_printable_append (printable_of_all rfl), plain_reset_append,
    plain_printable_append (printable_of_all rfl), plain_reset_append, hflag,
    plain_printable_append (printable_of_all rfl), plain_printable_append (printable_message p)]

theorem report_badAge (s : String) (p : AgeProblem) (notes : List Char) :
    (UsageError.badAge s p).report notes =
      "error: invalid value '" ++ String.ofList (plain s.toList) ++ "' for '--age <AGE>': " ++
        p.message ++ "\n\nFor more information, try '--help'.\n" := by
  have hfront : "error: invalid value '" = "error: " ++ "invalid value '" := by decide
  have hmiddle : "' for '--age <AGE>': " = "' for '" ++ ("--age <AGE>" ++ "': ") := by decide
  rw [UsageError.report, plain_badAge, plain_hint, hfront, hmiddle]
  simp only [String.ofList_append, String.ofList_toList, String.append_assoc]

end Report

section Flag

theorem writesAge_unique {t : List Char} {a b : UInt32} (ha : WritesAge t a) (hb : WritesAge t b) :
    a = b := by
  rw [← readAge_eq_ok_iff] at ha hb
  exact Except.ok.inj (ha.symm.trans hb)

-- A flag for the age stands behind a demo, and is the only one there.
theorem demo_of_takes_age {v : Bytes} (hx : l.Takes (.attached .age v) l') :
    l'.command = .demo ∧ given .age l'.behind = [v] := by
  cases hx with
  | front hglobal hnew => cases hglobal
  | behind hknown hnew =>
    rcases hknown with hglobal | hdemo
    · cases hglobal
    · exact ⟨hdemo, given_insert_self hnew⟩

theorem exists_parse_age {age : UInt32} (h : l.IsAccepted)
    (hx : l.Takes (.attached .age (Bytes.ofString s)) l') (hage : WritesAge s.toList age) :
    ∃ i u, parse l'.arguments = .ok i ∧ i.command = .demo u ∧ u.age = age := by
  obtain ⟨hdemo, hgiven⟩ := demo_of_takes_age hx
  obtain ⟨i, hi, hmeans⟩ := exists_parse_of_takes h hx ⟨s, age, rfl, hage⟩
  obtain ⟨u, hu, -, -, hset⟩ := hmeans.demo hdemo
  refine ⟨i, u, hi, hu, ?_⟩
  rw [hgiven] at hset
  rcases hset with ⟨hnone, -⟩ | ⟨t, ht, hwrites⟩
  · cases hnone
  · obtain rfl := Bytes.ofString_injective (List.singleton_inj.1 ht)
    exact writesAge_unique hwrites hage

theorem put_age_of_error {p : AgeProblem} (hp : readAge s.toList = .error p) (settings : Settings) :
    settings.put .age (Bytes.ofString s) = .error (.badAge s p) := by
  have hread : readAgeValue (Bytes.ofString s) = .error (.badAge s p) := by
    rw [readAgeValue, readText, Bytes.text?_ofString]
    simp only [bind, Except.bind, hp]
  rw [Settings.put, hread]
  rfl

theorem exists_error_of_not_writesAge {t : List Char} (h : ∀ age, ¬WritesAge t age) :
    ∃ p, readAge t = .error p := by
  cases hread : readAge t with
  | error p => exact ⟨p, rfl⟩
  | ok age => exact absurd (readAge_eq_ok_iff.1 hread) (h age)

theorem run_age (h : l.IsAccepted) (hx : l.Takes (.attached .age (Bytes.ofString s)) l')
    (w : Surroundings) :
    (∀ age, WritesAge s.toList age → ∃ i u,
      parse l'.arguments = .ok i ∧ i.command = .demo u ∧ u.age = age ∧
      run l'.arguments w = carryOut i w ∧ (run l'.arguments w).code ≠ 2 ∧
      ∀ base, baseConfig i w = .ok base → (override i base).backend = .memory →
        (run l'.arguments w).stdout = u.toJson ++ "\n") ∧
    ((∀ age, ¬WritesAge s.toList age) → ∃ reason, AgeRefused s.toList reason) ∧
    ∀ reason, AgeRefused s.toList reason →
      run l'.arguments w = ⟨2, "", "error: invalid value '" ++ String.ofList (plain s.toList) ++
        "' for '--age <AGE>': " ++ reason ++ "\n\nFor more information, try '--help'.\n"⟩ := by
  refine ⟨fun age hage => ?_, fun hno => ?_, fun reason hreason => ?_⟩
  · obtain ⟨i, u, hi, hu, huser⟩ := exists_parse_age h hx hage
    have hrun := run_eq_carryOut hi w
    refine ⟨i, u, hi, hu, huser, hrun, ?_, fun base hbase hmemory => ?_⟩
    · rw [hrun]
      exact carryOut_code_ne_two i w
    · rw [hrun, (carryOut_of_baseConfig hbase).2, hu, perform_demo_memory u hmemory]
  · obtain ⟨p, hp⟩ := exists_error_of_not_writesAge hno
    exact ⟨p.message, refused_of_readAge hp⟩
  · obtain ⟨p, hp, rfl⟩ := exists_readAge_of_refused hreason
    have hparse := parse_of_takes_refused h hx (put_age_of_error hp)
    rw [run, hparse]
    simp only [interrupted, report_badAge]

theorem standsAlone_nil : StandsAlone [] := by
  intro h
  cases h

-- A user without an age, and the same line with one.
def ageless : Line :=
  ⟨[], .demo, [.attached .email [], .separate .name [] standsAlone_nil], true⟩

def aged (s : String) : Line :=
  ⟨[], .demo, [.attached .email [], .attached .age (Bytes.ofString s),
    .separate .name [] standsAlone_nil], true⟩

theorem isAccepted_ageless : ageless.IsAccepted where
  front_global := nofun
  behind_known := fun _ _ => .inr rfl
  front_once := fun _ => Nat.zero_le 1
  behind_once := by rintro (_ | _) <;> decide
  required := fun _ => ⟨List.cons_ne_nil _ _, List.cons_ne_nil _ _⟩
  values := List.forall_mem_cons.2 ⟨⟨"", rfl⟩, List.forall_mem_cons.2 ⟨⟨"", rfl⟩, nofun⟩⟩

theorem takes_aged (s : String) : ageless.Takes (.attached .age (Bytes.ofString s)) (aged s) :=
  @Line.Takes.behind _ [] [.attached .email []] [.separate .name [] standsAlone_nil] .demo true
    (.inr rfl) rfl

-- Minus zero is zero. In the other text the number is one too large for 64 bits, so the letter behind it
-- does not matter.
theorem run_age_bounds :
    (∃ i u, parse (aged "-0").arguments = .ok i ∧ i.command = .demo u ∧ u.age = 0) ∧
    run (aged "+009223372036854775808x").arguments { read := fun _ => .error .notFound } =
      ⟨2, "", "error: invalid value '+009223372036854775808x' for '--age <AGE>': " ++
        "number too large to fit in target type" ++
          "\n\nFor more information, try '--help'.\n"⟩ := by
  let w : Surroundings := { read := fun _ => .error .notFound }
  constructor
  · have hzero : WritesAge "-0".toList 0 := readAge_eq_ok_iff.1 (by decide)
    obtain ⟨i, u, hi, hu, hage, -⟩ :=
      (run_age isAccepted_ageless (takes_aged "-0") w).1 0 hzero
    exact ⟨i, u, hi, hu, hage⟩
  · have hlarge : AgeRefused "+009223372036854775808x".toList
        "number too large to fit in target type" :=
      ageRefused_iff.2 ⟨.tooLarge, by decide, rfl⟩
    have hplain : plain "+009223372036854775808x".toList = "+009223372036854775808x".toList :=
      plain_printable (printable_of_all rfl)
    have hrun := (run_age isAccepted_ageless (takes_aged "+009223372036854775808x") w).2.2 _ hlarge
    have hfront : "error: invalid value '" ++ "+009223372036854775808x" ++ "' for '--age <AGE>': " =
        "error: invalid value '+009223372036854775808x' for '--age <AGE>': " := by decide
    rw [hrun, hplain, String.ofList_toList, hfront]

end Flag

end Roster.Run
