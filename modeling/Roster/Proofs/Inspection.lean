import Roster.Config.Environment
import Roster.Proofs.Bytes.Quoted
import Roster.Proofs.Number.Decimal
import Roster.Storage

namespace Roster

theorem Number.eq_of_toString_eq {m n : Nat} (h : toString m = toString n) : m = n := by
  have hdigits : Nat.toDigits 10 m = Nat.toDigits 10 n := String.ofList_injective h
  rw [← ofDecimal_toDigits m, hdigits, ofDecimal_toDigits]

theorem User.eq_of_inspect_eq {u v : User} (h : u.inspect = v.inspect) : u = v := by
  unfold inspect at h
  simp only [String.append_assoc, String.append_right_inj] at h
  obtain ⟨hname, h⟩ := Text.quote_append_inj h
  obtain ⟨hemail, h⟩ := Text.quote_append_inj ((String.append_right_inj _).1 h)
  have hage : u.age = v.age := UInt32.toNat_inj.1 <|
    Number.eq_of_toString_eq ((String.append_left_inj _).1 ((String.append_right_inj _).1 h))
  cases u
  cases v
  cases hname
  cases hemail
  cases hage
  rfl

-- The two kinds begin with different letters.
theorem Backend.inspect_append_inj {k l : Backend} {s t : String}
    (h : k.inspect ++ s = l.inspect ++ t) : k = l ∧ s = t := by
  have hhead := congrArg (fun text : String => text.toList.head?) h
  cases k <;> cases l
  · exact ⟨rfl, (String.append_right_inj _).1 h⟩
  · simp [inspect] at hhead
  · simp [inspect] at hhead
  · exact ⟨rfl, (String.append_right_inj _).1 h⟩

theorem Config.eq_of_inspect_eq {a b : Config} (h : a.inspect = b.inspect) : a = b := by
  unfold inspect at h
  simp only [String.append_assoc, String.append_right_inj] at h
  obtain ⟨hkind, h⟩ := Backend.inspect_append_inj h
  obtain ⟨hpath, -⟩ := Bytes.quote_append_inj ((String.append_right_inj _).1 h)
  cases a
  cases b
  cases hkind
  cases hpath
  rfl

theorem Storage.eq_of_inspectFile_eq {p q : Bytes} (h : inspectFile p = inspectFile q) : p = q := by
  unfold inspectFile at h
  simp only [String.append_assoc, String.append_right_inj] at h
  exact (Bytes.quote_append_inj h).1

namespace Config

-- What is reported of a value that is no text.
def notText (value : Bytes) : StorageError :=
  .config (backendVariable ++ " is not valid UTF-8: " ++ Bytes.quote value)

theorem ofEnvironment_of_text?_eq_none {value : Bytes} (h : Bytes.text? value = none)
    (basePath : Option Bytes) : ofEnvironment ⟨some value, basePath⟩ = .error (notText value) := by
  have hread : readVariable value = .error (notText value) := by
    unfold readVariable
    rw [h]
    rfl
  rw [ofEnvironment, Option.map_some, Option.getD_some, hread]
  rfl

theorem eq_of_message_notText_eq {v w : Bytes} (h : (notText v).message = (notText w).message) :
    v = w := by
  unfold notText StorageError.message at h
  simp only [String.append_right_inj] at h
  have hquoted : Bytes.quote v ++ "" = Bytes.quote w ++ "" := congrArg (· ++ "") h
  exact (Bytes.quote_append_inj hquoted).1

end Config

-- What is in quotes can be told from the words around it, whatever it consists of.
theorem shown_apart :
    (∀ u v : User, u.inspect = v.inspect ↔ u = v) ∧
      (∀ a b : Config, a.inspect = b.inspect ↔ a = b) ∧
      (∀ p q, (Storage.file p).inspect = (Storage.file q).inspect ↔ p = q) ∧
      ∀ v w basePath basePath', Bytes.text? v = none → Bytes.text? w = none →
        ∃ d e, Config.ofEnvironment ⟨some v, basePath⟩ = .error d ∧
          Config.ofEnvironment ⟨some w, basePath'⟩ = .error e ∧
          (d.message = e.message ↔ v = w) := by
  refine ⟨?_, ?_, ?_, ?_⟩
  · intro u v
    exact ⟨User.eq_of_inspect_eq, congrArg User.inspect⟩
  · intro a b
    exact ⟨Config.eq_of_inspect_eq, congrArg Config.inspect⟩
  · intro p q
    exact ⟨Storage.eq_of_inspectFile_eq, congrArg Storage.inspectFile⟩
  · intro v w basePath basePath' hv hw
    refine ⟨_, _, Config.ofEnvironment_of_text?_eq_none hv basePath,
      Config.ofEnvironment_of_text?_eq_none hw basePath', ?_⟩
    exact ⟨Config.eq_of_message_notText_eq, congrArg fun v => (Config.notText v).message⟩

-- Behind a bad byte the four characters that another one is shown by, and that one itself.
theorem shown_apart_spelledSign :
    Bytes.text? [0xFF, 0x5C, 0x78, 0x46, 0x45] = none ∧ Bytes.text? [0xFF, 0xFE] = none ∧
      ∃ d e, Config.ofEnvironment ⟨some [0xFF, 0x5C, 0x78, 0x46, 0x45], none⟩ = .error d ∧
        Config.ofEnvironment ⟨some [0xFF, 0xFE], none⟩ = .error e ∧ d.message ≠ e.message := by
  have hbad (rest : Bytes) : Bytes.text? (0xFF :: rest) = none := by
    rw [Bytes.text?, Bytes.chunks_cons]
    rfl
  obtain ⟨d, e, hd, he, hmessage⟩ := shown_apart.2.2.2 _ _ none none (hbad _) (hbad _)
  exact ⟨hbad _, hbad _, d, e, hd, he, fun h => absurd (hmessage.1 h) (by decide)⟩

end Roster
