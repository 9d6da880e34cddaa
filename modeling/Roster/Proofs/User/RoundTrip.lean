import Roster.Proofs.User.Decode

namespace Roster.User

open Json

-- The parts of a written user.
theorem toList_toJson (u : User) :
    u.toJson.toList = '\x7b' :: (writeString "name" ++ ':' :: (writeString u.name ++ ',' ::
      (writeString "email" ++ ':' :: (writeString u.email ++ ',' ::
        (writeString "age" ++ ':' :: (Nat.toDigits 10 u.age.toNat ++ ['\x7d'])))))) := by
  have hn : "\x7b\"name\":".toList = '\x7b' :: (writeString "name" ++ [':']) := rfl
  have he : ",\"email\":".toList = ',' :: (writeString "email" ++ [':']) := rfl
  have ha : ",\"age\":".toList = ',' :: (writeString "age" ++ [':']) := rfl
  unfold toJson
  rw [String.toList_ofList, hn, he, ha]
  simp only [List.append_assoc, List.cons_append, List.nil_append]

def writtenValue (u : User) : Field → List Char
  | .name => writeString u.name
  | .email => writeString u.email
  | .age => Nat.toDigits 10 u.age.toNat

def writtenMembers (u : User) : List (String × List Char) :=
  Field.all.map fun f => (f.label, u.writtenValue f)

theorem valuesOf_writtenMembers (u : User) (f : Field) :
    valuesOf f.label u.writtenMembers = [u.writtenValue f] := by
  cases f <;> rfl

-- Nothing stands around the colon of a written member.
theorem keyedMember_written (label : String) (v : List Char) :
    KeyedMember (label, v) (writeString label ++ ':' :: v) := by
  obtain ⟨k, hk, hlabel⟩ := stringText_writeString label
  have hm : MemberText k v ('"' :: (k ++ '"' :: ([] ++ ':' :: ([] ++ v)))) := .pair .nil .nil
  refine ⟨k, hk, ?_⟩
  rw [hlabel]
  simpa using hm

theorem userText_toJson (u : User) : UserText u u.toJson.toList := by
  have hms : Items KeyedMember u.writtenMembers
      (writeString "name" ++ ':' :: u.writtenValue .name ++ ',' ::
        (writeString "email" ++ ':' :: u.writtenValue .email ++ ',' ::
          (writeString "age" ++ ':' :: u.writtenValue .age))) := by
    have hage := Items.one .nil (keyedMember_written "age" (u.writtenValue .age)) .nil
    have hemail := Items.cons .nil (keyedMember_written "email" (u.writtenValue .email)) .nil hage
    have hname := Items.cons .nil (keyedMember_written "name" (u.writtenValue .name)) .nil hemail
    simpa [writtenMembers, Field.all, Field.label] using hname
  have hothers : ∀ m ∈ u.writtenMembers, m.1 ∉ ["name", "email", "age"] → ValueText m.2 := by
    intro m hm hne
    obtain ⟨f, -, rfl⟩ := List.mem_map.1 hm
    exact absurd rfl (Field.forall_ne_label_iff.2 hne f)
  have htext := UserText.object .nil hms .nil
    ⟨_, valuesOf_writtenMembers u .name, stringText_writeString u.name⟩
    ⟨_, valuesOf_writtenMembers u .email, stringText_writeString u.email⟩
    (valuesOf_writtenMembers u .age) hothers
  rw [toList_toJson]
  simpa [writtenValue] using htext

theorem ofJson_toJson (u : User) : ofJson u.toJson = .ok u := ofJson_of_userText (userText_toJson u)

-- A user is written on one line.
theorem not_control_of_mem_toJson {u : User} {c : Char} (h : c ∈ u.toJson.toList) :
    0x20 ≤ c.toNat := by
  rw [toList_toJson] at h
  simp only [List.mem_cons, List.mem_append, List.not_mem_nil, or_false] at h
  rcases h with rfl | h | rfl | h | rfl | h | rfl | h | rfl | h | rfl | h | rfl
  case inr.inr.inr.inr.inr.inr.inr.inr.inr.inr.inr.inl => exact not_control_of_mem_toDigits h
  all_goals first | decide | exact not_control_of_mem_writeString h

theorem toJson_roundTrip (u : User) :
    ofJson u.toJson = .ok u ∧ (∀ v : User, v.toJson = u.toJson → v = u) ∧
      (∃ n e, StringText u.name n ∧ StringText u.email e ∧
        u.toJson.toList = "\x7b\"name\":".toList ++ n ++ ",\"email\":".toList ++ e
          ++ ",\"age\":".toList ++ Nat.toDigits 10 u.age.toNat ++ ['\x7d']) ∧
      ∀ c ∈ u.toJson.toList, 0x20 ≤ c.toNat := by
  refine ⟨ofJson_toJson u, fun v hv => ?_, ⟨writeString u.name, writeString u.email,
    stringText_writeString u.name, stringText_writeString u.email, String.toList_ofList⟩,
    fun c => not_control_of_mem_toJson⟩
  have hread := ofJson_toJson v
  rw [hv, ofJson_toJson u] at hread
  exact (Except.ok.inj hread).symm

end Roster.User
