import Roster.Proofs.Bytes.Utf8
import Roster.Toml.Document

namespace Roster.Toml

open Ordered

variable {es : List (String × Node)} {t : Table}

theorem finishEntries_cons_eq_some_iff {k : String} {n : Node} :
    finishEntries ((k, n) :: es) = some t ↔
      ∃ v, n.finish = some v ∧ ∃ r, finishEntries es = some r ∧ put Prod.fst (k, v) r = t := by
  rw [finishEntries]
  simp [Option.bind_eq_some_iff]

theorem sorted_finishEntries (h : finishEntries es = some t) : Sorted Prod.fst t := by
  induction es generalizing t with
  | nil =>
    cases h
    exact List.Pairwise.nil
  | cons e es ih =>
    obtain ⟨v, -, r, hr, rfl⟩ := finishEntries_cons_eq_some_iff.1 h
    exact sorted_put Prod.fst (e.1, v) (ih hr)

theorem exists_finish_of_mem {e : String × Value} (h : finishEntries es = some t) (he : e ∈ t) :
    ∃ n, Node.finish n = some e.2 := by
  induction es generalizing t with
  | nil =>
    cases h
    cases he
  | cons d es ih =>
    obtain ⟨v, hv, r, hr, rfl⟩ := finishEntries_cons_eq_some_iff.1 h
    rcases mem_put Prod.fst he with rfl | he
    · exact ⟨d.2, hv⟩
    · exact ih hr he

-- A table that is taken for a date-time is none any more.
theorem finishEntries_of_tableValue {d : Draft}
    (h : tableValue d (finishEntries d) = some (.table t)) :
    finishEntries d = some t := by
  unfold tableValue at h
  split at h
  · split at h
    · rename_i n hk
      unfold writtenDateTime at h
      split at h
      · obtain ⟨x, -, hx⟩ := Option.map_eq_some_iff.1 h
        cases hx
      · cases h
    · obtain ⟨u, hu, heq⟩ := Option.map_eq_some_iff.1 h
      cases heq
      exact hu
  · obtain ⟨u, hu, heq⟩ := Option.map_eq_some_iff.1 h
    cases heq
    exact hu

theorem sorted_of_finish {n : Node} (h : n.finish = some (.table t)) : Sorted Prod.fst t := by
  cases n with
  | scalar s =>
    rw [Node.finish] at h
    cases h
  | list items =>
    rw [Node.finish] at h
    obtain ⟨vs, -, hvs⟩ := Option.map_eq_some_iff.1 h
    cases hvs
  | table origin entries =>
    rw [Node.finish] at h
    exact sorted_finishEntries (finishEntries_of_tableValue h)
  | tables done last =>
    rw [Node.finish] at h
    obtain ⟨vs, -, h⟩ := Option.bind_eq_some_iff.1 h
    obtain ⟨v, -, hv⟩ := Option.bind_eq_some_iff.1 h
    cases hv

theorem exists_draft_of_read? {text : String} (h : read? text = some t) :
    ∃ d, finishEntries d = some t := by
  obtain ⟨doc, -, hdoc⟩ := Option.bind_eq_some_iff.1 h
  obtain ⟨d, -, hd⟩ := Option.bind_eq_some_iff.1 hdoc
  exact ⟨d, hd⟩

theorem sorted_read? {text : String} (h : read? text = some t) : Sorted Prod.fst t := by
  obtain ⟨d, hd⟩ := exists_draft_of_read? h
  exact sorted_finishEntries hd

theorem sorted_of_mem_read? {text : String} (h : read? text = some t) {k : String} {u : Table}
    (hu : (k, .table u) ∈ t) : Sorted Prod.fst u := by
  obtain ⟨d, hd⟩ := exists_draft_of_read? h
  obtain ⟨n, hn⟩ := exists_finish_of_mem hd hu
  exact sorted_of_finish hn

end Roster.Toml
