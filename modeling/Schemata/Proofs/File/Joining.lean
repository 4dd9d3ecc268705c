import Schemata.Proofs.File.Canonical

/-!
# Paths beneath a directory

The steps of a joined path are those of the directory and those of the path beneath it. A file name
is one step, whether it is found at the end of a path or put behind one.
-/

namespace Schemata.FilePath

open Disk

variable {p q : FilePath} {n : String}

/-- What may stand between two slashes and names an entry there. -/
structure IsPiece (s : String) : Prop where
  ne_empty : s ≠ ""
  ne_point : s ≠ "."
  ne_points : s ≠ ".."
  slash_notMem : '/' ∉ s.toList

theorem isPiece_of_fileName? (h : p.fileName? = some n) : IsPiece n := by
  unfold fileName? at h
  split at h
  · rename_i s hl
    cases h
    have hm : PathPart.name n ∈ p.parts := List.mem_of_getLast? hl
    rw [parts_eq, List.mem_append] at hm
    rcases hm with hm | hm
    · rcases lead_cases p.text.toList with hc | hc | hc <;> simp [hc] at hm
    · obtain ⟨q, hq, hn⟩ := List.mem_map.1 hm
      have hb := not_hollow_of_mem_solid hq
      unfold partOf at hn
      split at hn
      · cases hn
      · rename_i hu
        cases hn
        simp only [isHollow, Bool.or_eq_false_iff, decide_eq_false_iff_not] at hb
        refine ⟨?_, ?_, ?_, ?_⟩
        · simpa using hb.1
        · simpa [← String.toList_inj] using hb.2
        · simpa [← String.toList_inj] using hu
        · simpa using not_mem_of_mem_solid hq
  · cases h

theorem stepsOf_piece (h : IsPiece n) : stepsOf n.toList = [n] := by
  rw [stepsOf, List.splitOn_eq_singleton h.slash_notMem, List.filter_cons_of_pos]
  · simp
  · simpa using h.ne_empty

theorem solid_piece (h : IsPiece n) : solid n.toList = [n.toList] := by
  have hn : Solid ([n].map String.toList) :=
    solid_toList (List.forall_mem_singleton.2 ⟨h.ne_empty, h.ne_point, h.slash_notMem⟩)
  rw [solid, List.splitOn_eq_singleton h.slash_notMem]
  exact hn.filter_eq

theorem steps_piece (h : IsPiece n) : steps n = [n] := by
  rw [steps_eq, stepsOf_piece h, List.splitOn_eq_singleton h.slash_notMem, if_neg]
  · rfl
  · simpa using h.ne_empty

theorem not_isAbsolute_piece (h : IsPiece n) : ¬ (FilePath.mk n).isAbsolute := by
  rw [isAbsolute_iff]
  intro hs
  exact h.slash_notMem (List.mem_of_mem_head? (by simp [hs]))

theorem endsWith_slash_iff {text : String} :
    text.endsWith "/" ↔ ∃ above, text.toList = above ++ ['/'] := by
  rw [String.endsWith, String.Slice.endsWith_string_iff, String.copy_toSlice]
  exact exists_congr fun above => eq_comm

theorem exists_join_text (hq : ¬ q.isAbsolute) :
    p.text = "" ∧ p.join q = q ∨ ∃ above, (p.join q).text.toList = above ++ '/' :: q.text.toList ∧
      stepsOf above = stepsOf p.text.toList := by
  rw [join, if_neg hq]
  split
  · rename_i h
    rw [Bool.or_eq_true, decide_eq_true_iff, endsWith_slash_iff] at h
    rcases h with h | ⟨above, h⟩
    · exact .inl ⟨h, by simp [h]⟩
    · refine .inr ⟨above, by simp [h], ?_⟩
      rw [h, stepsOf_append_slash]
      simp [stepsOf]
  · exact .inr ⟨p.text.toList, by simp, rfl⟩

theorem steps_join (hq : ¬ q.isAbsolute) :
    steps (p.join q).text = stepsOf p.text.toList ++ steps q.text := by
  obtain ⟨h, he⟩ | ⟨above, h, he⟩ := exists_join_text hq
  · rw [he, h]
    simp [stepsOf]
  · rw [steps_append_slash h, he, String.ofList_toList]

theorem stepsOf_join (hq : ¬ q.isAbsolute) : stepsOf (p.join q).text.toList =
    stepsOf p.text.toList ++ stepsOf q.text.toList := by
  obtain ⟨h, he⟩ | ⟨above, h, he⟩ := exists_join_text hq
  · rw [he, h]
    simp [stepsOf]
  · rw [h, stepsOf_append_slash, he]

theorem isAbsolute_join (hq : ¬ q.isAbsolute) : (p.join q).isAbsolute = p.isAbsolute := by
  rw [Bool.eq_iff_iff, isAbsolute_iff, isAbsolute_iff, join, if_neg hq]
  rw [isAbsolute_iff] at hq
  by_cases he : p.text = ""
  · simpa [he] using hq
  · obtain ⟨c, cs, hc⟩ : ∃ c cs, p.text.toList = c :: cs :=
      List.exists_cons_of_ne_nil (by simpa using he)
    split <;> simp [hc]

theorem start_join {d : Disk} (hq : ¬ q.isAbsolute) : d.start (p.join q) = d.start p := by
  rw [Disk.start, Disk.start, isAbsolute_join hq]

end Schemata.FilePath
