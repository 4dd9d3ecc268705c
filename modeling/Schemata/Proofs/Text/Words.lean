import Mathlib.Data.List.Basic
import Schemata.Text.Title

/-!
# Words, and texts with collapsed white space

The words of a text are what stands between its white space. A text on one line has them with single
blanks between, so that no other white space is left in it. The images of a character in the other
case are never white space, unless the character is.
-/

namespace Schemata

/-- The text with every run of white space replaced by one blank, and none at the ends. -/
def collapsed (s : String) : String :=
  String.ofList ([' '].intercalate ((s.toList.splitOnP isBlank).filter fun w => !w.isEmpty))

section Words

variable {cs w : List Char} {c : Char} {s : String}

theorem words_go_eq (cs current : List Char) : words.go cs current =
    ((cs.splitOnP isBlank).modifyHead (current.reverse ++ ·)).filter fun w => !w.isEmpty := by
  induction cs generalizing current with
  | nil =>
    rw [words.go, List.splitOnP_nil]
    cases current <;> simp
  | cons c cs ih =>
    rw [words.go, List.splitOnP_cons_eq_if_modifyHead]
    by_cases hc : isBlank c
    · rw [if_pos hc, if_pos hc, List.modifyHead_cons, List.append_nil]
      have hnil : words.go cs [] = (cs.splitOnP isBlank).filter fun w => !w.isEmpty := by
        rw [ih []]
        cases cs.splitOnP isBlank <;> rfl
      cases current with
      | nil => simpa using hnil
      | cons d ds => simpa using hnil
    · rw [if_neg hc, if_neg hc, ih, List.modifyHead_modifyHead]
      refine congrArg (List.filter _) (congrArg (List.modifyHead · _) ?_)
      funext w
      simp

/-- A text is cut in one way before the first of a character. -/
theorem cut_inj {x y rest rest' : List Char} (hx : c ∉ x) (hy : c ∉ y)
    (h : x ++ c :: rest = y ++ c :: rest') : x = y ∧ rest = rest' := by
  rcases List.append_eq_append_iff.1 h with ⟨z, rfl, hz⟩ | ⟨z, rfl, hz⟩ <;> cases z with
  | nil => simpa [eq_comm] using hz
  | cons d z =>
    have hd : c = d := (List.cons.inj hz).1
    simp [hd] at hx hy

theorem words_eq (cs : List Char) :
    words cs = (cs.splitOnP isBlank).filter fun w => !w.isEmpty := by
  rw [words, words_go_eq]
  cases cs.splitOnP isBlank <;> rfl

theorem ofList_oneLine (s : String) : String.ofList (oneLine s) = collapsed s := by
  rw [oneLine, words_eq, collapsed]

theorem eq_false_of_mem_piece {p : Char → Bool} (hw : w ∈ cs.splitOnP p) (hc : c ∈ w) :
    p c = false := by
  induction cs generalizing w with
  | nil =>
    rw [List.splitOnP_nil, List.mem_singleton] at hw
    rw [hw] at hc
    cases hc
  | cons d cs ih =>
    rw [List.splitOnP_cons_eq_if_modifyHead] at hw
    by_cases hd : p d
    · rw [if_pos hd] at hw
      rcases List.mem_cons.1 hw with rfl | hw
      · cases hc
      · exact ih hw hc
    · rw [if_neg hd] at hw
      obtain ⟨v, vs, hv⟩ := List.exists_cons_of_ne_nil (List.splitOnP_ne_nil p cs)
      rw [hv, List.modifyHead_cons] at hw
      rw [hv] at ih
      rcases List.mem_cons.1 hw with rfl | hw
      · rcases List.mem_cons.1 hc with rfl | hc
        · simpa using hd
        · exact ih List.mem_cons_self hc
      · exact ih (List.mem_cons_of_mem _ hw) hc

theorem not_isBlank_of_mem_words (hw : w ∈ words cs) (hc : c ∈ w) : isBlank c = false := by
  rw [words_eq] at hw
  exact eq_false_of_mem_piece (List.mem_filter.1 hw).1 hc

theorem mem_intercalate {sep : Char} {ws : List (List Char)} (h : c ∈ [sep].intercalate ws) :
    c = sep ∨ ∃ w ∈ ws, c ∈ w := by
  induction ws with
  | nil => cases h
  | cons w ws ih =>
    cases ws with
    | nil =>
      rw [List.intercalate_singleton] at h
      exact .inr ⟨w, List.mem_cons_self, h⟩
    | cons v ws =>
      rw [List.intercalate_cons_cons, List.mem_append, List.mem_append] at h
      rcases h with (h | h) | h
      · exact .inr ⟨w, List.mem_cons_self, h⟩
      · exact .inl (List.mem_singleton.1 h)
      · rcases ih h with h | ⟨u, hu, h⟩
        · exact .inl h
        · exact .inr ⟨u, List.mem_cons_of_mem _ hu, h⟩

/-- A text on one line has no white space but blanks. -/
theorem eq_blank_of_mem_oneLine (h : c ∈ oneLine s) (hc : isBlank c) : c = ' ' := by
  rcases mem_intercalate h with h | ⟨w, hw, h⟩
  · exact h
  · rw [not_isBlank_of_mem_words hw h] at hc
    cases hc

theorem eq_blank_of_mem_summary {limit : Nat} (h : c ∈ (summary s limit).toList)
    (hc : isBlank c) : c = ' ' := by
  simp only [summary] at h
  split at h
  · rw [String.toList_ofList] at h
    exact eq_blank_of_mem_oneLine h hc
  · rw [String.toList_ofList, List.mem_append] at h
    rcases h with h | h
    · exact eq_blank_of_mem_oneLine (List.mem_of_mem_take h) hc
    · simp only [List.mem_cons, List.not_mem_nil, or_false, or_self] at h
      rw [h] at hc
      cases hc

end Words

theorem isBlank_ofNat {n : Nat} (h : isBlank (Char.ofNat n)) :
    ∃ r ∈ blank, r.1 ≤ n ∧ n ≤ r.2 := by
  by_cases hv : n.isValidChar
  · have hn : (Char.ofNat n).toNat = n := by
      rw [Char.ofNat, dif_pos hv]
      rfl
    obtain ⟨r, hr, hb⟩ := List.any_eq_true.1 h
    rw [hn, Bool.and_eq_true, decide_eq_true_iff, decide_eq_true_iff] at hb
    exact ⟨r, hr, hb⟩
  · rw [Char.ofNat, dif_neg hv] at h
    cases h

theorem caseRuns_apart : ∀ run ∈ upperRuns ++ lowerRuns, ∀ r ∈ blank,
    (run.last + run.shift).toNat < r.1 ∨ r.2 < (run.first + run.shift).toNat := by
  decide +kernel

theorem caseExpansions_apart : ∀ e ∈ upperExpansions ++ lowerExpansions, ∀ n ∈ e.2,
    isBlank (Char.ofNat n) = false := by
  decide

theorem not_isBlank_of_image? {run : CaseRun} (hrun : run ∈ upperRuns ++ lowerRuns) {c n : Nat}
    (h : run.image? c = some n) : isBlank (Char.ofNat n) = false := by
  unfold CaseRun.image? at h
  split at h
  · rename_i hc
    cases h
    by_contra hb
    rw [Bool.not_eq_false] at hb
    obtain ⟨r, hr, hlow, hhigh⟩ := isBlank_ofNat hb
    have := caseRuns_apart run hrun r hr
    omega
  · cases h

theorem eq_of_isBlank_caseImage {runs : List CaseRun} {expansions : List (Nat × List Nat)}
    (hruns : runs ⊆ upperRuns ++ lowerRuns)
    (hexpansions : expansions ⊆ upperExpansions ++ lowerExpansions) {c x : Char}
    (h : x ∈ caseImage runs expansions c) (hx : isBlank x) : x = c := by
  unfold caseImage at h
  split at h
  · rename_i image hi
    obtain ⟨n, hn, rfl⟩ := List.mem_map.1 h
    obtain ⟨before, after, he, -⟩ := List.lookup_eq_some_iff.1 hi
    have hmem : (c.toNat, image) ∈ expansions := by
      rw [he]
      simp
    rw [caseExpansions_apart _ (hexpansions hmem) n hn] at hx
    cases hx
  · split at h
    · rename_i image hi
      obtain ⟨run, hrun, himage⟩ := List.exists_of_findSome?_eq_some hi
      rw [List.mem_singleton.1 h, not_isBlank_of_image? (hruns hrun) himage] at hx
      cases hx
    · exact List.mem_singleton.1 h

theorem eq_of_isBlank_toUpper {c : Char} (hc : c.toNat < 128) (h : isBlank c.toUpper) :
    c.toUpper = c := by
  have ascii : ∀ n < 128, isBlank (Char.ofNat n).toUpper →
      (Char.ofNat n).toUpper = Char.ofNat n := by decide
  have := ascii c.toNat hc
  rw [Char.ofNat_toNat] at this
  exact this h

theorem eq_of_isBlank_toLower {c : Char} (hc : c.toNat < 128) (h : isBlank c.toLower) :
    c.toLower = c := by
  have ascii : ∀ n < 128, isBlank (Char.ofNat n).toLower →
      (Char.ofNat n).toLower = Char.ofNat n := by decide
  have := ascii c.toNat hc
  rw [Char.ofNat_toNat] at this
  exact this h

theorem eq_of_isBlank_upperCase {c x : Char} (h : x ∈ upperCase c) (hx : isBlank x) : x = c := by
  unfold upperCase at h
  split at h
  · rename_i hc
    rw [List.mem_singleton] at h
    rw [h] at hx ⊢
    exact eq_of_isBlank_toUpper hc hx
  · exact eq_of_isBlank_caseImage (List.subset_append_left _ _) (List.subset_append_left _ _) h hx

theorem eq_of_isBlank_lowerCase {c x : Char} (h : x ∈ lowerCase c) (hx : isBlank x) : x = c := by
  unfold lowerCase at h
  split at h
  · rename_i hc
    rw [List.mem_singleton] at h
    rw [h] at hx ⊢
    exact eq_of_isBlank_toLower hc hx
  · exact eq_of_isBlank_caseImage (List.subset_append_right _ _) (List.subset_append_right _ _) h hx

/-- Capitals at the beginning of words add no white space. -/
theorem mem_of_mem_titleChars {x : Char} {inWord : Bool} {cs : List Char}
    (h : x ∈ titleChars inWord cs) (hx : isBlank x) : x ∈ cs := by
  induction cs generalizing inWord with
  | nil => cases h
  | cons c cs ih =>
    rw [titleChars] at h
    split at h
    · rcases List.mem_append.1 h with h | h
      · cases inWord with
        | false => exact List.mem_cons.2 (.inl (eq_of_isBlank_upperCase h hx))
        | true => exact List.mem_cons.2 (.inl (eq_of_isBlank_lowerCase h hx))
      · exact List.mem_cons_of_mem _ (ih h)
    · rcases List.mem_cons.1 h with rfl | h
      · exact List.mem_cons_self
      · exact List.mem_cons_of_mem _ (ih h)

end Schemata
