import Schemata.Proofs.Text.Bytes
import Schemata.Proofs.Text.Lines

/-!
# Summaries

A text has one list of words, whatever white space stands between them, and its summary depends on
them alone. A summary is cut at the byte where the first character beyond the limit begins, so that
no character is cut.
-/

namespace Schemata

/-- The words of a text: white space goes, and a word ends where white space or nothing follows. -/
inductive Splits : List Char → List (List Char) → Prop where
  | nil : Splits [] []
  | blank {c : Char} {cs : List Char} {ws : List (List Char)} (hc : isBlank c) (h : Splits cs ws) :
    Splits (c :: cs) ws
  | word {w cs : List Char} {ws : List (List Char)} (hne : w ≠ [])
    (hw : ∀ c ∈ w, isBlank c = false) (hend : ∀ c ∈ cs.head?, isBlank c) (h : Splits cs ws) :
    Splits (w ++ cs) (w :: ws)

/-- The byte at which a character begins, by the number of the character. -/
def byteOf? : List Char → Nat → Option Nat
  | [], _ => none
  | _ :: _, 0 => some 0
  | c :: cs, n + 1 => (byteOf? cs n).map (c.utf8Size + ·)

variable {line kept rest : String} {cs current w : List Char} {ws : List (List Char)} {limit n : Nat}

theorem words_go_append (hw : ∀ c ∈ w, isBlank c = false) (cs current : List Char) :
    words.go (w ++ cs) current = words.go cs (w.reverse ++ current) := by
  induction w generalizing current with
  | nil => rfl
  | cons c w ih =>
    rw [List.forall_mem_cons] at hw
    rw [List.cons_append, words.go, if_neg (by simp [hw.1]), ih hw.2, List.reverse_cons,
      List.append_assoc, List.singleton_append]

theorem words_go_of_end (hne : current ≠ []) (hend : ∀ c ∈ cs.head?, isBlank c) :
    words.go cs current = current.reverse :: words cs := by
  have hempty : current.isEmpty = false := by simpa using hne
  cases cs with
  | nil => rw [words.go, hempty, words, words.go]; rfl
  | cons c cs =>
    have hc : isBlank c := hend c rfl
    rw [words.go, if_pos hc, hempty, words, words.go, if_pos hc]
    rfl

theorem words_of_splits (h : Splits cs ws) : words cs = ws := by
  induction h with
  | nil => rfl
  | blank hc _ ih => rw [words, words.go, if_pos hc]; exact ih
  | @word w cs ws hne hw hend _ ih =>
    rw [words, words_go_append hw, List.append_nil,
      words_go_of_end (by simpa using hne) hend, List.reverse_reverse, ih]

/-- The words from a place within a word on, of which `current` is read. -/
theorem splits_go (hcurrent : ∀ c ∈ current, isBlank c = false) :
    Splits (current.reverse ++ cs) (words.go cs current) := by
  induction cs generalizing current with
  | nil =>
    rw [words.go]
    split
    · rename_i hempty
      rw [List.isEmpty_iff.1 hempty]
      exact .nil
    · rename_i hempty
      exact .word (by simpa using hempty) (by simpa using hcurrent) (by simp) .nil
  | cons c cs ih =>
    rw [words.go]
    split
    · rename_i hc
      have hrest : Splits (c :: cs) (words.go cs []) := .blank hc (ih (List.forall_mem_nil _))
      split
      · rename_i hempty
        rwa [List.isEmpty_iff.1 hempty]
      · rename_i hempty
        exact .word (by simpa using hempty) (by simpa using hcurrent) (by simpa using hc) hrest
    · rename_i hc
      have hrest := ih (List.forall_mem_cons.2 ⟨by simpa using hc, hcurrent⟩)
      rwa [List.reverse_cons, List.append_assoc] at hrest

/-- Every text has words, and only one list of them. -/
theorem splits_iff : Splits cs ws ↔ words cs = ws := by
  refine ⟨words_of_splits, ?_⟩
  rintro rfl
  exact splits_go (List.forall_mem_nil _)

theorem byteOf?_eq_none : byteOf? cs n = none ↔ cs.length ≤ n := by
  fun_induction byteOf? cs n with
  | case1 => simp
  | case2 => simp
  | case3 c cs n ih => simp [ih]

/-- A character begins behind the bytes of those before it. -/
theorem byteOf?_length (cs : List Char) (c : Char) (rest : List Char) :
    byteOf? (cs ++ c :: rest) cs.length = some (String.ofList cs).utf8ByteSize := by
  induction cs with
  | nil => rfl
  | cons d cs ih =>
    rw [List.cons_append, List.length_cons, byteOf?, ih, Option.map_some, String.ofList_cons,
      String.utf8ByteSize_append, String.utf8ByteSize_singleton]

theorem bytesOf_append (s t : String) : bytesOf (s ++ t) = bytesOf s ++ bytesOf t := by
  rw [bytesOf_eq, bytesOf_eq, bytesOf_eq, String.toList_append, List.flatMap_append]

theorem take_bytesOf_append (s t : String) :
    (bytesOf (s ++ t)).take s.utf8ByteSize = bytesOf s := by
  have hlength : (bytesOf s).length = s.utf8ByteSize := rfl
  rw [bytesOf_append, ← hlength, List.take_left]

/-- What a summary of a text on one line is. -/
structure Summarizes (line : String) (limit : Nat) (text : String) : Prop where
  whole : line.length ≤ limit → text = line
  cut : limit < line.length →
    ∃ kept rest, line = kept ++ rest ∧ kept.length = limit ∧ text = kept ++ "..."
  unbroken : ∀ ends, EndsLines ends → Unbroken ends text
  short : text.length ≤ limit + 3
  uncut : byteOf? line.toList limit = none ↔ line.length ≤ limit
  /-- The cut is where the first character begins that is left out, and so between two characters.
  -/
  bytes : ∀ i, byteOf? line.toList limit = some i → String.Pos.Raw.IsValid line ⟨i⟩ ∧
    bytesOf text = (bytesOf line).take i ++ bytesOf "..."

theorem summarizes_self (hline : BlanksOnly line) (h : line.length ≤ limit) :
    Summarizes line limit line where
  whole _ := rfl
  cut hlong := absurd h (Nat.not_le.2 hlong)
  unbroken _ hends := hline.unbroken hends
  short := Nat.le_add_right_of_le h
  uncut := byteOf?_eq_none
  bytes i hi := by
    rw [byteOf?_eq_none.2 h] at hi
    cases hi

theorem summarizes_cut (hkept : BlanksOnly kept) (hrest : rest ≠ "") :
    Summarizes (kept ++ rest) kept.length (kept ++ "...") where
  whole h := by
    have hlength : 0 < rest.length := Nat.pos_of_ne_zero (mt String.length_eq_zero_iff.1 hrest)
    rw [String.length_append] at h
    omega
  cut _ := ⟨kept, rest, rfl, rfl, rfl⟩
  unbroken _ hends := (hkept.append (by decide)).unbroken hends
  short := (String.length_append _ _).le
  uncut := byteOf?_eq_none
  bytes i hi := by
    obtain ⟨c, cs, hcs⟩ := List.exists_cons_of_ne_nil (mt String.toList_eq_nil_iff.1 hrest)
    rw [String.toList_append, hcs, ← String.length_toList, byteOf?_length,
      String.ofList_toList] at hi
    cases hi
    refine ⟨String.Pos.Raw.isValid_iff_exists_append.2 ⟨kept, rest, rfl, rfl⟩, ?_⟩
    rw [take_bytesOf_append, bytesOf_append]

theorem summarizes_summary (s : String) (limit : Nat) :
    Summarizes (String.ofList (oneLine s)) limit (summary s limit) := by
  have hline : BlanksOnly (String.ofList (oneLine s)) := by
    intro c hc hb
    rw [String.toList_ofList] at hc
    exact eq_blank_of_mem_oneLine hc hb
  rw [summary]
  split
  · rename_i hshort
    exact summarizes_self hline (by rwa [String.length_ofList])
  · rename_i hlong
    rw [Nat.not_le] at hlong
    have hkept : BlanksOnly (String.ofList ((oneLine s).take limit)) := by
      intro c hc
      rw [String.toList_ofList] at hc
      exact hline c (by rw [String.toList_ofList]; exact List.mem_of_mem_take hc)
    have hrest : String.ofList ((oneLine s).drop limit) ≠ "" := by
      rw [Ne, ← String.toList_inj, String.toList_ofList]
      exact fun h => (List.drop_eq_nil_iff.1 h).not_gt hlong
    have hcut := summarizes_cut hkept hrest
    rwa [← String.ofList_append, List.take_append_drop, String.length_ofList,
      List.length_take_of_le hlong.le, ← String.ofList_toList (s := "..."),
      ← String.ofList_append] at hcut

theorem ofList_oneLine_eq (s : String) :
    String.ofList (oneLine s) = " ".intercalate ((words s.toList).map String.ofList) := by
  rw [← String.toList_inj, String.toList_ofList, String.toList_intercalate, List.map_map]
  simp [oneLine, Function.comp_def]

/-- A summary shows the words of a text with single blanks between them: all of the line if it has
no more characters than the limit says, and else as many of them and three points. It has no line
break, no character in it is cut, and texts with the same words have the same summary. -/
theorem summary_of_words (s : String) (limit : Nat) :
    ∃ ws, (∀ ws', Splits s.toList ws' ↔ ws' = ws) ∧
      Summarizes (" ".intercalate (ws.map String.ofList)) limit (summary s limit) ∧
      ∀ t : String, Splits t.toList ws → summary t limit = summary s limit := by
  refine ⟨words s.toList, fun ws' => splits_iff.trans eq_comm, ?_, ?_⟩
  · rw [← ofList_oneLine_eq]
    exact summarizes_summary s limit
  · intro t ht
    have hline : oneLine t = oneLine s := by
      rw [oneLine, oneLine, splits_iff.1 ht]
    rw [summary, summary, hline]

/-- A blank at the cut stays. -/
example : summary "\n ab\u2003é\t" 3 = "ab ..." := by decide +kernel

end Schemata
