import Mathlib.Data.List.Basic
import Schemata.Proofs.Text.Words
import Schemata.Yaml.Block

/-!
# Block documents between fences

A block document stands between two fences of a page. Only a line of it that closes a fence can end
it before its end, and every line begins with a mark of the notation, with a scalar that has no such
beginning, or with a margin, except for the lines of a literal string: they are the lines of the
string behind a margin. So a document is whole if no line of its literal strings closes a fence.
-/

namespace Schemata

/-- At most three blanks, three backticks or more, and then only white space. -/
def closesFence (line : List Char) : Bool :=
  let inner := line.dropWhile (· = ' ')
  line.length ≤ inner.length + 3 && ['\x60', '\x60', '\x60'].isPrefixOf inner &&
    (inner.dropWhile (· = '\x60')).all isBlank

section Fences

variable {c : Char} {line rest : List Char}

theorem exists_dropWhile_append {p : Char → Bool} (hc : p c = false) (as : List Char) :
    ∃ bs, ∀ rest, (as ++ c :: rest).dropWhile p = bs ++ c :: rest := by
  induction as with
  | nil => exact ⟨[], fun rest => by simp [hc]⟩
  | cons a as ih =>
    obtain ⟨bs, hbs⟩ := ih
    by_cases ha : p a
    · exact ⟨bs, fun rest => by simpa [ha] using hbs rest⟩
    · exact ⟨a :: as, fun rest => by simp [ha]⟩

theorem isPrefixOf_ticks (htick : c ≠ '\x60') (line rest : List Char) :
    ['\x60', '\x60', '\x60'].isPrefixOf (line ++ c :: rest) =
      ['\x60', '\x60', '\x60'].isPrefixOf (line ++ [c]) := by
  match line with
  | [] | [_] | [_, _] => simp [List.isPrefixOf, Ne.symm htick]
  | _ :: _ :: _ :: _ => simp [List.isPrefixOf]

theorem closesFence_append (hspace : c ≠ ' ') (htick : c ≠ '\x60') (line rest : List Char) :
    closesFence (line ++ c :: rest) = (closesFence (line ++ [c]) && rest.all isBlank) := by
  obtain ⟨inner, hinner⟩ := exists_dropWhile_append (p := (· = ' ')) (by simpa using hspace) line
  obtain ⟨tail, htail⟩ := exists_dropWhile_append (p := (· = '\x60')) (by simpa using htick) inner
  have hlength : (line ++ c :: rest).length ≤ (inner ++ c :: rest).length + 3 ↔
      (line ++ [c]).length ≤ (inner ++ [c]).length + 3 := by
    simp only [List.length_append, List.length_cons, List.length_nil]
    omega
  simp only [closesFence, hinner, htail, isPrefixOf_ticks htick inner rest, hlength]
  simp [Bool.and_assoc]

theorem closesFence_cons (hspace : c ≠ ' ') (htick : c ≠ '\x60') (rest : List Char) :
    closesFence (c :: rest) = false := by
  have hinner : (c :: rest).dropWhile (· = ' ') = c :: rest := by
    rw [List.dropWhile_cons, if_neg (by simpa using hspace)]
  simp [closesFence, hinner, Ne.symm htick]

theorem closesFence_of_margin {n : Nat} (h : closesFence (List.replicate n ' ' ++ line)) :
    closesFence line := by
  have hinner : (List.replicate n ' ' ++ line).dropWhile (· = ' ') = line.dropWhile (· = ' ') := by
    simp
  simp only [closesFence, hinner, List.length_append, List.length_replicate, Bool.and_eq_true,
    decide_eq_true_eq] at h ⊢
  exact ⟨⟨by omega, h.1.2⟩, h.2⟩

end Fences

/-- Whole lines, none of which closes a fence. -/
def Intact (text : List Char) : Prop :=
  ∃ rows : List (List Char), text = rows.flatMap (· ++ ['\n']) ∧
    ∀ row ∈ rows, '\n' ∉ row ∧ closesFence row = false

/-- A character that stands neither at the end of a line nor before or in a fence. -/
def isFirm (c : Char) : Bool := c ≠ ' ' && c ≠ '\x60' && c ≠ '\n'

/-- One line that begins firmly. -/
def FirmLine (text : List Char) : Prop :=
  ∃ c row, isFirm c ∧ '\n' ∉ row ∧ text = c :: row ++ ['\n']

/-- Whole lines that close no fence behind a margin either, since the first begins firmly. -/
def Firm (text : List Char) : Prop :=
  ∃ c row below, isFirm c ∧ '\n' ∉ row ∧ Intact below ∧ text = c :: row ++ '\n' :: below

section Texts

variable {c : Char} {row text below : List Char}

theorem isFirm_iff : isFirm c ↔ c ≠ ' ' ∧ c ≠ '\x60' ∧ c ≠ '\n' := by
  simp [isFirm, and_assoc]

theorem Intact.nil : Intact [] := ⟨[], rfl, by simp⟩

theorem Intact.cons (hrow : '\n' ∉ row) (hfence : closesFence row = false) (h : Intact below) :
    Intact (row ++ '\n' :: below) := by
  obtain ⟨rows, rfl, hrows⟩ := h
  exact ⟨row :: rows, by simp, List.forall_mem_cons.2 ⟨⟨hrow, hfence⟩, hrows⟩⟩

theorem Intact.append (ha : Intact text) (hb : Intact below) : Intact (text ++ below) := by
  obtain ⟨rows, rfl, hrows⟩ := ha
  obtain ⟨rows', rfl, hrows'⟩ := hb
  exact ⟨rows ++ rows', by simp, List.forall_mem_append.2 ⟨hrows, hrows'⟩⟩

theorem FirmLine.mk (c : Char) (row : List Char) (hc : isFirm c) (hrow : '\n' ∉ row) :
    FirmLine (c :: row ++ ['\n']) :=
  ⟨c, row, hc, hrow, rfl⟩

theorem FirmLine.firm (h : FirmLine text) : Firm text := by
  obtain ⟨c, row, hc, hrow, rfl⟩ := h
  exact ⟨c, row, [], hc, hrow, .nil, rfl⟩

theorem Firm.behind (h : Firm text) (n : Nat) : Intact (List.replicate n ' ' ++ text) := by
  obtain ⟨c, row, below, hc, hrow, hbelow, rfl⟩ := h
  obtain ⟨hspace, htick, hfeed⟩ := isFirm_iff.1 hc
  rw [← List.append_assoc]
  apply Intact.cons ?_ ?_ hbelow
  · simp [hrow, Ne.symm hfeed]
  · by_cases hclose : closesFence (List.replicate n ' ' ++ c :: row)
    · have hrest := closesFence_of_margin hclose
      rw [closesFence_cons hspace htick] at hrest
      cases hrest
    · simpa using hclose

theorem Firm.intact (h : Firm text) : Intact text := h.behind 0

theorem Firm.lines_ne_nil {ls : List (List Char)} (h : Firm ls.flatten) : ls ≠ [] := by
  rintro rfl
  obtain ⟨c, row, below, -, -, -, hnil⟩ := h
  exact List.append_ne_nil_of_left_ne_nil (List.cons_ne_nil c row) _ hnil.symm

theorem Firm.append (ha : Firm text) (hb : Intact below) : Firm (text ++ below) := by
  obtain ⟨c, row, rest, hc, hrow, hrest, rfl⟩ := ha
  exact ⟨c, row, rest ++ below, hc, hrow, hrest.append hb, by simp⟩

theorem Firm.lead {before : List Char} (hc : isFirm c) (hbefore : '\n' ∉ before) (h : Firm text) :
    Firm (c :: before ++ text) := by
  obtain ⟨d, row, below, hd, hrow, hbelow, rfl⟩ := h
  refine ⟨c, before ++ d :: row, below, hc, ?_, hbelow, by simp⟩
  simp [hbefore, hrow, Ne.symm (isFirm_iff.1 hd).2.2]

end Texts

end Schemata
