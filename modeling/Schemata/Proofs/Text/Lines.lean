import Schemata.Proofs.Text.Words
import Schemata.Proofs.Tree.Writing

/-!
# Lines

A text is cut into lines at the line feed and at any other white space that a reader may take for
the end of a line, the blank apart. Rows that are written one below the other are its lines just
when none of them has such a character.
-/

namespace Schemata

/-- The characters at which a reader ends a line. -/
structure EndsLines (ends : Char → Bool) : Prop where
  feed : ends '\n'
  white : ∀ c, ends c → isBlank c
  blank : ends ' ' = false

/-- The reader that knows no end of a line but the line feed. -/
def isFeed (c : Char) : Bool := c = '\n'

def linesOf (ends : Char → Bool) (s : String) : List String :=
  (s.toList.splitOnP ends).map String.ofList

def Unbroken (ends : Char → Bool) (s : String) : Prop := ∀ c ∈ s.toList, ends c = false

instance (ends : Char → Bool) (s : String) : Decidable (Unbroken ends s) :=
  List.decidableBAll (fun c => ends c = false) s.toList

def unlines (rows : List String) : String := String.join (rows.map (· ++ "\n"))

def BlanksOnly (s : String) : Prop := ∀ c ∈ s.toList, isBlank c → c = ' '

instance (s : String) : Decidable (BlanksOnly s) :=
  List.decidableBAll (fun c => isBlank c → c = ' ') s.toList

variable {ends : Char → Bool} {a b s : String} {rows : List String}

theorem endsLines_isFeed : EndsLines isFeed where
  feed := rfl
  white c hc := by
    rw [of_decide_eq_true hc]
    rfl
  blank := rfl

theorem unbroken_append : Unbroken ends (a ++ b) ↔ Unbroken ends a ∧ Unbroken ends b := by
  simp only [Unbroken, String.toList_append, List.forall_mem_append]

theorem unlines_cons (a : String) (rows : List String) :
    unlines (a :: rows) = a ++ "\n" ++ unlines rows := by
  rw [unlines, List.map_cons, String.join_cons]
  rfl

theorem unlines_append (rows below : List String) :
    unlines (rows ++ below) = unlines rows ++ unlines below := by
  rw [unlines, List.map_append, String.join_append]
  rfl

theorem linesOf_unbroken (h : Unbroken ends s) : linesOf ends s = [s] := by
  rw [linesOf, List.splitOnP_eq_singleton h, List.map_singleton, String.ofList_toList]

theorem linesOf_cons (hfeed : ends '\n') (ha : Unbroken ends a) (b : String) :
    linesOf ends (a ++ "\n" ++ b) = a :: linesOf ends b := by
  have hlist : (a ++ "\n" ++ b).toList = a.toList ++ '\n' :: b.toList := by simp
  rw [linesOf, hlist, List.splitOnP_append_cons _ _ hfeed, List.map_append, linesOf]
  exact congrArg (· ++ _) (linesOf_unbroken ha)

theorem linesOf_unlines_append (hfeed : ends '\n') (h : ∀ row ∈ rows, Unbroken ends row)
    (b : String) : linesOf ends (unlines rows ++ b) = rows ++ linesOf ends b := by
  induction rows with
  | nil => simp [unlines]
  | cons row rows ih =>
    rw [List.forall_mem_cons] at h
    rw [unlines_cons, String.append_assoc, linesOf_cons hfeed h.1, ih h.2, List.cons_append]

/-- Unbroken rows are the lines of their text, and an empty line stands behind the last feed. -/
theorem linesOf_unlines (hfeed : ends '\n') (h : ∀ row ∈ rows, Unbroken ends row) :
    linesOf ends (unlines rows) = rows ++ [""] := by
  have hempty : linesOf ends "" = [""] := linesOf_unbroken (by simp [Unbroken])
  have hlines := linesOf_unlines_append hfeed h ""
  rwa [String.append_empty, hempty] at hlines

theorem unbroken_of_mem_linesOf (h : a ∈ linesOf ends s) : Unbroken ends a := by
  obtain ⟨piece, hpiece, rfl⟩ := List.mem_map.1 h
  intro c hc
  rw [String.toList_ofList] at hc
  exact eq_false_of_mem_piece hpiece hc

theorem BlanksOnly.unbroken (h : BlanksOnly s) (hends : EndsLines ends) : Unbroken ends s := by
  intro c hc
  by_cases he : ends c
  · rw [h c hc (hends.white c he), hends.blank] at he
    cases he
  · simpa using he

theorem BlanksOnly.append (ha : BlanksOnly a) (hb : BlanksOnly b) : BlanksOnly (a ++ b) := by
  intro c hc
  rw [String.toList_append, List.mem_append] at hc
  exact hc.elim (ha c) (hb c)

theorem blanksOnly_summary (s : String) (limit : Nat) : BlanksOnly (summary s limit) :=
  fun _ hc hb => eq_blank_of_mem_summary hc hb

theorem not_isBlank_of_isDigit {c : Char} (h : c.isDigit) : isBlank c = false := by
  by_cases hb : isBlank c
  · obtain ⟨r, hr, hc⟩ := List.any_eq_true.1 hb
    have apart : ∀ r ∈ blank, r.2 < 48 ∨ 57 < r.1 := by decide
    have hr := apart r hr
    simp only [Char.isDigit, ge_iff_le, UInt32.le_iff_toNat_le, Bool.and_eq_true,
      decide_eq_true_eq, Char.toNat] at h hc
    change 48 ≤ _ ∧ _ ≤ 57 at h
    omega
  · simpa using hb

theorem blanksOnly_toString (n : Nat) : BlanksOnly (toString n) := by
  intro c hc hb
  rw [not_isBlank_of_isDigit (Pointer.isDigit_toString hc)] at hb
  cases hb

/-- A title in capitals stays on the line if its text does. -/
theorem Unbroken.titleCase (hends : EndsLines ends) (h : Unbroken ends s) :
    Unbroken ends (titleCase s) := by
  intro c hc
  by_cases he : ends c
  · rw [Schemata.titleCase, String.toList_ofList] at hc
    exact h c (mem_of_mem_titleChars hc (hends.white c he))
  · simpa using he

end Schemata
