import Schemata.Proofs.Page.Table
import Schemata.Proofs.Text.Lines

/-!
# The table read back

Every property has one line of the table, whatever its texts are made of: white space is collapsed
to blanks, so no line is broken, and bars stand behind backslashes, so a line has just the five bars
of its cells. Taking the backslashes away gives the texts back.
-/

namespace Schemata

namespace Page

/-- How many bars do not stand right behind a backslash. -/
def looseBars (line : String) : Nat :=
  (line.toList.zip (' ' :: line.toList)).countP fun p => p.1 = '|' && p.2 ≠ '\\'

theorem length_splitBars (previous : Char) (cs : List Char) :
    (splitBars (previous = '\\') cs).length =
      (cs.zip (previous :: cs)).countP (fun p => p.1 = '|' && p.2 ≠ '\\') + 1 := by
  induction cs generalizing previous with
  | nil => rfl
  | cons c cs ih =>
    rw [splitBars, List.zip_cons_cons, List.countP_cons]
    by_cases hbar : c = '|'
    · have hrest := ih '|'
      rw [decide_eq_false (by decide)] at hrest
      by_cases hprevious : previous = '\\'
      · simp [hbar, hprevious, hrest]
      · simp [hbar, hprevious, hrest]
    · simp [hbar, ih]

theorem length_cellsOf (line : String) : (cellsOf line).length = looseBars line + 1 := by
  have h := length_splitBars ' ' line.toList
  rw [decide_eq_false (by decide)] at h
  rw [cellsOf, List.length_map, h, looseBars]

/-- Puts a bar for every bar behind a backslash, from the left to the right. -/
def unbar : List Char → List Char
  | '\\' :: '|' :: cs => '|' :: unbar cs
  | c :: cs => c :: unbar cs
  | [] => []

theorem unbar_cons {c : Char} {cs : List Char} (h : cs.head? ≠ some '|') :
    unbar (c :: cs) = c :: unbar cs := by
  rw [unbar]
  rintro rest - rfl
  exact h rfl

def guardedBars (cs : List Char) : List Char :=
  cs.flatMap fun c => if c = '|' then ['\\', '|'] else [c]

theorem head?_guardedBars {rest : List Char} (h : rest.head? ≠ some '|') (cs : List Char) :
    (guardedBars cs ++ rest).head? ≠ some '|' := by
  cases cs with
  | nil => exact h
  | cons c cs =>
    rw [guardedBars, List.flatMap_cons]
    by_cases hc : c = '|'
    · simp [hc]
    · simp [hc]

theorem unbar_guardedBars {rest : List Char} (h : rest.head? ≠ some '|') (cs : List Char) :
    unbar (guardedBars cs ++ rest) = cs ++ unbar rest := by
  induction cs with
  | nil => rfl
  | cons c cs ih =>
    rw [guardedBars, List.flatMap_cons, List.append_assoc]
    by_cases hc : c = '|'
    · rw [if_pos hc, hc]
      exact congrArg ('|' :: ·) ih
    · rw [if_neg hc]
      exact (unbar_cons (head?_guardedBars h cs)).trans (congrArg (c :: ·) ih)

theorem guardedBars_of_notMem {cs : List Char} (h : '|' ∉ cs) : guardedBars cs = cs := by
  induction cs with
  | nil => rfl
  | cons c cs ih =>
    rw [List.mem_cons, not_or] at h
    rw [guardedBars, List.flatMap_cons, if_neg (Ne.symm h.1)]
    exact congrArg (c :: ·) (ih h.2)

theorem unbar_append {cs rest : List Char} (h : '|' ∉ cs) (hrest : rest.head? ≠ some '|') :
    unbar (cs ++ rest) = cs ++ unbar rest := by
  have hcs := unbar_guardedBars hrest cs
  rwa [guardedBars_of_notMem h] at hcs

theorem unbar_of_notMem {cs : List Char} (h : '|' ∉ cs) : unbar cs = cs := by
  have hcs : unbar (cs ++ []) = cs ++ unbar [] := unbar_append h (by decide)
  rwa [List.append_nil, unbar, List.append_nil] at hcs

def unbarred (piece : String) : String := String.ofList (unbar piece.toList)

theorem unbarred_of_notMem {s : String} (h : '|' ∉ s.toList) : unbarred s = s := by
  rw [unbarred, unbar_of_notMem h, String.ofList_toList]

theorem unbarred_cell (before text rest : String) (hbefore : '|' ∉ before.toList)
    (hrest : '|' ∉ rest.toList) :
    unbarred (before ++ cell text ++ rest) = before ++ collapsed text ++ rest := by
  have hhead : rest.toList.head? ≠ some '|' := fun h => hrest (List.mem_of_mem_head? h)
  have hcell : (cell text).toList = guardedBars (collapsed text).toList := by
    rw [cell, ← ofList_oneLine, String.toList_ofList, String.toList_ofList, guardedBars]
  rw [unbarred, String.toList_append, String.toList_append, hcell, List.append_assoc,
    unbar_append hbefore (head?_guardedBars hhead _), unbar_guardedBars hhead,
    unbar_of_notMem hrest]
  simp [← String.toList_inj]

theorem blanksOnly_cell (text : String) : BlanksOnly (cell text) := by
  intro c hc hblank
  rw [cell, String.toList_ofList, List.mem_flatMap] at hc
  obtain ⟨d, hd, hc⟩ := hc
  split at hc
  · simp only [List.mem_cons, List.not_mem_nil, or_false] at hc
    rcases hc with rfl | rfl <;> cases hblank
  · rw [List.mem_singleton] at hc
    rw [hc] at hblank ⊢
    exact eq_blank_of_mem_oneLine hd hblank

theorem blanksOnly_descriptionCell (p : Property) : BlanksOnly (descriptionCell p) := by
  unfold descriptionCell
  cases p.description with
  | none => decide
  | some text => exact blanksOnly_cell text

theorem blanksOnly_rowLine (p : Property) : BlanksOnly (rowLine p) := by
  have hmarker : BlanksOnly (marker p.required) := by
    cases p.required <;> decide
  have hgap : BlanksOnly " | " := by decide
  have hend : BlanksOnly " |" := by decide
  have hopen : BlanksOnly "| \x60" := by decide
  have hclose : BlanksOnly "\x60 | " := by decide
  exact (((((((hopen.append (blanksOnly_cell _)).append hclose).append (blanksOnly_cell _)).append
    hgap).append hmarker).append hgap).append (blanksOnly_descriptionCell p)).append hend

def shownDescription (p : Property) : String :=
  (p.description.map collapsed).getD noPropertyDescription

/-- The line has five loose bars, and the texts of the property stand between them. -/
structure LineOf (p : Property) (line : String) : Prop where
  bars : looseBars line = 5
  cells : (cellsOf line).map unbarred =
    ["", " \x60" ++ collapsed p.name ++ "\x60 ", " " ++ collapsed p.shape.label ++ " ",
      " " ++ marker p.required ++ " ", " " ++ shownDescription p ++ " ", ""]

theorem cellsOf_rowLine (p : Property) : cellsOf (rowLine p) =
    ["", " \x60" ++ cell p.name ++ "\x60 ", " " ++ cell p.shape.label ++ " ",
      " " ++ marker p.required ++ " ", " " ++ descriptionCell p ++ " ", ""] := by
  have h := splitBars_row p []
  rw [List.append_nil] at h
  rw [cellsOf, h]
  simp [splitBars, ← String.toList_inj]

theorem unbarred_descriptionCell (p : Property) :
    unbarred (" " ++ descriptionCell p ++ " ") = " " ++ shownDescription p ++ " " := by
  unfold descriptionCell shownDescription
  cases p.description with
  | none => exact unbarred_of_notMem (by decide)
  | some text => exact unbarred_cell " " text " " (by decide) (by decide)

theorem lineOf_rowLine (p : Property) : LineOf p (rowLine p) where
  bars := by
    have h := length_cellsOf (rowLine p)
    rw [cellsOf_rowLine] at h
    exact (Nat.succ.inj h).symm
  cells := by
    have hname := unbarred_cell " \x60" p.name "\x60 " (by decide) (by decide)
    have hshape := unbarred_cell " " p.shape.label " " (by decide) (by decide)
    have hmarker : unbarred (" " ++ marker p.required ++ " ") = " " ++ marker p.required ++ " " :=
      unbarred_of_notMem (by cases p.required <;> decide)
    have hempty : unbarred "" = "" := unbarred_of_notMem (by decide)
    rw [cellsOf_rowLine]
    simp only [List.map_cons, List.map_nil, hname, hshape, hmarker, unbarred_descriptionCell, hempty]

theorem properties_eq {ps : List Property} (h : ps ≠ []) : properties ps =
    unlines (["## Properties", "", "| Property | Type | Required | Description |",
      "|----------|------|----------|-------------|"] ++ ps.map rowLine ++ ["", ""]) := by
  have hrows : unlines (ps.map rowLine) = String.join (ps.map row) := by
    rw [unlines, List.map_map]
    exact congrArg String.join (List.map_congr_left fun p _ => (row_eq p).symm)
  have hempty : ¬ ps.isEmpty := by rwa [List.isEmpty_iff]
  delta properties
  rw [if_neg hempty, unlines_append, unlines_append, hrows]
  simp [unlines, tableHead, ← String.toList_inj]

/-- The table keeps every value in its own cell: below the two lines of its head stands one line for
each property, in order, with five loose bars and the texts of the property between them. This holds
for every reading of what ends a line. -/
theorem linesOf_properties {ps : List Property} {ends : Char → Bool} (hends : EndsLines ends)
    (h : ps ≠ []) : ∃ lines, linesOf ends (properties ps) =
      ["## Properties", "", "| Property | Type | Required | Description |",
        "|----------|------|----------|-------------|"] ++ lines ++ ["", "", ""] ∧
      List.Forall₂ LineOf ps lines := by
  refine ⟨ps.map rowLine, ?_, ?_⟩
  · have hfixed : ∀ row ∈ ["## Properties", "", "| Property | Type | Required | Description |",
        "|----------|------|----------|-------------|"], BlanksOnly row := by
      decide
    have hempty : BlanksOnly "" := by decide
    rw [properties_eq h, linesOf_unlines hends.feed, List.append_assoc, List.append_assoc]
    · rfl
    · intro row hrow
      simp only [List.append_assoc, List.mem_append] at hrow
      rcases hrow with hrow | hrow | hrow
      · exact (hfixed row hrow).unbroken hends
      · obtain ⟨p, -, rfl⟩ := List.mem_map.1 hrow
        exact (blanksOnly_rowLine p).unbroken hends
      · simp only [List.mem_cons, List.not_mem_nil, or_false, or_self] at hrow
        rw [hrow]
        exact hempty.unbroken hends
  · rw [List.forall₂_map_right_iff, List.forall₂_same]
    intro p _
    exact lineOf_rowLine p

def Crowded.property : Property :=
  Schema.propertyOf ["a|b\\"] "a|b\\" (.mapping
    [("enum", .list [.string "x\\|", .string "\x60y\n|"]), ("description", .string " 1\n\n| 2\\")])

theorem Crowded.line_kept : [property] ≠ [] ∧ EndsLines isFeed ∧
    ∃ line, linesOf isFeed (properties [property]) =
      ["## Properties", "", "| Property | Type | Required | Description |",
        "|----------|------|----------|-------------|", line, "", "", ""] ∧
      looseBars line = 5 ∧ (cellsOf line).map unbarred =
        ["", " \x60a|b\\\x60 ", " Enum: x\\|, \x60y | ", " ✅ ", " 1 | 2\\ ", ""] := by
  have hne : [property] ≠ [] := List.cons_ne_nil _ _
  obtain ⟨lines, hlines, hrows⟩ := linesOf_properties endsLines_isFeed hne
  obtain ⟨line, rest, hline, hrest, rfl⟩ := List.forall₂_cons_left_iff.1 hrows
  rw [List.forall₂_nil_left_iff.1 hrest] at hlines
  refine ⟨hne, endsLines_isFeed, line, hlines, hline.bars, ?_⟩
  rw [hline.cells]
  decide

end Page

end Schemata
