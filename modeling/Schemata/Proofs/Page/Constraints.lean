import Schemata.Page.Sections
import Schemata.Proofs.Text.Lines
import Schemata.Proofs.Tree.Compact

/-!
# The lines of the constraints

A page ends with a list of the constraints that the root states: a row for each keyword, in a fixed
order, and no list at all without any. Values are not collapsed to one line as descriptions are. A
number, a list or a mapping has no control character in its text, but a string may have line feeds,
and then its row is no line.
-/

namespace Schemata

variable {ends : Char → Bool} {s : Schema} {root : Tree} {row : String}

namespace Page

/-- The keywords of constraints with their labels, and what stands around their values. -/
def constraintColumns : List (String × String × String) :=
  [("minimum", "Minimum value", ""), ("maximum", "Maximum value", ""),
    ("minLength", "Minimum length", ""), ("maxLength", "Maximum length", ""),
    ("pattern", "Pattern", "\x60")]

def constraintRow (label mark : String) (value : Tree) : String :=
  "- " ++ label ++ ": " ++ mark ++ value.plainText ++ mark

def constraintRows (root : Tree) : List String :=
  constraintColumns.filterMap fun (key, label, mark) =>
    (root.get? key).map (constraintRow label mark)

def Unconstrained (root : Tree) : Prop := ∀ column ∈ constraintColumns, root.get? column.1 = none

def OneLineValues (ends : Char → Bool) (root : Tree) : Prop :=
  ∀ column ∈ constraintColumns, ∀ value, root.get? column.1 = some value →
    Unbroken ends value.plainText

def columnOf (kind : ConstraintKind) : String × String × String :=
  (kind.keyword, kind.label, if kind = .pattern then "\x60" else "")

theorem map_columnOf : ConstraintKind.all.map columnOf = constraintColumns := rfl

theorem constraintLine_eq (kind : ConstraintKind) (value : Tree) : constraintLine ⟨kind, value⟩ =
    constraintRow (columnOf kind).2.1 (columnOf kind).2.2 value ++ "\n" := by
  cases kind <;> simp [constraintLine, constraintRow, columnOf, ← String.toList_inj]

theorem map_constraintLine (s : Schema) :
    s.constraints.map constraintLine = (constraintRows s.root).map (· ++ "\n") := by
  rw [Schema.constraints, constraintRows, ← map_columnOf, List.filterMap_map, List.map_filterMap,
    List.map_filterMap]
  refine List.filterMap_congr fun kind _ => ?_
  rw [Function.comp_apply, Option.map_map, Option.map_map]
  exact Option.map_congr fun value _ => constraintLine_eq kind value

theorem constraints_eq_nil : s.constraints = [] ↔ Unconstrained s.root := by
  rw [Schema.constraints, List.filterMap_eq_nil_iff, Unconstrained, ← map_columnOf,
    List.forall_mem_map]
  simp only [Option.map_eq_none_iff]
  rfl

theorem constraints_eq (h : ¬ Unconstrained s.root) : constraints s.constraints =
    unlines (["## Constraints", ""] ++ constraintRows s.root ++ [""]) := by
  have hsome : ¬ s.constraints.isEmpty := by rwa [List.isEmpty_iff, constraints_eq_nil]
  rw [constraints, if_neg hsome, map_constraintLine, unlines_append, unlines_append]
  simp [unlines]

theorem mem_constraintRows : row ∈ constraintRows root ↔ ∃ column ∈ constraintColumns,
    ∃ value, root.get? column.1 = some value ∧ constraintRow column.2.1 column.2.2 value = row := by
  simp only [constraintRows, List.mem_filterMap, Option.map_eq_some_iff]

theorem blanksOnly_columns :
    ∀ column ∈ constraintColumns, BlanksOnly column.2.1 ∧ BlanksOnly column.2.2 := by
  decide

/-- A row stays on its line just when the value does. -/
theorem unbroken_constraintRow (hends : EndsLines ends) {column : String × String × String}
    (hcolumn : column ∈ constraintColumns) (value : Tree) :
    Unbroken ends (constraintRow column.2.1 column.2.2 value) ↔ Unbroken ends value.plainText := by
  obtain ⟨hlabel, hmark⟩ := blanksOnly_columns column hcolumn
  have hopen : Unbroken ends "- " := BlanksOnly.unbroken (by decide) hends
  have hcolon : Unbroken ends ": " := BlanksOnly.unbroken (by decide) hends
  simp only [constraintRow, unbroken_append, hopen, hcolon, hlabel.unbroken hends,
    hmark.unbroken hends, true_and, and_true]

theorem oneLineValues_iff (hends : EndsLines ends) :
    OneLineValues ends root ↔ ∀ row ∈ constraintRows root, Unbroken ends row := by
  constructor
  · intro h row hrow
    obtain ⟨column, hcolumn, value, hvalue, rfl⟩ := mem_constraintRows.1 hrow
    exact (unbroken_constraintRow hends hcolumn value).2 (h column hcolumn value hvalue)
  · intro h column hcolumn value hvalue
    exact (unbroken_constraintRow hends hcolumn value).1
      (h _ (mem_constraintRows.2 ⟨column, hcolumn, value, hvalue, rfl⟩))

theorem linesOf_constraints_iff (hends : EndsLines ends) (h : ¬ Unconstrained s.root) :
    linesOf ends (constraints s.constraints) =
      ["## Constraints", ""] ++ constraintRows s.root ++ ["", ""] ↔ OneLineValues ends s.root := by
  have hfixed : ∀ row ∈ ["## Constraints", ""], BlanksOnly row := by decide
  have hend : ∀ row ∈ [""], BlanksOnly row := by decide
  rw [oneLineValues_iff hends]
  constructor
  · intro hlines row hrow
    apply unbroken_of_mem_linesOf (s := constraints s.constraints)
    rw [hlines]
    exact List.mem_append_left _ (List.mem_append_right _ hrow)
  · intro hrows
    rw [constraints_eq h, linesOf_unlines hends.feed]
    · simp
    · refine List.forall_mem_append.2 ⟨List.forall_mem_append.2 ⟨fun row hrow => ?_, hrows⟩,
        fun row hrow => ?_⟩
      · exact (hfixed row hrow).unbroken hends
      · exact (hend row hrow).unbroken hends

/-- Only a string can have a control character in its text. -/
theorem unbroken_plainText (hcontrol : ∀ c, ends c → c.toNat < 32) (value : Tree) :
    Unbroken ends value.plainText ↔ ∀ text, value = .string text → Unbroken ends text := by
  have hcompact : Unbroken ends value.compact := by
    intro c hc
    by_contra hend
    have hlow := hcontrol c (Bool.not_eq_false _ ▸ hend)
    exact absurd (noControls_compact value c hc) (Nat.not_le.2 hlow)
  cases value with
  | string text =>
    constructor
    · rintro h _ ⟨⟩
      exact h
    · exact fun h => h text rfl
  | null | bool _ | number _ | list _ | mapping _ =>
    refine iff_of_true hcompact fun text he => ?_
    cases he

end Page

namespace Schema

/-- The page up to the constraints. -/
def pageStart (s : Schema) : String :=
  Page.heading s.title s.category.title s.shownPath.text
    ++ Page.description s.description?
    ++ (s.id?.map Page.identifier).getD ""
    ++ (s.properties?.map Page.properties).getD ""
    ++ (s.examples?.map Page.examples).getD ""

theorem page_eq (s : Schema) : s.page = s.pageStart ++ Page.constraints s.constraints := rfl

end Schema

open Page

/-- A page has no list of constraints if the root states none. Otherwise it ends with the list, and
read line by line this is a heading, an empty line, one line for each keyword that the root has, in
their order, and an empty line, just when every value is on one line. Where lines end at control
characters only, every value is, apart from strings with such a character. -/
theorem constraints_line_iff (hends : EndsLines ends) (s : Schema) :
    (Unconstrained s.root → s.page = s.pageStart) ∧
    (¬ Unconstrained s.root → s.page = s.pageStart ++ constraints s.constraints ∧
      (linesOf ends (constraints s.constraints) =
        ["## Constraints", ""] ++ constraintRows s.root ++ ["", ""] ↔
          OneLineValues ends s.root)) ∧
    ((∀ c, ends c → c.toNat < 32) → ∀ value : Tree, Unbroken ends value.plainText ↔
      ∀ text, value = .string text → Unbroken ends text) := by
  refine ⟨fun hnone => ?_, fun hsome => ⟨s.page_eq, linesOf_constraints_iff hends hsome⟩,
    fun hcontrol => unbroken_plainText hcontrol⟩
  rw [s.page_eq, constraints_eq_nil.2 hnone]
  exact String.append_empty

def Limits.schema (es : Entries) : Schema :=
  .ofTree ⟨"ontology/entity/code.schema.yaml"⟩ ⟨"ontology"⟩ (.mapping es)

def Limits.both : Schema :=
  schema [("pattern", .string "^T[0-9]+$"), ("maximum", .list [.int 9, .string "a\nb"])]

theorem Limits.lines : EndsLines isFeed ∧
    linesOf isFeed (constraints both.constraints) = ["## Constraints", "",
      "- Maximum value: [9,\"a\\nb\"]", "- Pattern: \x60^T[0-9]+$\x60", "", ""] := by
  have hsome : ¬ Unconstrained both.root := by
    intro h
    exact absurd (h ("pattern", "Pattern", "\x60") (by decide)) (by decide)
  have hvalues : OneLineValues isFeed both.root :=
    (oneLineValues_iff endsLines_isFeed).2 (by decide +kernel)
  refine ⟨endsLines_isFeed, ?_⟩
  rw [((constraints_line_iff endsLines_isFeed both).2.1 hsome).2.2 hvalues]
  decide +kernel

/-- A pattern that was written as a block of text ends in a line feed, which makes two lines of its
row. -/
def Limits.block : Schema := schema [("pattern", .string "^[a-z]+$\n")]

theorem Limits.pattern_broken : constraintRows block.root = ["- Pattern: \x60^[a-z]+$\n\x60"] ∧
    linesOf isFeed (constraints block.constraints) =
      ["## Constraints", "", "- Pattern: \x60^[a-z]+$", "\x60", "", ""] ∧
    linesOf isFeed (constraints block.constraints) ≠
      ["## Constraints", ""] ++ constraintRows block.root ++ ["", ""] := by
  decide +kernel

end Schemata
