import Schemata.Page.Sections
import Schemata.Proofs.Validation.Steps
import Schemata.Proofs.Validation.Verdict

/-!
# Required properties in the table

A row of the table of properties has its cells between bars, and a bar inside a cell stands behind a
backslash. The table and the validation read the names under `required` each in its own way: once a
document is valid, the table marks just the properties that are named there.
-/

namespace Schemata

namespace Page

/-- Cuts a line at its bars, except behind backslashes; `escaped` tells that one came before. -/
def splitBars : (escaped : Bool) → List Char → List (List Char)
  | _, [] => [[]]
  | escaped, c :: cs =>
    if c = '|' && !escaped then [] :: splitBars false cs
    else (splitBars (c = '\\') cs).modifyHead (c :: ·)

def cellsOf (line : String) : List String := (splitBars false line.toList).map String.ofList

/-- No bar of the text ends a cell. -/
inductive Guarded : (escaped : Bool) → List Char → Prop
  | nil (escaped : Bool) : Guarded escaped []
  | cons {escaped : Bool} {c : Char} {cs : List Char} (bar : c = '|' → escaped = true) :
    Guarded (c = '\\') cs → Guarded escaped (c :: cs)

variable {escaped : Bool} {as bs cs rest : List Char}

theorem Guarded.append (ha : Guarded escaped as) (hb : ∀ escaped, Guarded escaped bs) :
    Guarded escaped (as ++ bs) := by
  induction ha with
  | nil escaped => exact hb escaped
  | cons bar _ ih => exact .cons bar ih

/-- A character that is no bar may stand anywhere. -/
theorem Guarded.cons_of_ne {c : Char} (hc : c ≠ '|') (h : ∀ escaped, Guarded escaped cs) :
    Guarded escaped (c :: cs) :=
  .cons (fun he => absurd he hc) (h _)

theorem guarded_of_notMem (h : '|' ∉ cs) (escaped : Bool) : Guarded escaped cs := by
  induction cs generalizing escaped with
  | nil => exact .nil escaped
  | cons c cs ih =>
    rw [List.mem_cons, not_or] at h
    exact .cons_of_ne (Ne.symm h.1) (ih h.2)

theorem guarded_cell (text : String) (escaped : Bool) : Guarded escaped (cell text).toList := by
  rw [cell, String.toList_ofList]
  induction oneLine text generalizing escaped with
  | nil => exact .nil escaped
  | cons c cs ih =>
    rw [List.flatMap_cons]
    split
    · exact .cons (fun he => absurd he (by decide)) (.cons (fun _ => by decide) (ih _))
    · rename_i hc
      exact .cons_of_ne hc ih

/-- A text without loose bars is a cell if a blank parts it from the next bar. -/
theorem splitBars_append (h : Guarded escaped cs) :
    splitBars escaped (cs ++ ' ' :: '|' :: rest) = (cs ++ [' ']) :: splitBars false rest := by
  induction h with
  | nil => rfl
  | @cons escaped c cs bar _ ih =>
    have hc : ¬ (decide (c = '|') && !escaped) = true := by simpa using bar
    rw [List.cons_append, splitBars, if_neg hc, ih]
    rfl

theorem splitBars_line {name shape mark description : List Char} (hn : Guarded false name)
    (hs : Guarded false shape) (hm : Guarded false mark) (hd : Guarded false description)
    (rest : List Char) :
    splitBars false ('|' :: (name ++ ' ' :: '|' :: (shape ++ ' ' :: '|' :: (mark ++ ' ' :: '|' ::
      (description ++ ' ' :: '|' :: rest))))) =
        [] :: (name ++ [' ']) :: (shape ++ [' ']) :: (mark ++ [' ']) :: (description ++ [' ']) ::
          splitBars false rest := by
  rw [splitBars, if_pos (by decide), splitBars_append hn, splitBars_append hs, splitBars_append hm,
    splitBars_append hd]

def marker (required : Bool) : String := if required then "✅" else "❌"

theorem notMem_marker (required : Bool) : '|' ∉ (marker required).toList := by
  cases required <;> simp [marker]

def descriptionCell (p : Property) : String := (p.description.map cell).getD noPropertyDescription

theorem guarded_descriptionCell (p : Property) (escaped : Bool) :
    Guarded escaped (descriptionCell p).toList := by
  unfold descriptionCell
  cases p.description with
  | none => exact guarded_of_notMem (by simp [noPropertyDescription]) escaped
  | some text => exact guarded_cell text escaped

def rowLine (p : Property) : String :=
  "| \x60" ++ cell p.name ++ "\x60 | " ++ cell p.shape.label ++ " | " ++ marker p.required ++ " | "
    ++ descriptionCell p ++ " |"

theorem row_eq (p : Property) : row p = rowLine p ++ "\n" := by
  simp [row, rowLine, marker, descriptionCell, ← String.toList_inj]

theorem splitBars_row (p : Property) (rest : List Char) :
    splitBars false ((rowLine p).toList ++ rest) =
      [] :: (' ' :: '\x60' :: (cell p.name).toList ++ ['\x60', ' ']) ::
        (' ' :: (cell p.shape.label).toList ++ [' ']) ::
          (' ' :: (marker p.required).toList ++ [' ']) ::
            (' ' :: (descriptionCell p).toList ++ [' ']) :: splitBars false rest := by
  have blank {cs : List Char} (h : ∀ escaped, Guarded escaped cs) : Guarded false (' ' :: cs) :=
    .cons_of_ne (by decide) h
  have quoted (escaped : Bool) : Guarded escaped ((cell p.name).toList ++ ['\x60']) :=
    (guarded_cell p.name escaped).append (guarded_of_notMem (by decide))
  have name : Guarded false (' ' :: '\x60' :: ((cell p.name).toList ++ ['\x60'])) :=
    blank fun _ => .cons_of_ne (by decide) quoted
  have shape := blank (guarded_cell p.shape.label)
  have mark := blank (guarded_of_notMem (notMem_marker p.required))
  have description := blank (guarded_descriptionCell p)
  have hsplit := splitBars_line name shape mark description rest
  simpa [rowLine] using hsplit

theorem cellsOf_row (p : Property) : cellsOf (row p) =
    ["", " \x60" ++ cell p.name ++ "\x60 ", " " ++ cell p.shape.label ++ " ",
      " " ++ marker p.required ++ " ", " " ++ descriptionCell p ++ " ", "\n"] := by
  rw [cellsOf, row_eq, String.toList_append, splitBars_row]
  simp [splitBars, ← String.toList_inj]

/-- The row shows a property under its name, with the marker for what it requires. -/
def RowShows (required : Prop) (name row : String) : Prop :=
  ∃ shape description mark, cellsOf row =
    ["", " \x60" ++ cell name ++ "\x60 ", " " ++ shape ++ " ", " " ++ mark ++ " ",
      " " ++ description ++ " ", "\n"] ∧ (mark = "✅" ∧ required ∨ mark = "❌" ∧ ¬ required)

theorem rowShows_row (p : Property) : RowShows (p.required = true) p.name (row p) := by
  refine ⟨_, _, _, cellsOf_row p, ?_⟩
  cases p.required <;> simp [marker]

end Page

/-- The name is listed under `required`. -/
def Tree.Requires (t : Tree) (name : String) : Prop :=
  ∃ names, t.get? "required" = some (.list names) ∧ .string name ∈ names

def Tree.declared (t : Tree) : List String :=
  match t.get? "properties" with
  | some (.mapping ps) => Entries.keys ps
  | _ => []

namespace Schema

variable {g : Tree → List Violation} {d : Disk} {r : Resolver} {s : Schema} {name : String}

def marked (s : Schema) : List String :=
  ((s.properties?.getD []).filter (·.required)).map (·.name)

theorem mem_required : name ∈ s.required ↔ s.root.Requires name := by
  unfold required Tree.Requires
  split
  · rename_i names hn
    simp only [hn, Option.some.injEq, Tree.list.injEq, exists_eq_left', List.mem_filterMap]
    constructor
    · rintro ⟨t, ht, he⟩
      cases t <;> cases he
      exact ht
    · intro hm
      exact ⟨_, hm, rfl⟩
  · rename_i hn
    simp only [List.not_mem_nil, false_iff]
    rintro ⟨names, he, -⟩
    exact hn names he

theorem map_name_properties (s : Schema) :
    (s.properties?.getD []).map (·.name) = s.root.declared := by
  unfold properties? Tree.declared
  cases s.root.get? "properties" with
  | none => rfl
  | some t =>
    cases t <;> simp [Tree.entries?, Entries.keys, propertyOf]

theorem required_eq {p : Property} (h : p ∈ s.properties?.getD []) :
    p.required = true ↔ s.root.Requires p.name := by
  unfold properties? at h
  cases hp : s.root.get? "properties" with
  | none => simp [hp] at h
  | some t =>
    rw [hp, Option.map_some, Option.getD_some] at h
    obtain ⟨e, -, rfl⟩ := List.mem_map.1 h
    rw [← mem_required, propertyOf, List.contains_iff_mem]

theorem mem_marked : name ∈ s.marked ↔ name ∈ s.root.declared ∧ s.root.Requires name := by
  rw [← map_name_properties, marked, List.mem_map, List.mem_map]
  constructor
  · rintro ⟨p, hp, rfl⟩
    obtain ⟨hm, hr⟩ := List.mem_filter.1 hp
    exact ⟨⟨p, hm, rfl⟩, (required_eq hm).1 hr⟩
  · rintro ⟨⟨p, hm, rfl⟩, hr⟩
    exact ⟨p, List.mem_filter.2 ⟨hm, (required_eq hm).2 hr⟩, rfl⟩

theorem marked_sublist (s : Schema) : s.marked.Sublist s.root.declared := by
  rw [← map_name_properties]
  exact List.filter_sublist.map _

/-- A document that validates declares what its root requires. -/
theorem declared_of_requires (hr : s.root.reference? = none)
    (h : (s.validate g d r).1 = .ok []) (hn : s.root.Requires name) :
    name ∈ s.root.declared := by
  obtain ⟨names, hget, hmem⟩ := hn
  cases hs : s.root with
  | mapping es =>
    rw [hs] at hr hget
    have hnone : Violation.canonical (Walk.run g d r s).2.violations = [] := by
      unfold validate at h
      rcases he : Walk.run g d r s with ⟨e | _, w⟩ <;> rw [he] at h
      · cases h
      · exact Except.ok.inj h
    have hkept := Walk.undeclared_prefix_through (g := g) (d := d) hr []
      (Walk.start d r s).stack.room ((Walk.start d r s).report [] (g s.root))
    have hrun : Walk.run g d r s = Walk.through
        (Walk.descend g d (Walk.start d r s).stack.room) (.mapping es) []
          ((Walk.start d r s).report [] (g s.root)) := by
      rw [← hs]
      rfl
    rw [← hrun, Violation.canonical_eq_nil.1 hnone, List.prefix_nil, Walk.report,
      List.append_eq_nil_iff, List.map_eq_nil_iff] at hkept
    obtain ⟨ps, hp, hm⟩ := undeclared_eq_nil.1 hkept.2 names name hget hmem
    rw [Tree.declared, hp]
    exact hm
  | _ =>
    rw [hs] at hget
    cases hget

theorem exists_rows (h : s.root.declared ≠ []) : ∃ above rows below,
    s.page = above ++ Page.tableHead ++ String.join rows ++ below ∧
      List.Forall₂ (fun name row => Page.RowShows (s.root.Requires name) name row)
        s.root.declared rows := by
  obtain ⟨ps, hps⟩ : ∃ ps, s.properties? = some ps := by
    cases hp : s.properties? with
    | none =>
      have hnone := map_name_properties s
      rw [hp] at hnone
      exact absurd hnone.symm h
    | some ps => exact ⟨ps, rfl⟩
  have hnames : ps.map (·.name) = s.root.declared := by
    rw [← map_name_properties, hps, Option.getD_some]
  have hne : ¬ ps.isEmpty = true := by
    rw [List.isEmpty_iff]
    rintro rfl
    exact h hnames.symm
  have htable : (s.properties?.map Page.properties).getD "" = "## Properties\n\n" ++
      (Page.tableHead ++ String.join (ps.map Page.row)) ++ "\n\n" := by
    rw [hps]
    exact congrArg (fun body => "## Properties\n\n" ++ body ++ "\n\n") (if_neg hne)
  refine ⟨Page.heading s.title s.category.title s.shownPath.text
      ++ Page.description s.description? ++ (s.id?.map Page.identifier).getD ""
      ++ "## Properties\n\n", ps.map Page.row, "\n\n" ++ (s.examples?.map Page.examples).getD ""
      ++ Page.constraints s.constraints, ?_, ?_⟩
  · rw [page, htable]
    simp only [String.append_assoc]
  · rw [← hnames, List.forall₂_map_left_iff, List.forall₂_map_right_iff, List.forall₂_same]
    intro p hp
    have hm : p ∈ s.properties?.getD [] := by rwa [hps]
    rw [← required_eq hm]
    exact Page.rowShows_row p

/-- What a valid document requires is what its page marks as required: the properties marked are the
names listed under `required`, each once and in the order of declaration, and just their rows have
the marker. Without properties nothing is listed. The keys of a mapping are distinct. -/
theorem required_agrees (hkeys : s.root.declared.Nodup) (hr : s.root.reference? = none)
    (h : (s.validate g d r).1 = .ok []) :
    (∀ name, name ∈ s.marked ↔ s.root.Requires name) ∧ s.marked.Nodup ∧
    s.marked.Sublist s.root.declared ∧
    (s.root.declared ≠ [] → ∃ above rows below,
      s.page = above ++ Page.tableHead ++ String.join rows ++ below ∧
        List.Forall₂ (fun name row => Page.RowShows (s.root.Requires name) name row)
          s.root.declared rows) ∧
    (s.properties?.getD [] = [] → ∀ name, ¬ s.root.Requires name) := by
  refine ⟨fun name => ?_, s.marked_sublist.nodup hkeys, s.marked_sublist, exists_rows, ?_⟩
  · rw [mem_marked]
    exact and_iff_right_of_imp (declared_of_requires hr h)
  · intro hnone name hn
    have hm := declared_of_requires hr h hn
    rw [← map_name_properties, hnone] at hm
    cases hm

end Schema

/-- A document that requires the later one of its two properties, and lists it twice. -/
def Ledger.schema : Schema :=
  .ofTree ⟨"/o/ledger.json"⟩ ⟨"/o"⟩ (.mapping
    [("properties", .mapping [("b", .mapping []), ("a", .mapping [("type", .string "string")])]),
      ("required", .list [.string "a", .int 1, .string "a"])])

def Ledger.disk : Disk := ⟨[(["o"], .directory)], []⟩

theorem Ledger.required_marked : schema.root.declared.Nodup ∧ schema.root.reference? = none ∧
    (schema.validate (fun _ => []) disk .empty).1 = .ok [] ∧ schema.marked = ["a"] ∧
    ∀ name, schema.root.Requires name ↔ name = "a" := by
  have hkeys : schema.root.declared.Nodup := by decide +kernel
  have hr : schema.root.reference? = none := by decide +kernel
  have h : (schema.validate (fun _ => []) disk .empty).1 = .ok [] := by decide +kernel
  have hm : schema.marked = ["a"] := by decide +kernel
  refine ⟨hkeys, hr, h, hm, fun name => ?_⟩
  rw [← (Schema.required_agrees hkeys hr h).1, hm, List.mem_singleton]

end Schemata
