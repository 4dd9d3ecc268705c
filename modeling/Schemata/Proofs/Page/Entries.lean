import Mathlib.Data.String.Basic
import Schemata.Page.Catalog
import Schemata.Proofs.Text.Lines

/-!
# The lines of the catalog

Read line by line, the catalog has a group for each category of its schemas: a title, the count of
the entries, an empty line, the entries and an empty line again. The description of an entry is
collapsed to one line, its title is not: the entries are one line each just when no title has the
end of a line in it.
-/

namespace Schemata

namespace Catalog

variable {ss : List Schema} {o : CatalogOptions} {c e : Category} {cs : List Category}
  {ends : Char → Bool}

theorem mem_dropRepeats : c ∈ categories.dropRepeats cs ↔ c ∈ cs := by
  induction cs using categories.dropRepeats.induct with
  | case1 => rfl
  | case2 e => rfl
  | case3 e rest ih => rw [categories.dropRepeats, if_pos rfl, ih]; simp
  | case4 d e rest hne ih =>
    rw [categories.dropRepeats, if_neg hne, List.mem_cons, ih, List.mem_cons (l := e :: rest)]

theorem name_lt_of_le (h : c.name ≤ e.name) (hne : c ≠ e) : c.name < e.name := by
  refine lt_of_le_of_ne h fun hname => hne ?_
  cases c
  cases e
  exact congrArg Category.mk hname

theorem pairwise_dropRepeats (h : cs.Pairwise fun c e => c.name ≤ e.name) :
    (categories.dropRepeats cs).Pairwise fun c e => c.name < e.name := by
  induction cs using categories.dropRepeats.induct with
  | case1 => exact .nil
  | case2 e => exact List.pairwise_singleton _ _
  | case3 e rest ih =>
    rw [categories.dropRepeats, if_pos rfl]
    exact ih h.of_cons
  | case4 c e rest hne ih =>
    rw [categories.dropRepeats, if_neg hne]
    obtain ⟨hc, hrest⟩ := List.pairwise_cons.1 h
    refine List.pairwise_cons.2 ⟨fun d hd => ?_, ih hrest⟩
    have hce : c.name < e.name := name_lt_of_le (hc e List.mem_cons_self) hne
    rcases List.mem_cons.1 (mem_dropRepeats.1 hd) with rfl | hd
    · exact hce
    · exact lt_of_lt_of_le hce ((List.pairwise_cons.1 hrest).1 d hd)

theorem mem_categories : c ∈ categories ss ↔ ∃ s ∈ ss, s.category = c := by
  rw [categories, mem_dropRepeats, List.mem_mergeSort, List.mem_map]

theorem pairwise_categories (ss : List Schema) :
    (categories ss).Pairwise fun c e => c.name < e.name := by
  let le (c e : Category) : Bool := decide (c.name ≤ e.name)
  have htrans (a b c : Category) (hab : le a b) (hbc : le b c) : le a c :=
    decide_eq_true (le_trans (of_decide_eq_true hab) (of_decide_eq_true hbc))
  have htotal (a b : Category) : le a b || le b a := by
    rw [Bool.or_eq_true, decide_eq_true_iff, decide_eq_true_iff]
    exact le_total a.name b.name
  have hsorted := List.pairwise_mergeSort htrans htotal (ss.map (·.category))
  exact pairwise_dropRepeats (hsorted.imp of_decide_eq_true)

def entryLine (o : CatalogOptions) (s : Schema) : String :=
  "- **[" ++ s.title ++ "](./" ++ s.pagePath.text ++ ")** - "
    ++ summary (s.description?.getD Page.noDescription) o.summaryLength

def groupLines (title : String) (entries : List String) : List String :=
  ["### " ++ title, "", "**" ++ toString entries.length ++ " schemas**", ""] ++ entries ++ [""]

def openingLines (o : CatalogOptions) : List String :=
  ["# " ++ o.title, "", "This document provides a complete reference for all schemas.", "",
    "## Schema Categories", ""]

def closingLines (ss : List Schema) : List String :=
  ["## Total Schemas: " ++ toString ss.length, ""]

theorem group_eq (o : CatalogOptions) (ss : List Schema) (c : Category) :
    group o ss c = unlines (groupLines c.title ((members ss c).map (entryLine o))) := by
  have hentries : unlines ((members ss c).map (entryLine o)) =
      String.join ((members ss c).map (entry o)) := by
    rw [unlines, List.map_map]
    rfl
  rw [group, groupLines, unlines_append, unlines_append, hentries]
  simp [unlines, ← String.toList_inj]

theorem catalog_eq (o : CatalogOptions) (ss : List Schema) : catalog o ss =
    unlines (openingLines o ++ (categories ss).flatMap (fun c =>
      groupLines c.title ((members ss c).map (entryLine o))) ++ closingLines ss) := by
  have hgroups : unlines ((categories ss).flatMap fun c =>
      groupLines c.title ((members ss c).map (entryLine o))) =
        String.join ((categories ss).map (group o ss)) := by
    induction categories ss with
    | nil => rfl
    | cons c cs ih =>
      rw [List.flatMap_cons, unlines_append, ih, List.map_cons, String.join_cons, group_eq]
  rw [catalog, unlines_append, unlines_append, hgroups]
  simp [unlines, openingLines, closingLines, ← String.toList_inj]

theorem unbroken_title (hends : EndsLines ends) (h : Unbroken ends c.name) :
    Unbroken ends c.title := by
  apply Unbroken.titleCase hends
  intro x hx
  rw [String.toList_ofList, List.mem_map] at hx
  obtain ⟨y, hy, rfl⟩ := hx
  by_cases hdash : y = '-'
  · rw [if_pos hdash]
    exact hends.blank
  · rw [if_neg hdash]
    exact h y hy

theorem unbroken_pagePath {s : Schema} (hends : EndsLines ends)
    (hc : Unbroken ends s.category.name) (hs : Unbroken ends s.stem) :
    Unbroken ends s.pagePath.text := by
  have hslash : Unbroken ends "/" := BlanksOnly.unbroken (by decide) hends
  have hmd : Unbroken ends ".md" := BlanksOnly.unbroken (by decide) hends
  have hname : Unbroken ends (s.stem ++ ".md") := unbroken_append.2 ⟨hs, hmd⟩
  rw [Schema.pagePath, FilePath.join]
  split
  · exact hname
  split
  · exact unbroken_append.2 ⟨hc, hname⟩
  · exact unbroken_append.2 ⟨unbroken_append.2 ⟨hc, hslash⟩, hname⟩

theorem unbroken_entryLine {s : Schema} (hends : EndsLines ends)
    (hc : Unbroken ends s.category.name) (hs : Unbroken ends s.stem) (o : CatalogOptions) :
    Unbroken ends (entryLine o s) ↔ Unbroken ends s.title := by
  have hopen : Unbroken ends "- **[" := BlanksOnly.unbroken (by decide) hends
  have hlink : Unbroken ends "](./" := BlanksOnly.unbroken (by decide) hends
  have hclose : Unbroken ends ")** - " := BlanksOnly.unbroken (by decide) hends
  have hpath := unbroken_pagePath hends hc hs
  have hsummary := (blanksOnly_summary (s.description?.getD Page.noDescription)
    o.summaryLength).unbroken hends
  simp only [entryLine, unbroken_append, hopen, hlink, hclose, hpath, hsummary, true_and, and_true]

theorem unbroken_groupLines {title : String} {entries : List String} (hends : EndsLines ends)
    (htitle : Unbroken ends title) (hentries : ∀ entry ∈ entries, Unbroken ends entry) :
    ∀ line ∈ groupLines title entries, Unbroken ends line := by
  have hhead : Unbroken ends "### " := BlanksOnly.unbroken (by decide) hends
  have hcount : BlanksOnly ("**" ++ toString entries.length ++ " schemas**") :=
    (BlanksOnly.append (by decide) (blanksOnly_toString _)).append (by decide)
  have hempty : Unbroken ends "" := BlanksOnly.unbroken (by decide) hends
  simp only [groupLines, List.forall_mem_append, List.forall_mem_cons, List.not_mem_nil,
    false_implies, implies_true, and_true]
  exact ⟨⟨⟨unbroken_append.2 ⟨hhead, htitle⟩, hempty, hcount.unbroken hends, hempty⟩, hentries⟩,
    hempty⟩

theorem unbroken_openingLines (hends : EndsLines ends) (h : Unbroken ends o.title) :
    ∀ line ∈ openingLines o, Unbroken ends line := by
  have hhead : Unbroken ends "# " := BlanksOnly.unbroken (by decide) hends
  have hfixed : ∀ line ∈ ["", "This document provides a complete reference for all schemas.", "",
      "## Schema Categories", ""], BlanksOnly line := by
    decide
  rw [openingLines, List.forall_mem_cons]
  exact ⟨unbroken_append.2 ⟨hhead, h⟩, fun line hline => (hfixed line hline).unbroken hends⟩

theorem unbroken_closingLines (hends : EndsLines ends) (ss : List Schema) :
    ∀ line ∈ closingLines ss, Unbroken ends line := by
  have htotal : BlanksOnly ("## Total Schemas: " ++ toString ss.length) :=
    BlanksOnly.append (by decide) (blanksOnly_toString _)
  have hempty : BlanksOnly "" := by decide
  intro line hline
  simp only [closingLines, List.mem_cons, List.not_mem_nil, or_false] at hline
  rcases hline with rfl | rfl
  · exact htotal.unbroken hends
  · exact hempty.unbroken hends

/-- Read line by line, the catalog has a group for each category of the schemas, in the order of the
names, and there as many lines as it counts: each is the whole entry of one schema of the category,
and none is blank. -/
def Listed (ends : Char → Bool) (o : CatalogOptions) (ss : List Schema) : Prop :=
  ∃ groups : List (Category × List Schema),
    linesOf ends (catalog o ss) = openingLines o ++ groups.flatMap (fun g =>
      groupLines g.1.title (g.2.map (entryLine o))) ++ closingLines ss ++ [""] ∧
    (groups.map (·.1)).Pairwise (fun c e => c.name < e.name) ∧
    (∀ c, c ∈ groups.map (·.1) ↔ ∃ s ∈ ss, s.category = c) ∧
    ∀ g ∈ groups, g.2.Perm (ss.filter (·.category = g.1)) ∧
      ∀ s ∈ g.2, ∃ c ∈ (entryLine o s).toList, isBlank c = false

theorem exists_not_isBlank (o : CatalogOptions) (s : Schema) :
    ∃ c ∈ (entryLine o s).toList, isBlank c = false := by
  refine ⟨'-', ?_, by decide⟩
  simp [entryLine]

theorem listed_of_unbroken (hends : EndsLines ends) (ho : Unbroken ends o.title)
    (hs : ∀ s ∈ ss, Unbroken ends s.category.name ∧ Unbroken ends (entryLine o s)) :
    Listed ends o ss := by
  refine ⟨(categories ss).map fun c => (c, members ss c), ?_, ?_, ?_, ?_⟩
  · rw [catalog_eq, linesOf_unlines hends.feed, List.flatMap_map]
    simp only [List.forall_mem_append, List.forall_mem_flatMap]
    refine ⟨⟨unbroken_openingLines hends ho, fun c hc => ?_⟩, unbroken_closingLines hends ss⟩
    obtain ⟨s, hmem, rfl⟩ := mem_categories.1 hc
    apply unbroken_groupLines hends (unbroken_title hends (hs s hmem).1)
    intro entry hentry
    obtain ⟨m, hm, rfl⟩ := List.mem_map.1 hentry
    rw [members, List.mem_mergeSort, List.mem_filter] at hm
    exact (hs m hm.1).2
  · rw [List.map_map]
    exact (List.map_id _).symm ▸ pairwise_categories ss
  · intro c
    rw [List.map_map, ← mem_categories]
    exact (List.map_id (categories ss)).symm ▸ Iff.rfl
  · intro g hg
    obtain ⟨c, -, rfl⟩ := List.mem_map.1 hg
    exact ⟨List.mergeSort_perm _ _, fun s _ => exists_not_isBlank o s⟩

theorem unbroken_of_listed (h : Listed ends o ss) {s : Schema} (hs : s ∈ ss) :
    Unbroken ends (entryLine o s) := by
  obtain ⟨groups, hlines, -, hgroups, hmembers⟩ := h
  obtain ⟨g, hg, hcategory⟩ := List.mem_map.1 ((hgroups s.category).2 ⟨s, hs, rfl⟩)
  have hmem : s ∈ g.2 := by
    rw [(hmembers g hg).1.mem_iff, List.mem_filter, hcategory]
    exact ⟨hs, decide_eq_true rfl⟩
  have hentry : entryLine o s ∈ groupLines g.1.title (g.2.map (entryLine o)) := by
    rw [groupLines]
    exact List.mem_append_left _ (List.mem_append_right _ (List.mem_map_of_mem hmem))
  apply unbroken_of_mem_linesOf (s := catalog o ss)
  rw [hlines]
  exact List.mem_append_left _ (List.mem_append_left _ (List.mem_append_right _
    (List.mem_flatMap.2 ⟨g, hg, hentry⟩)))

/-- With category names, stems and a title of the catalog on one line each, the catalog has one line
for each schema just when every title of a schema stays on its line: descriptions, of whatever form,
are no obstacle. -/
theorem listed_iff (hends : EndsLines ends) (ho : Unbroken ends o.title)
    (hs : ∀ s ∈ ss, Unbroken ends s.category.name ∧ Unbroken ends s.stem) :
    Listed ends o ss ↔ ∀ s ∈ ss, Unbroken ends s.title := by
  constructor
  · intro h s hmem
    exact (unbroken_entryLine hends (hs s hmem).1 (hs s hmem).2 o).1 (unbroken_of_listed h hmem)
  · intro h
    refine listed_of_unbroken hends ho fun s hmem => ⟨(hs s hmem).1, ?_⟩
    exact (unbroken_entryLine hends (hs s hmem).1 (hs s hmem).2 o).2 (h s hmem)

def Deal.schema (title : String) : Schema :=
  .ofTree ⟨"ontology/entity/party.schema.yaml"⟩ ⟨"ontology"⟩ (.mapping
    [("title", .string title), ("description", .string "One side\n\nof a deal.\n")])

theorem Deal.listed : EndsLines isFeed ∧
    Unbroken isFeed CatalogOptions.standard.title ∧
    (∀ s ∈ [schema "Party"], Unbroken isFeed s.category.name ∧
      Unbroken isFeed s.stem) ∧ Listed isFeed .standard [schema "Party"] := by
  have ho : Unbroken isFeed CatalogOptions.standard.title := by
    decide
  have hs : ∀ s ∈ [schema "Party"], Unbroken isFeed s.category.name ∧
      Unbroken isFeed s.stem := by
    decide +kernel
  refine ⟨endsLines_isFeed, ho, hs, (listed_iff endsLines_isFeed ho hs).2 ?_⟩
  decide

/-- A line feed in a title makes two lines of the one entry that is counted. -/
theorem Deal.entry_broken :
    (Unbroken isFeed CatalogOptions.standard.title ∧
      ∀ s ∈ [schema "Party\nof a deal"], Unbroken isFeed s.category.name ∧
        Unbroken isFeed s.stem) ∧
    linesOf isFeed (catalog .standard [schema "Party\nof a deal"]) =
      openingLines .standard ++ ["### Entity", "", "**1 schemas**", "", "- **[Party",
        "of a deal](./entity/party.schema.md)** - One side of a deal.", ""]
        ++ closingLines [schema "Party\nof a deal"] ++ [""] ∧
    ¬ Listed isFeed .standard [schema "Party\nof a deal"] := by
  have hrows : unlines ((categories [schema "Party\nof a deal"]).flatMap fun c => groupLines c.title
        ((members [schema "Party\nof a deal"] c).map (entryLine .standard))) =
      unlines ["### Entity", "", "**1 schemas**", "", "- **[Party",
        "of a deal](./entity/party.schema.md)** - One side of a deal.", ""] := by
    decide +kernel
  refine ⟨?_, ?_, fun h => ?_⟩
  · decide +kernel
  · rw [catalog_eq, unlines_append, unlines_append, hrows, ← unlines_append, ← unlines_append]
    apply linesOf_unlines endsLines_isFeed.feed
    simp only [List.forall_mem_append]
    exact ⟨⟨unbroken_openingLines endsLines_isFeed (by decide), by decide⟩,
      unbroken_closingLines endsLines_isFeed _⟩
  · have hentry := unbroken_of_listed h List.mem_cons_self
    revert hentry
    decide +kernel

end Catalog

end Schemata
