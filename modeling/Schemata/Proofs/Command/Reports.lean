import Schemata.Command.Run
import Schemata.Proofs.Json.Trees
import Schemata.Proofs.Yaml.Blocks

/-!
# Reports as texts

The text of a report tells the report. What is reported is an exact tree, which JSON readers get
back and which shares its YAML with no other exact tree.
-/

namespace Schemata

open Json (Exact)

variable {n m : Nat} {t u : Tree} {d : Disk} {ps : List FilePath}

namespace OutputFormat

theorem render_inj (f : OutputFormat) (ht : Exact n t) (hu : Exact m u)
    (h : f.render t = f.render u) : t = u := by
  cases f with
  | json => exact Json.Spacing.spaces_compact.inj ht hu (congrArg String.toList h)
  | yaml => exact Yaml.block_inj ht hu h
  | human | jsonPretty => exact Json.Spacing.spaces_indentedAt.inj ht hu (congrArg String.toList h)

theorem read_render {f : OutputFormat} (hf : f ≠ .yaml) (ht : Exact n t) (hn : n < Json.maxDepth)
    {rest : String} (hrest : rest.toList.all Json.Cursor.isSpace) :
    Json.read (f.render t ++ rest) = .ok t := by
  cases f with
  | json =>
    have hread := ht.read_text Json.Spacing.spaces_compact hn hrest
    rwa [String.ofList_append, String.ofList_toList, String.ofList_toList] at hread
  | yaml => exact absurd rfl hf
  | human | jsonPretty =>
    have hread := ht.read_text Json.Spacing.spaces_indentedAt hn hrest
    rwa [String.ofList_append, String.ofList_toList, String.ofList_toList] at hread

/-- The text is the tree in the format, perhaps with the end of its line, and no other exact tree;
and as JSON it is read back. -/
def Conveys (f : OutputFormat) (text : String) (t : Tree) : Prop :=
  (text = f.render t ∨ text = Console.line (f.render t)) ∧
    (∀ n u, Exact n u → f.render u = f.render t → u = t) ∧ (f ≠ .yaml → Json.read text = .ok t)

end OutputFormat

theorem Console.conveys_data (c : Console) (ht : Exact n t) (hn : n < Json.maxDepth) :
    c.format.Conveys (c.data t) t := by
  have hunique (k : Nat) (u : Tree) (hu : Exact k u) (h : c.format.render u = c.format.render t) :
      u = t := c.format.render_inj hu ht h
  unfold data
  dsimp only
  split
  · refine ⟨.inl rfl, hunique, fun hf => ?_⟩
    rw [← String.append_empty (s := c.format.render t)]
    exact OutputFormat.read_render hf ht hn rfl
  · exact ⟨.inr rfl, hunique, fun hf => OutputFormat.read_render hf ht hn rfl⟩

theorem exact_string (s : String) : Exact n (.string s) := .scalar (.string s)

theorem exact_list {α : Type} {f : α → Tree} (h : ∀ x, Exact n (f x)) (xs : List α) :
    Exact (n + 1) (.list (xs.map f)) :=
  .list (List.forall_mem_map.2 fun x _ => h x)

theorem exact_pair {a b : String} (hne : a ≠ b) (ht : Exact n t) (hu : Exact n u) :
    Exact (n + 1) (.mapping [(a, t), (b, u)]) :=
  .mapping (by simpa [Entries.keys] using hne) (by simp [ht, hu])

theorem FileOutcome.exact_tree (o : FileOutcome) : Exact 3 o.tree := by
  have hstatus (details : Tree) (status : String) (h : Exact 2 details) :
      Exact 3 (.mapping [("status", .string status), ("details", details)]) :=
    exact_pair (by decide) (exact_string status) h
  cases o with
  | valid => exact .mapping (by decide) (by simp [exact_string])
  | invalid vs =>
    have hviolation (v : Violation) : Exact 1 v.tree :=
      exact_pair (by decide) (exact_string _) (exact_string _)
    exact hstatus _ _ (exact_list hviolation vs)
  | parseFailed text => exact hstatus _ _ (exact_string text)
  | referenceFailed text => exact hstatus _ _ (exact_string text)

theorem Validate.exact_reportTree {rs : List FileReport} (h : rs.length < Nat.pow 2 64) :
    Exact 6 (reportTree rs) := by
  have hvalid : FileReport.countValid rs < Nat.pow 2 64 :=
    Nat.lt_of_le_of_lt List.countP_le_length h
  have hreports : Exact 5 (.list (rs.map FileReport.tree)) :=
    exact_list (fun r => exact_pair (by decide) (exact_string _) r.outcome.exact_tree) rs
  refine .mapping (show ["valid", "total", "reports"].Nodup by decide) ?_
  simp only [List.forall_mem_cons, List.not_mem_nil, false_imp_iff, implies_true, and_true]
  exact ⟨.scalar (.count hvalid), .scalar (.count h), hreports⟩

theorem Docs.exact_reportTree (out : FilePath) (r : SiteReport) (skipped : List Skipped) :
    Exact 3 (reportTree out r skipped) := by
  have hpages : Exact 2 (.list (r.pages.map fun p => .string p.text)) :=
    exact_list (fun p => exact_string _) r.pages
  have hskipped : Exact 2 (.list (skipped.map Skipped.tree)) :=
    exact_list (fun k => exact_pair (by decide) (exact_string _) (exact_string _)) skipped
  refine .mapping (show ["output_dir", "catalog", "pages", "skipped"].Nodup by decide) ?_
  simp only [List.forall_mem_cons, List.not_mem_nil, false_imp_iff, implies_true, and_true]
  exact ⟨exact_string _, exact_string _, hpages, hskipped⟩

theorem Disk.length_le_of_discover {root : FilePath} {suffix : String}
    (h : d.discover root suffix = .ok ps) : ps.length ≤ d.items.length := by
  unfold discover at h
  split at h
  · cases h
  · cases h
    rw [List.length_mergeSort, List.length_map]
    exact List.length_filterMap_le _ _
  · cases h

end Schemata
