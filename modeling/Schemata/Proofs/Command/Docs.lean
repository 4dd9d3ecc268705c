import Schemata.Proofs.Command.Runs
import Schemata.Proofs.Page.Site
import Schemata.Proofs.Schema.Discovery
import Schemata.Proofs.Validation.Outcomes

/-!
# What documentation makes of the files

Documentation and validation load the same files, each in a loop of its own. A file that one of
them cannot load the other cannot load either, and every file that is found ends as a page or is
skipped.
-/

namespace Schemata

variable {d : Disk} {p root : FilePath} {ps : List FilePath}

theorem Schema.path_of_load {s : Schema} (h : Schema.load d p root = .ok s) : s.path = p := by
  unfold load Except.map at h
  split at h
  · cases h
  · cases h
    rfl

namespace Docs

theorem loadAll_cons (d : Disk) (root p : FilePath) (ps : List FilePath) :
    loadAll d root (p :: ps) =
      match Schema.load d p root with
      | .ok s => (s :: (loadAll d root ps).1, (loadAll d root ps).2)
      | .error e => ((loadAll d root ps).1, ⟨p, e⟩ :: (loadAll d root ps).2) := by
  rfl

theorem map_path_written :
    (loadAll d root ps).1.map (·.path) = ps.filter fun p => (Schema.load d p root).isOk := by
  induction ps with
  | nil => rfl
  | cons p ps ih =>
    rw [loadAll_cons, List.filter_cons]
    cases h : Schema.load d p root with
    | ok s => exact congrArg₂ List.cons (Schema.path_of_load h) ih
    | error e => exact ih

theorem map_path_skipped :
    (loadAll d root ps).2.map (·.path) = ps.filter fun p => !(Schema.load d p root).isOk := by
  induction ps with
  | nil => rfl
  | cons p ps ih =>
    rw [loadAll_cons, List.filter_cons]
    cases Schema.load d p root with
    | ok s => exact ih
    | error e => exact congrArg (List.cons p) ih

/-- Every file has become a schema or is skipped, once, and both in the order of the files. -/
structure Accounts (ps : List FilePath) (written : List Schema) (skipped : List Skipped) :
    Prop where
  once : (written.map (·.path) ++ skipped.map (·.path)).Nodup
  all : ∀ p, p ∈ ps ↔ p ∈ written.map (·.path) ∨ p ∈ skipped.map (·.path)
  written_sublist : (written.map (·.path)).Sublist ps
  skipped_sublist : (skipped.map (·.path)).Sublist ps

theorem accounts_loadAll (h : ps.Nodup) :
    Accounts ps (loadAll d root ps).1 (loadAll d root ps).2 := by
  have hperm := List.filter_append_perm (fun p => (Schema.load d p root).isOk) ps
  rw [← map_path_written, ← map_path_skipped] at hperm
  refine ⟨hperm.nodup_iff.2 h, fun p => ?_, ?_, ?_⟩
  · rw [← List.mem_append, hperm.mem_iff]
  · rw [map_path_written]
    exact List.filter_sublist
  · rw [map_path_skipped]
    exact List.filter_sublist

theorem exitCode_result (skipped : List Skipped) (printed : String) :
    (TaskResult.mk printed (result skipped) d).exitCode = if skipped.isEmpty then 0 else 1 := by
  unfold result TaskResult.exitCode
  cases skipped <;> rfl

end Docs

/-- Documentation loses no file. Once its site is written, every file that was found has a page or
is skipped; skipped are those that validation cannot load either; the catalog counts the pages; and
the exit code tells whether anything was skipped. If so, the failure names what was, and a report
for other programs has it beside the pages. -/
theorem Command.run_docs {cl : CommandLine} {env : Environment} {terminal : Bool}
    {arguments : List String} {s : Settings} {root out : Option FilePath} {suffix : Option String}
    {written : List Schema} {skipped : List Docs.Skipped} {report : SiteReport} {d' : Disk}
    (hd : d.WellFormed) (hn : (d.items.map (·.1)).Nodup)
    (hparse : CommandLine.parse env.vars arguments = .ok cl)
    (htask : cl.task = .docs root out suffix)
    (hsettings : (Settings.load d env cl.config).2 = .ok s)
    (hfound : d.discover (root.getD s.paths.ontologyDir) (s.suffix suffix) = .ok ps)
    (hload : Docs.loadAll d (root.getD s.paths.ontologyDir) ps = (written, skipped))
    (hwrite : writeSite s.site (out.getD s.paths.docsDir) written d = (.ok report, d')) :
    Docs.Accounts ps written skipped ∧
    skipped.map (·.path) =
      ((validateFiles draft07 d (s.validation (root.getD s.paths.ontologyDir)) ps).filter
        (·.outcome.isParseFailed)).map (·.path) ∧
    List.Forall₂ (fun t p => p = (out.getD s.paths.docsDir).join t.pagePath ∧
      ∃ name content, d'.Shows p name content) written report.pages ∧
    (∃ above, catalog s.site.catalog written =
      above ++ "## Total Schemas: " ++ toString report.pages.length ++ "\n\n") ∧
    (run arguments env terminal d).exitCode = (if skipped.isEmpty then 0 else 1) ∧
    (run arguments env terminal d).disk = d' ∧
    (skipped ≠ [] → ∃ warnings, (run arguments env terminal d).errors =
      warnings ++ (Failure.skipped (skipped.map (·.path))).report (consoleOf cl terminal s).color) ∧
    ((consoleOf cl terminal s).isHuman = false → (run arguments env terminal d).output =
      (consoleOf cl terminal s).data
        (Docs.reportTree (out.getD s.paths.docsDir) report skipped)) := by
  obtain ⟨rfl, rfl⟩ := Prod.mk.inj hload
  have hpages := Site.shows_pages hwrite
  obtain ⟨hcode, hout, hdisk⟩ := runs_of_settings hparse hsettings terminal
  obtain ⟨notices, hsilent, hrun⟩ := Docs.run_of_written hfound hwrite (consoleOf cl terminal s)
  rw [← answer_docs htask] at hrun
  rw [hrun] at hcode hout hdisk
  refine ⟨Docs.accounts_loadAll (Disk.nodup_of_discover hd hn hfound), ?_, hpages, ?_, ?_, hdisk,
    fun hskipped => ?_, fun hc => ?_⟩
  · rw [Docs.map_path_skipped]
    exact map_path_filter_validateFrom.symm
  · rw [← hpages.length_eq]
    exact ⟨_, rfl⟩
  · rw [hcode, Docs.exitCode_result]
  · have hresult : Docs.result (Docs.loadAll d (root.getD s.paths.ontologyDir) ps).2 =
        .error (.skipped ((Docs.loadAll d (root.getD s.paths.ontologyDir) ps).2.map (·.path))) :=
      if_neg (by simpa using hskipped)
    exact errors_of_settings hparse hsettings (by rw [hrun, hresult])
  · rw [hout, hsilent hc, hc, String.empty_append, if_neg Bool.false_ne_true]

def Shop.disk : Disk :=
  ⟨[(["o"], .directory), (["o", "c"], .directory), (["o", "c", "a.json"], .file (.text "\x7b\x7d")),
    (["o", "c", "b.json"], .file (.text "\x7b"))], []⟩

def Shop.files : List FilePath := [⟨"o/c/a.json"⟩, ⟨"o/c/b.json"⟩]

theorem Shop.docs_run : disk.WellFormed ∧ (disk.items.map (·.1)).Nodup ∧
    disk.discover ⟨"o"⟩ ".json" = .ok files ∧
    Docs.Accounts files (Docs.loadAll disk ⟨"o"⟩ files).1 (Docs.loadAll disk ⟨"o"⟩ files).2 ∧
    (Command.run ["docs", "o", "--out", "x", "--suffix", ".json"] (.ofVariables [] none) false
      disk).exitCode = 1 ∧
    ∃ warnings, (Command.run ["docs", "o", "--out", "x", "--suffix", ".json"] (.ofVariables [] none)
      false disk).errors = warnings ++ (Failure.skipped [⟨"o/c/b.json"⟩]).report false := by
  have hd : disk.WellFormed := by decide +kernel
  have hn : (disk.items.map (·.1)).Nodup := by decide +kernel
  have hparse : CommandLine.parse (Environment.ofVariables [] none).vars
      ["docs", "o", "--out", "x", "--suffix", ".json"] =
      .ok ⟨0, false, none, none, false, .docs (some ⟨"o"⟩) (some ⟨"x"⟩) (some ".json")⟩ := by
    decide +kernel
  have hsettings : (Settings.load disk (.ofVariables [] none) none).2 = .ok .standard := by
    decide +kernel
  have hroot : disk.find ⟨"o"⟩ true = .ok (["o"], .directory) := by decide +kernel
  have hfound : disk.discover ⟨"o"⟩ ".json" = .ok files :=
    Disk.discover_of_sorted hroot (by decide +kernel) (by decide +kernel)
  have hload : Docs.loadAll disk ⟨"o"⟩ files =
    ((Docs.loadAll disk ⟨"o"⟩ files).1, (Docs.loadAll disk ⟨"o"⟩ files).2) := rfl
  have hwrite : (writeSite Settings.standard.site ⟨"x"⟩ (Docs.loadAll disk ⟨"o"⟩ files).1 disk).1 =
      .ok ⟨⟨"x/ontology-reference.md"⟩, [⟨"x/c/a.md"⟩]⟩ := by decide +kernel
  have hskipped : (Docs.loadAll disk ⟨"o"⟩ files).2.isEmpty = false := by decide +kernel
  have hpaths : (Docs.loadAll disk ⟨"o"⟩ files).2.map (·.path) = [⟨"o/c/b.json"⟩] := by
    decide +kernel
  obtain ⟨haccounts, -, -, -, hcode, -, herrors, -⟩ :=
    Command.run_docs hd hn hparse rfl hsettings hfound hload (Prod.ext hwrite rfl)
  rw [hskipped] at hcode
  rw [hpaths] at herrors
  exact ⟨hd, hn, hfound, haccounts, hcode,
    herrors fun hnil => by rw [hnil] at hskipped; cases hskipped⟩

end Schemata
