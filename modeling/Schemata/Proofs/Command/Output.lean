import Schemata.Proofs.Command.Docs
import Schemata.Proofs.Command.Totals

/-!
# What a run prints

Other programs get one report or nothing at all, and the exit code tells which. How a run presents
itself decides neither its exit code nor the disk that it leaves.
-/

namespace Schemata

variable {d : Disk} {ps : List FilePath} {rs : List FileReport} {env : Environment}
  {arguments arguments' : List String} {cl cl' : CommandLine} {s : Settings} {c : Console}

/-- The status in the tree of a report. -/
def Tree.status? (t : Tree) : Option Tree := (t.get? "outcome").bind (·.get? "status")

theorem FileOutcome.get?_status_tree (o : FileOutcome) :
    o.tree.get? "status" = some (.string "valid") ↔ o.isValid := by
  cases o with
  | valid => decide
  | invalid vs =>
    have status : (invalid vs).tree.get? "status" = some (.string "invalid") := rfl
    simp [status, isValid]
  | parseFailed text =>
    have status : (parseFailed text).tree.get? "status" = some (.string "parse_failed") := rfl
    simp [status, isValid]
  | referenceFailed text =>
    have status : (referenceFailed text).tree.get? "status" = some (.string "reference_failed") :=
      rfl
    simp [status, isValid]

namespace FileReport

theorem map_path_tree (rs : List FileReport) : (rs.map tree).map (·.get? "path") =
    (rs.map (·.path)).map fun p => some (.string p.text) := by
  rw [List.map_map, List.map_map]
  rfl

theorem countValid_eq (rs : List FileReport) :
    countValid rs = (rs.map tree).countP fun t => t.status? = some (.string "valid") := by
  rw [countValid, List.countP_map]
  refine List.countP_congr fun r _ => ?_
  rw [← FileOutcome.get?_status_tree, Function.comp_apply, decide_eq_true_iff]
  rfl

end FileReport

namespace Validate

theorem exitCode_result (rs : List FileReport) (printed : String) :
    (TaskResult.mk printed (result rs) d).exitCode =
      if FileReport.countValid rs = rs.length then 0 else 1 := by
  have hle : FileReport.countValid rs ≤ rs.length := List.countP_le_length
  unfold result TaskResult.exitCode FileReport.hasFailures
  by_cases h : FileReport.countValid rs = rs.length
  · simp [h]
  · have hlt : FileReport.countValid rs < rs.length := Nat.lt_of_le_of_ne hle h
    simp [h, hlt, Failure.exitCode]

end Validate

namespace Command

/-- What a command reports, by its task and exit code. A report on validation has an entry for every
file that is found, in their order; a report on documentation lists what was written and skipped. -/
inductive Reports (d : Disk) (s : Settings) (code : Nat) : Task → Tree → Prop
  | validate {root : Option FilePath} {suffix : Option String} {ps : List FilePath} {valid : Nat}
    {reports : List Tree} (found : d.discover (root.getD s.paths.ontologyDir) (s.suffix suffix) =
      .ok ps)
    (paths : reports.map (·.get? "path") = ps.map fun p => some (.string p.text))
    (valid_eq : valid = reports.countP fun t => t.status? = some (.string "valid"))
    (code_iff : code = 0 ↔ valid = reports.length) :
    Reports d s code (.validate root suffix)
      (.mapping [("valid", .int valid), ("total", .int reports.length), ("reports", .list reports)])
  | docs {root out : Option FilePath} {suffix : Option String} {dir catalog : String}
    {pages skipped : List Tree} (code_iff : code = 0 ↔ skipped = []) :
    Reports d s code (.docs root out suffix)
      (.mapping [("output_dir", .string dir), ("catalog", .string catalog), ("pages", .list pages),
        ("skipped", .list skipped)])

/-- The command printed its report or nothing, as its exit code tells. -/
def Answers (d : Disk) (s : Settings) (c : Console) (task : Task) (a : TaskResult) : Prop :=
  a.printed = "" ∧ 1 < a.exitCode ∨
    a.exitCode ≤ 1 ∧ ∃ t, a.printed = c.data t ∧ Reports d s a.exitCode task t ∧
      (d.items.length < Nat.pow 2 64 → c.format.Conveys a.printed t)

theorem validate_answers (hc : c.isHuman = false) (root : Option FilePath)
    (suffix : Option String) : Answers d s c (.validate root suffix)
      (Validate.run s c (root.getD s.paths.ontologyDir) (s.suffix suffix) d) := by
  rcases Validate.run_cases s c (root.getD s.paths.ontologyDir) (s.suffix suffix) d with
    ⟨e, -, hrun⟩ | ⟨ps, rs, notice, hfound, rfl, hnotice, hrun⟩
  · rw [hrun]
    exact .inl ⟨rfl, by simp [TaskResult.exitCode, Failure.exitCode]⟩
  · rw [hrun, hnotice hc, hc, String.empty_append, if_neg Bool.false_ne_true]
    generalize hrs : validateFiles draft07 d (s.validation (root.getD s.paths.ontologyDir)) ps = rs
    have hpaths : rs.map (·.path) = ps := hrs ▸ map_path_validateFrom
    refine .inr ⟨?_, Validate.reportTree rs, rfl, ?_, fun hd => ?_⟩
    · rw [Validate.exitCode_result]
      split <;> simp
    · have htree : Validate.reportTree rs = .mapping [("valid", .int (FileReport.countValid rs)),
          ("total", .int (rs.map FileReport.tree).length),
          ("reports", .list (rs.map FileReport.tree))] := by
        rw [List.length_map]
        rfl
      rw [htree, Validate.exitCode_result]
      refine .validate hfound (by rw [FileReport.map_path_tree, hpaths])
        (FileReport.countValid_eq rs) ?_
      rw [List.length_map]
      split <;> simp [*]
    · have hcount : rs.length < Nat.pow 2 64 := by
        rw [← List.length_map (f := FileReport.path), hpaths]
        exact Nat.lt_of_le_of_lt (Disk.length_le_of_discover hfound) hd
      exact c.conveys_data (Validate.exact_reportTree hcount) (by decide)

theorem docs_answers (hc : c.isHuman = false) (root out : Option FilePath)
    (suffix : Option String) : Answers d s c (.docs root out suffix)
      (Docs.run s c (root.getD s.paths.ontologyDir) (out.getD s.paths.docsDir) (s.suffix suffix)
        d) := by
  obtain ⟨notices, hsilent, hcases⟩ := Docs.run_cases s c (root.getD s.paths.ontologyDir)
    (out.getD s.paths.docsDir) (s.suffix suffix) d
  rcases hcases with ⟨e, -, hrun⟩ | ⟨ps, -, ⟨e, d', -, hrun⟩ | ⟨r, d', -, hrun⟩⟩ <;>
    rw [hrun, hsilent hc]
  · exact .inl ⟨rfl, by simp [TaskResult.exitCode, Failure.exitCode]⟩
  · exact .inl ⟨rfl, by simp [TaskResult.exitCode, Failure.exitCode]⟩
  · rw [hc, String.empty_append, if_neg Bool.false_ne_true]
    generalize (Docs.loadAll d (root.getD s.paths.ontologyDir) ps).2 = skipped
    refine .inr ⟨?_, Docs.reportTree _ r skipped, rfl, .docs ?_, fun _ => ?_⟩
    · rw [Docs.exitCode_result]
      split <;> simp
    · rw [Docs.exitCode_result]
      cases skipped <;> simp
    · exact c.conveys_data (Docs.exact_reportTree _ r skipped) (by decide)

/-- A run for other programs prints one report of what it did and nothing else, or nothing at all;
and it reports exactly if it ends with exit code 0 or 1. What is printed tells the report, in which
counts have 64 bits: no other report has that text, and JSON is read back as the report. -/
theorem run_reports (hparse : CommandLine.parse env.vars arguments = .ok cl)
    (htask : ∀ shell, cl.task ≠ .completions shell)
    (hformat : ∀ s, (Settings.load d env cl.config).2 = .ok s →
      cl.output.getD s.output.format ≠ .human) (terminal : Bool) :
    ((run arguments env terminal d).output = "" ∨
      ∃ s t, (Settings.load d env cl.config).2 = .ok s ∧
        (run arguments env terminal d).output = (consoleOf cl terminal s).data t ∧
        Reports d s (run arguments env terminal d).exitCode cl.task t ∧
        (d.items.length < Nat.pow 2 64 → (cl.output.getD s.output.format).Conveys
          (run arguments env terminal d).output t)) ∧
    ((run arguments env terminal d).output ≠ "" ↔ (run arguments env terminal d).exitCode ≤ 1) := by
  cases hs : (Settings.load d env cl.config).2 with
  | error e =>
    obtain ⟨hcode, hout, -⟩ := runs_of_settings_error hparse hs terminal
    have hlate : ¬ (Failure.settings e).exitCode ≤ 1 := by simp [Failure.exitCode_le_one_iff]
    exact ⟨.inl hout, by simp [hcode, hout, hlate]⟩
  | ok s =>
    obtain ⟨hcode, hout, -⟩ := runs_of_settings hparse hs terminal
    have hc : (consoleOf cl terminal s).isHuman = false := decide_eq_false (hformat s hs)
    have hanswer : Answers d s (consoleOf cl terminal s) cl.task (answer cl terminal s d) := by
      cases ht : cl.task with
      | validate root suffix =>
        rw [answer_validate ht]
        exact validate_answers hc root suffix
      | docs root out suffix =>
        rw [answer_docs ht]
        exact docs_answers hc root out suffix
      | completions shell => exact absurd ht (htask shell)
    rw [hcode, hout]
    rcases hanswer with ⟨hprinted, hlate⟩ | ⟨hearly, t, hprinted, hreports, hconveys⟩
    · exact ⟨.inl hprinted, by simp [hprinted, Nat.not_le.2 hlate]⟩
    · refine ⟨.inr ⟨s, t, rfl, hprinted, hreports, hconveys⟩, ?_⟩
      simp [hprinted, hearly, Console.data_ne_empty]

end Command

namespace Kiosk

def disk : Disk := ⟨[(["o"], .directory), (["o", "b.json"], .file (.text "\x7b"))], []⟩

def task : Task := .validate (some ⟨"o"⟩) (some ".json")

def forPeople : CommandLine := ⟨1, false, none, none, false, task⟩

def forPrograms : CommandLine := ⟨0, false, none, some .json, false, task⟩

def bare : Environment := .ofVariables [] none

theorem parse_forPeople : CommandLine.parse bare.vars
    ["-v", "validate", "o", "--suffix", ".json"] = .ok forPeople := by
  decide +kernel

theorem parse_forPrograms : CommandLine.parse bare.vars
    ["-o", "json", "validate", "o", "--suffix", ".json"] = .ok forPrograms := by
  decide +kernel

theorem reported : ∃ s t,
    (Command.run ["-o", "json", "validate", "o", "--suffix", ".json"] bare true disk).output =
      (Command.consoleOf forPrograms true s).data t ∧
    Command.Reports disk s 1 task t ∧
    Json.read (Command.run ["-o", "json", "validate", "o", "--suffix", ".json"] bare true
      disk).output = .ok t := by
  have hcode : (Command.run ["-o", "json", "validate", "o", "--suffix", ".json"] bare true
      disk).exitCode = 1 := by decide +kernel
  obtain ⟨hout, hiff⟩ := Command.run_reports (d := disk) parse_forPrograms
    (by simp [forPrograms, task]) (by simp [forPrograms]) true
  rcases hout with hempty | ⟨s, t, -, hout, hreports, hconveys⟩
  · exact absurd hempty (hiff.2 (by rw [hcode]))
  · obtain ⟨-, -, hread⟩ := hconveys (by decide)
    exact ⟨s, t, hout, hcode ▸ hreports, hread (by simp [forPrograms])⟩

end Kiosk

namespace Command

theorem result_run_validate (s : Settings) (c c' : Console) (root : FilePath) (suffix : String)
    (d : Disk) :
    (Validate.run s c' root suffix d).result = (Validate.run s c root suffix d).result ∧
      (Validate.run s c' root suffix d).disk = (Validate.run s c root suffix d).disk := by
  unfold Validate.run
  split <;> exact ⟨rfl, rfl⟩

theorem result_run_docs (s : Settings) (c c' : Console) (root out : FilePath) (suffix : String)
    (d : Disk) :
    (Docs.run s c' root out suffix d).result = (Docs.run s c root out suffix d).result ∧
      (Docs.run s c' root out suffix d).disk = (Docs.run s c root out suffix d).disk := by
  unfold Docs.run
  split
  · exact ⟨rfl, rfl⟩
  · dsimp only
    split <;> exact ⟨rfl, rfl⟩

theorem result_runTask (s : Settings) (c c' : Console) (d : Disk) (task : Task) :
    (runTask s c' d task).result = (runTask s c d task).result ∧
      (runTask s c' d task).disk = (runTask s c d task).disk := by
  cases task with
  | validate root suffix => exact result_run_validate s c c' _ _ d
  | docs root out suffix => exact result_run_docs s c c' _ _ _ d
  | completions shell => exact ⟨rfl, rfl⟩

theorem answer_congr (htask : cl'.task = cl.task) (terminal terminal' : Bool) :
    (answer cl' terminal' s d).exitCode = (answer cl terminal s d).exitCode ∧
      (answer cl' terminal' s d).disk = (answer cl terminal s d).disk := by
  obtain ⟨hresult, hdisk⟩ :=
    result_runTask s (consoleOf cl terminal s) (consoleOf cl' terminal' s) d cl.task
  rw [answer, answer, htask, TaskResult.exitCode, TaskResult.exitCode, hresult]
  exact ⟨rfl, hdisk⟩

theorem tellsTotals_summaryLines (hc : c.isHuman) (hquiet : c.quiet = false) (notice : String)
    (rs : List FileReport) : TellsTotals c (notice ++ Validate.summaryLines c rs)
      (FileReport.countValid rs) rs.length := by
  have hstep (text : String) : c.step text = Console.line (c.painted .bold text) := by
    rw [Console.step, Console.chatter, hquiet, if_neg Bool.false_ne_true, Console.human, if_pos hc]
  refine ⟨notice ++ (String.join (rs.map (Validate.fileLines c)) ++ c.step ""),
    if FileReport.hasFailures rs then c.error "Schema validation FAILED."
      else c.success "All schemas validated successfully.",
    .inr ⟨notice ++ (String.join (rs.map (Validate.fileLines c)) ++ c.painted .bold ""), ?_⟩,
    ?_, ?_⟩
  · rw [hstep, Console.line, Console.line]
    simp only [String.append_assoc]
  · rw [Validate.summaryLines, ← hstep]
    simp only [totalsText, String.append_assoc]
  · split
    · exact .inl rfl
    · exact .inr rfl

/-- What validation tells people it reports to other programs, and neither text has other totals. -/
theorem totals_run_validate {c' : Console} (hc : c.isHuman) (hquiet : c.quiet = false)
    (hc' : c'.isHuman = false) (root : FilePath) (suffix : String) :
    (Validate.run s c root suffix d).printed = "" ∧ (Validate.run s c' root suffix d).printed = "" ∨
    ∃ valid total, ∀ v t,
      (TellsTotals c (Validate.run s c root suffix d).printed v t ↔ v = valid ∧ t = total) ∧
      (ReportsTotals c' (Validate.run s c' root suffix d).printed v t ↔ v = valid ∧ t = total) := by
  rcases Validate.run_cases s c root suffix d with
    ⟨e, hfound, hrun⟩ | ⟨ps, rs, notice, hfound, rfl, -, hrun⟩ <;>
  rcases Validate.run_cases s c' root suffix d with
    ⟨e', hfound', hrun'⟩ | ⟨ps', rs', notice', hfound', rfl, hnotice', hrun'⟩ <;>
  rw [hfound] at hfound' <;> cases hfound'
  · exact .inl ⟨by rw [hrun], by rw [hrun']⟩
  · rw [hrun, hrun', hnotice' hc', hc, hc', if_pos rfl, if_neg Bool.false_ne_true,
      String.empty_append]
    generalize validateFiles draft07 d (s.validation root) ps = rs
    have htells := tellsTotals_summaryLines hc hquiet notice rs
    have hreports : ReportsTotals c' (c'.data (Validate.reportTree rs)) (FileReport.countValid rs)
        rs.length := ⟨_, rfl⟩
    refine .inr ⟨_, _, fun v t => ⟨⟨fun h => tellsTotals_inj hc hquiet h htells, ?_⟩,
      ⟨fun h => reportsTotals_inj h hreports, ?_⟩⟩⟩
    · rintro ⟨rfl, rfl⟩
      exact htells
    · rintro ⟨rfl, rfl⟩
      exact hreports

/-- Presentation never changes what a run does: command lines for one task and one settings file end
alike and leave the same disk, whatever they say about output. And the totals that validation tells
people are those that it reports to other programs. -/
theorem run_presentation (hparse : CommandLine.parse env.vars arguments = .ok cl)
    (hparse' : CommandLine.parse env.vars arguments' = .ok cl')
    (hconfig : cl'.config = cl.config) (htask : cl'.task = cl.task) (terminal terminal' : Bool) :
    (run arguments' env terminal' d).exitCode = (run arguments env terminal d).exitCode ∧
    (run arguments' env terminal' d).disk = (run arguments env terminal d).disk ∧
    ∀ s root suffix, (Settings.load d env cl.config).2 = .ok s → cl.task = .validate root suffix →
      cl.output.getD s.output.format = .human → cl.quiet = false →
      cl'.output.getD s.output.format ≠ .human →
      (run arguments env terminal d).output = "" ∧ (run arguments' env terminal' d).output = "" ∨
      ∃ valid total, ∀ v t,
        (TellsTotals (consoleOf cl terminal s) (run arguments env terminal d).output v t ↔
          v = valid ∧ t = total) ∧
        (ReportsTotals (consoleOf cl' terminal' s) (run arguments' env terminal' d).output v t ↔
          v = valid ∧ t = total) := by
  cases hs : (Settings.load d env cl.config).2 with
  | error e =>
    obtain ⟨hcode, -, hdisk⟩ := runs_of_settings_error hparse hs terminal
    obtain ⟨hcode', -, hdisk'⟩ := runs_of_settings_error hparse' (hconfig ▸ hs) terminal'
    refine ⟨hcode'.trans hcode.symm, hdisk'.trans hdisk.symm, ?_⟩
    intro s root suffix h
    cases h
  | ok s =>
    obtain ⟨hcode, hout, hdisk⟩ := runs_of_settings hparse hs terminal
    obtain ⟨hcode', hout', hdisk'⟩ := runs_of_settings hparse' (hconfig ▸ hs) terminal'
    obtain ⟨hsame, hleft⟩ := answer_congr (s := s) (d := d) htask terminal terminal'
    refine ⟨by rw [hcode, hcode', hsame], by rw [hdisk, hdisk', hleft], ?_⟩
    intro s' root suffix h ht hhuman hquiet hmachine
    cases h
    rw [hout, hout', answer_validate ht, answer_validate (htask.trans ht)]
    exact totals_run_validate (decide_eq_true hhuman) hquiet (decide_eq_false hmachine) _ _

end Command

theorem Kiosk.presented :
    (Command.run ["-o", "json", "validate", "o", "--suffix", ".json"] bare true disk).exitCode =
      (Command.run ["-v", "validate", "o", "--suffix", ".json"] bare false disk).exitCode ∧
    ∃ valid total,
      Command.TellsTotals (Command.consoleOf forPeople false .standard)
        (Command.run ["-v", "validate", "o", "--suffix", ".json"] bare false disk).output valid
          total ∧
      Command.ReportsTotals (Command.consoleOf forPrograms true .standard)
        (Command.run ["-o", "json", "validate", "o", "--suffix", ".json"] bare true disk).output
          valid total := by
  have hsettings : (Settings.load disk bare none).2 = .ok .standard := by decide +kernel
  have hout : (Command.run ["-v", "validate", "o", "--suffix", ".json"] bare false disk).output ≠
      "" := by decide +kernel
  obtain ⟨hcode, -, htotals⟩ := Command.run_presentation (d := disk) parse_forPeople
    parse_forPrograms rfl rfl false true
  refine ⟨hcode, ?_⟩
  rcases htotals _ _ _ hsettings rfl rfl rfl (by decide) with ⟨hempty, -⟩ | ⟨valid, total, h⟩
  · exact absurd hempty hout
  · exact ⟨valid, total, (h valid total).1.2 ⟨rfl, rfl⟩, (h valid total).2.2 ⟨rfl, rfl⟩⟩

end Schemata
