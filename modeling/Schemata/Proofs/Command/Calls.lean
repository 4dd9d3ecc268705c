import Schemata.Proofs.Command.Runs
import Schemata.Proofs.Schema.Discovery
import Schemata.Proofs.Settings.Search

/-!
# What a run asks for

A run hands its settings on in two places: to discovery, with the ending of schema files, and to the
writer of the site, with the name of the catalog. A `Plan` is a run that stops at each of these
calls and goes on with the answer, so that the calls can be told. Settings are checked where they
are loaded and not where they are handed on: an ending that the command line gives comes in
unchecked.
-/

namespace Schemata

/-- What is done up to the next call, and behind it with its answer. -/
inductive Plan (α : Type) where
  | done (result : α)
  | discover (root : FilePath) (suffix : String)
    (next : Except DiscoveryError (List FilePath) → Plan α)
  | write (options : SiteOptions) (out : FilePath) (ss : List Schema)
    (next : Except SiteError SiteReport × Disk → Plan α)

inductive Call where
  | discover (root : FilePath) (suffix : String)
  | write (options : SiteOptions) (out : FilePath)

/-- The settings that are handed on are none that loading rejects. -/
def Call.Usable : Call → Prop
  | discover _ suffix => suffix ≠ ""
  | write options _ => options.catalogFile ≠ ""

namespace Plan

variable {α β : Type} {d : Disk}

def eval (d : Disk) : Plan α → α
  | done result => result
  | discover root suffix next => (next (d.discover root suffix)).eval d
  | write options out ss next => (next (writeSite options out ss d)).eval d

def calls (d : Disk) : Plan α → List Call
  | done _ => []
  | discover root suffix next => .discover root suffix :: (next (d.discover root suffix)).calls d
  | write options out ss next => .write options out :: (next (writeSite options out ss d)).calls d

def map (f : α → β) : Plan α → Plan β
  | done result => done (f result)
  | discover root suffix next => discover root suffix fun found => (next found).map f
  | write options out ss next => write options out ss fun written => (next written).map f

theorem eval_map (f : α → β) (p : Plan α) : (p.map f).eval d = f (p.eval d) := by
  induction p with
  | done result => rfl
  | discover root suffix next ih => exact ih _
  | write options out ss next ih => exact ih _

theorem calls_map (f : α → β) (p : Plan α) : (p.map f).calls d = p.calls d := by
  induction p with
  | done result => rfl
  | discover root suffix next ih => exact congrArg (List.cons _) (ih _)
  | write options out ss next ih => exact congrArg (List.cons _) (ih _)

end Plan

namespace Validate

variable (s : Settings) (c : Console) (root : FilePath) (suffix : String) (d : Disk)

def plan : Plan TaskResult :=
  .discover root suffix fun
    | .error e => .done ⟨"", .error (.discovery e), d⟩
    | .ok ps =>
      let notice :=
        if ps.isEmpty then
          c.warning ("No files ending in '" ++ suffix ++ "' found under " ++ root.text)
        else ""
      let rs := validateFiles draft07 d (s.validation root) ps
      .done ⟨notice ++ if c.isHuman then summaryLines c rs else c.data (reportTree rs), result rs,
        d⟩

theorem eval_plan : (plan s c root suffix d).eval d = run s c root suffix d := by
  rw [plan, Plan.eval, run]
  cases d.discover root suffix <;> rfl

theorem calls_plan : (plan s c root suffix d).calls d = [.discover root suffix] := by
  rw [plan, Plan.calls]
  cases d.discover root suffix <;> rfl

end Validate

namespace Docs

variable (s : Settings) (c : Console) (root out : FilePath) (suffix : String) (d : Disk)

def plan : Plan TaskResult :=
  let start := c.info "Generating schema documentation..."
  .discover root suffix fun
    | .error e => .done ⟨start, .error (.discovery e), d⟩
    | .ok ps =>
      let (ss, skipped) := loadAll d root ps
      let printed := start ++ String.join (skipped.map fun k => c.error ("  ✖ " ++ k.cause.message))
      .write s.site out ss fun
        | (.error e, d) => .done ⟨printed, .error (.site e), d⟩
        | (.ok r, d) =>
          .done ⟨printed ++ if c.isHuman then humanLines c out r
            else c.data (reportTree out r skipped), result skipped, d⟩

theorem eval_plan : (plan s c root out suffix d).eval d = run s c root out suffix d := by
  rw [plan, run]
  simp only [Plan.eval]
  cases d.discover root suffix with
  | error e => rfl
  | ok ps =>
    simp only [Plan.eval]
    rcases writeSite s.site out (loadAll d root ps).1 d with ⟨e | r, d'⟩ <;> rfl

/-- The site is written if the root can be searched. -/
theorem calls_plan : (plan s c root out suffix d).calls d =
    .discover root suffix ::
      match d.discover root suffix with
      | .error _ => []
      | .ok _ => [.write s.site out] := by
  rw [plan, Plan.calls]
  cases d.discover root suffix with
  | error e => rfl
  | ok ps =>
    simp only [Plan.calls]
    rcases writeSite s.site out (loadAll d root ps).1 d with ⟨e | r, d'⟩ <;> rfl

end Docs

def Task.suffix? : Task → Option String
  | validate _ suffix => suffix
  | docs _ _ suffix => suffix
  | completions _ => none

namespace Command

variable {cl : CommandLine} {env : Environment} {terminal : Bool} {arguments : List String}
  {d : Disk}
  {s : Settings}

def taskPlan (s : Settings) (c : Console) (d : Disk) : Task → Plan TaskResult
  | .validate root suffix => Validate.plan s c (root.getD s.paths.ontologyDir) (s.suffix suffix) d
  | .docs root out suffix =>
    Docs.plan s c (root.getD s.paths.ontologyDir) (out.getD s.paths.docsDir) (s.suffix suffix) d
  | .completions _ => .done ⟨completionWords, .ok (), d⟩

def conclude (cl : CommandLine) (env : Environment) (terminal : Bool) (d : Disk) (s : Settings)
    (answer : TaskResult) : Outcome :=
  let color := !cl.noColor && terminal && s.output.color
  let warnings := lines ((Settings.load d env cl.config).1.map Settings.Rejected.message)
    ++ lines (loggingWarnings cl env.vars s)
  match answer.result with
  | .ok () => ⟨0, answer.printed, warnings, answer.disk⟩
  | .error e => ⟨e.exitCode, answer.printed, warnings ++ e.report color, answer.disk⟩

/-- A run that stops at its calls; without a command line or without settings there are none. -/
def plan (arguments : List String) (env : Environment) (terminal : Bool) (d : Disk) :
    Plan Outcome :=
  match CommandLine.parse env.vars arguments with
  | .error m => .done (ofMisuse m d)
  | .ok cl =>
    match (Settings.load d env cl.config).2 with
    | .error _ => .done (carryOut cl env terminal d)
    | .ok s => (taskPlan s (consoleOf cl terminal s) d cl.task).map (conclude cl env terminal d s)

theorem eval_taskPlan (s : Settings) (c : Console) (d : Disk) (t : Task) :
    (taskPlan s c d t).eval d = runTask s c d t := by
  cases t with
  | validate root suffix => exact Validate.eval_plan _ _ _ _ _
  | docs root out suffix => exact Docs.eval_plan _ _ _ _ _ _
  | completions shell => rfl

theorem eval_plan (arguments : List String) (env : Environment) (terminal : Bool) (d : Disk) :
    (plan arguments env terminal d).eval d = run arguments env terminal d := by
  unfold plan run
  cases CommandLine.parse env.vars arguments with
  | error m => rfl
  | ok cl =>
    simp only
    cases hs : (Settings.load d env cl.config).2 with
    | error e => rfl
    | ok s =>
      simp only [carryOut, hs]
      rw [Plan.eval_map, eval_taskPlan]
      rfl

theorem calls_plan_of_settings (hparse : CommandLine.parse env.vars arguments = .ok cl)
    (hs : (Settings.load d env cl.config).2 = .ok s) (terminal : Bool) :
    (plan arguments env terminal d).calls d =
      (taskPlan s (consoleOf cl terminal s) d cl.task).calls d := by
  rw [plan, hparse]
  simp only [hs]
  exact Plan.calls_map _ _

/-- Calls are made with settings that could be loaded. -/
theorem exists_of_mem_calls {call : Call} (h : call ∈ (plan arguments env terminal d).calls d) :
    ∃ cl s, CommandLine.parse env.vars arguments = .ok cl ∧
      (Settings.load d env cl.config).2 = .ok s ∧
      call ∈ (taskPlan s (consoleOf cl terminal s) d cl.task).calls d := by
  cases hparse : CommandLine.parse env.vars arguments with
  | error m =>
    rw [plan, hparse] at h
    cases h
  | ok cl =>
    cases hs : (Settings.load d env cl.config).2 with
    | error e =>
      rw [plan, hparse] at h
      simp only [hs] at h
      cases h
    | ok s =>
      rw [calls_plan_of_settings hparse hs] at h
      exact ⟨cl, s, rfl, hs, h⟩

/-- The ending comes from the command line or the settings, and the catalog from the settings. -/
theorem mem_calls_taskPlan {c : Console} {t : Task} {call : Call}
    (h : call ∈ (taskPlan s c d t).calls d) :
    (∃ root, call = .discover root (s.suffix t.suffix?)) ∨ ∃ out, call = .write s.site out := by
  cases t with
  | validate root suffix =>
    rw [taskPlan, Validate.calls_plan, List.mem_singleton] at h
    exact .inl ⟨_, h⟩
  | docs root out suffix =>
    rw [taskPlan, Docs.calls_plan, List.mem_cons] at h
    rcases h with h | h
    · exact .inl ⟨_, h⟩
    · split at h
      · cases h
      · exact .inr ⟨_, List.mem_singleton.1 h⟩
  | completions shell => cases h

theorem discover_mem_calls_taskPlan {t : Task} {suffix : String} (h : t.suffix? = some suffix)
    (s : Settings) (c : Console) (d : Disk) :
    ∃ root, .discover root suffix ∈ (taskPlan s c d t).calls d := by
  cases t with
  | validate root given =>
    rw [taskPlan, Validate.calls_plan, show given = some suffix from h]
    exact ⟨_, List.mem_cons_self⟩
  | docs root out given =>
    rw [taskPlan, Docs.calls_plan, show given = some suffix from h]
    exact ⟨_, List.mem_cons_self⟩
  | completions shell => cases h

theorem usable_of_mem_calls_taskPlan {c : Console} {t : Task} {call : Call} (hs : s.Usable)
    (ht : t.suffix? ≠ some "") (h : call ∈ (taskPlan s c d t).calls d) : call.Usable := by
  rcases mem_calls_taskPlan h with ⟨root, rfl⟩ | ⟨out, rfl⟩
  · cases hgiven : t.suffix? with
    | none => exact hs.suffix
    | some suffix =>
      rintro rfl
      exact ht hgiven
  · exact hs.catalogFile

/-- No run hands on a setting that loading rejects, wherever its settings come from, unless the
command line itself gives an empty ending: that one goes to discovery unchecked. The name of the
catalog is never empty. -/
theorem run_calls_usable (arguments : List String) (env : Environment) (terminal : Bool)
    (d : Disk) :
    (plan arguments env terminal d).eval d = run arguments env terminal d ∧
    (∀ options out, .write options out ∈ (plan arguments env terminal d).calls d →
      options.catalogFile ≠ "") ∧
    ((∀ call ∈ (plan arguments env terminal d).calls d, call.Usable) ↔
      ∀ cl s, CommandLine.parse env.vars arguments = .ok cl →
        (Settings.load d env cl.config).2 = .ok s → cl.task.suffix? ≠ some "") := by
  refine ⟨eval_plan _ _ _ _, ?_, ?_, ?_⟩
  · intro options out h
    obtain ⟨cl, s, -, hs, h⟩ := exists_of_mem_calls h
    rcases mem_calls_taskPlan h with ⟨root, h⟩ | ⟨out, h⟩
    · cases h
    · cases h
      exact (Settings.usable_of_load hs).catalogFile
  · intro h cl s hparse hs hempty
    obtain ⟨root, hmem⟩ := discover_mem_calls_taskPlan hempty s (consoleOf cl terminal s) d
    rw [← calls_plan_of_settings hparse hs] at hmem
    exact h _ hmem rfl
  · intro h call hcall
    obtain ⟨cl, s, hparse, hs, hmem⟩ := exists_of_mem_calls hcall
    exact usable_of_mem_calls_taskPlan (Settings.usable_of_load hs) (h cl s hparse hs) hmem

end Command

def Stall.disk : Disk := ⟨[(["o"], .directory), (["o", "notes.txt"], .file (.text "x"))], []⟩

theorem Stall.calls_usable :
    (Command.plan ["docs", "o", "--out", "x"] (.ofVariables [] none) false disk).calls disk =
      [.discover ⟨"o"⟩ ".schema.yaml", .write Settings.standard.site ⟨"x"⟩] ∧
    ∀ call ∈ (Command.plan ["docs", "o", "--out", "x"] (.ofVariables [] none) false disk).calls disk,
      call.Usable := by
  have hparse : CommandLine.parse [] ["docs", "o", "--out", "x"] =
      .ok ⟨0, false, none, none, false, .docs (some ⟨"o"⟩) (some ⟨"x"⟩) none⟩ := by decide +kernel
  have hsettings : (Settings.load disk (.ofVariables [] none) none).2 = .ok .standard := by
    decide +kernel
  have hfound : (disk.discover ⟨"o"⟩ ".schema.yaml").isOk := by decide +kernel
  constructor
  · rw [Command.calls_plan_of_settings hparse hsettings]
    refine (Docs.calls_plan _ _ _ _ _ _).trans (congrArg (List.cons _) ?_)
    change (match disk.discover ⟨"o"⟩ ".schema.yaml" with
      | .error _ => []
      | .ok _ => [Call.write Settings.standard.site ⟨"x"⟩]) = _
    split
    · rename_i e he
      rw [he] at hfound
      cases hfound
    · rfl
  · refine (Command.run_calls_usable _ (.ofVariables [] none) false disk).2.2.2
      fun cl s hcl _ hempty => ?_
    obtain rfl := Except.ok.inj (hparse.symm.trans hcl)
    cases hempty

/-- An empty ending is accepted, handed on, and every file has it. -/
theorem Stall.empty_suffix :
    (Command.plan ["validate", "o", "--suffix="] (.ofVariables [] none) false disk).calls disk =
      [.discover ⟨"o"⟩ ""] ∧
    ¬ (Call.discover ⟨"o"⟩ "").Usable ∧ disk.discover ⟨"o"⟩ "" = .ok [⟨"o/notes.txt"⟩] := by
  have hparse : CommandLine.parse [] ["validate", "o", "--suffix="] =
      .ok ⟨0, false, none, none, false, .validate (some ⟨"o"⟩) (some "")⟩ := by decide +kernel
  have hsettings : (Settings.load disk (.ofVariables [] none) none).2 = .ok .standard := by
    decide +kernel
  have hroot : disk.find ⟨"o"⟩ true = .ok (["o"], .directory) := by decide +kernel
  refine ⟨?_, fun h => h rfl, ?_⟩
  · rw [Command.calls_plan_of_settings hparse hsettings]
    exact Validate.calls_plan _ _ _ _ _
  · exact Disk.discover_of_sorted hroot (by decide +kernel) (by decide +kernel)

end Schemata
