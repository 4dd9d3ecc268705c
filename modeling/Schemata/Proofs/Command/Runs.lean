import Mathlib.Tactic.Common
import Schemata.Command.Run

/-!
# How a run ends

Each command ends in one of few ways, which are listed here once. A run without settings ends before
its command; every other run prints what its command prints and leaves the disk that it leaves.
-/

namespace Schemata

def TaskResult.exitCode (t : TaskResult) : Nat :=
  match t.result with
  | .ok () => 0
  | .error e => e.exitCode

namespace Console

variable {c : Console} {text : String}

theorem human_eq_empty (h : c.isHuman = false) : c.human text = "" := by
  rw [human, h]
  rfl

theorem chatter_eq_empty (h : c.isHuman = false) : c.chatter text = "" := by
  rw [chatter, human_eq_empty h, ite_self]

theorem info_eq_empty (h : c.isHuman = false) : c.info text = "" := chatter_eq_empty h

theorem warning_eq_empty (h : c.isHuman = false) : c.warning text = "" := human_eq_empty h

theorem error_eq_empty (h : c.isHuman = false) : c.error text = "" := human_eq_empty h

theorem data_ne_empty (c : Console) (t : Tree) : c.data t ≠ "" := by
  unfold data
  dsimp only
  split
  · rename_i h
    rintro he
    rw [he] at h
    exact absurd h (by decide +kernel)
  · simp [line]

end Console

theorem join_map_empty {α : Type} (l : List α) : String.join (l.map fun _ => "") = "" := by
  induction l with
  | nil => rfl
  | cons x l ih => rw [List.map_cons, String.join_cons, ih, String.empty_append]

namespace Failure

/-- A run fails with exit code 1 only over what the schema files hold. -/
theorem exitCode_le_one_iff {e : Failure} : e.exitCode ≤ 1 ↔
    (∃ failed total, e = .invalid failed total) ∨ ∃ ps, e = .skipped ps := by
  rcases e with ((cause | e | e | - | -) | e | e | ⟨failed, total⟩ | ps) <;> simp [exitCode]

end Failure

namespace Validate

variable {s : Settings} {c : Console} {root : FilePath} {suffix : String} {d : Disk}

/-- Nothing is validated, or all files that are found. -/
theorem run_cases (s : Settings) (c : Console) (root : FilePath) (suffix : String) (d : Disk) :
    (∃ e, d.discover root suffix = .error e ∧
      run s c root suffix d = ⟨"", .error (.discovery e), d⟩) ∨
    ∃ ps rs notice, d.discover root suffix = .ok ps ∧
      rs = validateFiles draft07 d (s.validation root) ps ∧
      (c.isHuman = false → notice = "") ∧
      run s c root suffix d =
        ⟨notice ++ if c.isHuman then summaryLines c rs else c.data (reportTree rs), result rs,
          d⟩ := by
  unfold run
  cases d.discover root suffix with
  | error e => exact .inl ⟨e, rfl, rfl⟩
  | ok ps =>
    refine .inr ⟨ps, _, _, rfl, rfl, fun hc => ?_, rfl⟩
    rw [Console.warning_eq_empty hc, ite_self]

end Validate

namespace Docs

/-- Nothing is written, the site could not be written, or it is complete. -/
theorem run_cases (s : Settings) (c : Console) (root out : FilePath) (suffix : String) (d : Disk) :
    ∃ notices, (c.isHuman = false → notices = "") ∧
      ((∃ e, d.discover root suffix = .error e ∧
        run s c root out suffix d = ⟨notices, .error (.discovery e), d⟩) ∨
      ∃ ps, d.discover root suffix = .ok ps ∧
        ((∃ e d', writeSite s.site out (loadAll d root ps).1 d = (.error e, d') ∧
          run s c root out suffix d = ⟨notices, .error (.site e), d'⟩) ∨
        ∃ r d', writeSite s.site out (loadAll d root ps).1 d = (.ok r, d') ∧
          run s c root out suffix d =
            ⟨notices ++ if c.isHuman then humanLines c out r
              else c.data (reportTree out r (loadAll d root ps).2),
              result (loadAll d root ps).2, d'⟩)) := by
  unfold run
  cases d.discover root suffix with
  | error e => exact ⟨_, Console.info_eq_empty, .inl ⟨e, rfl, rfl⟩⟩
  | ok ps =>
    have silent (hc : c.isHuman = false) : c.info "Generating schema documentation..." ++
        String.join ((loadAll d root ps).2.map fun k => c.error ("  ✖ " ++ k.cause.message)) =
          "" := by
      simp only [Console.info_eq_empty hc, Console.error_eq_empty hc, join_map_empty]
      rfl
    refine ⟨_, silent, .inr ⟨ps, rfl, ?_⟩⟩
    dsimp only
    split
    · rename_i e d' hw
      exact .inl ⟨e, d', hw, rfl⟩
    · rename_i r d' hw
      exact .inr ⟨r, d', hw, rfl⟩

theorem run_of_written {s : Settings} {root out : FilePath} {suffix : String} {d d' : Disk}
    {ps : List FilePath} {r : SiteReport} (hfound : d.discover root suffix = .ok ps)
    (hwrite : writeSite s.site out (loadAll d root ps).1 d = (.ok r, d')) (c : Console) :
    ∃ notices, (c.isHuman = false → notices = "") ∧ run s c root out suffix d =
      ⟨notices ++ if c.isHuman then humanLines c out r
        else c.data (reportTree out r (loadAll d root ps).2), result (loadAll d root ps).2,
        d'⟩ := by
  obtain ⟨notices, hsilent, ⟨e, hlost, -⟩ | ⟨qs, hqs, hways⟩⟩ := run_cases s c root out suffix d
  · rw [hfound] at hlost
    cases hlost
  · obtain rfl : ps = qs := Except.ok.inj (hfound.symm.trans hqs)
    rw [hwrite] at hways
    obtain ⟨e, d'', hfailed, -⟩ | ⟨r', d'', hdone, hrun⟩ := hways
    · cases hfailed
    · cases hdone
      exact ⟨notices, hsilent, hrun⟩

end Docs

namespace Command

variable {cl : CommandLine} {env : Environment} {terminal : Bool} {arguments : List String}
  {d : Disk} {s : Settings} {e : SettingsError}

def consoleOf (cl : CommandLine) (terminal : Bool) (s : Settings) : Console :=
  console cl s (!cl.noColor && terminal && s.output.color)

def answer (cl : CommandLine) (terminal : Bool) (s : Settings) (d : Disk) : TaskResult :=
  runTask s (consoleOf cl terminal s) d cl.task

theorem answer_validate {root : Option FilePath} {suffix : Option String}
    (h : cl.task = .validate root suffix) : answer cl terminal s d =
      Validate.run s (consoleOf cl terminal s) (root.getD s.paths.ontologyDir) (s.suffix suffix)
        d := by
  rw [answer, h]
  rfl

theorem answer_docs {root out : Option FilePath} {suffix : Option String}
    (h : cl.task = .docs root out suffix) : answer cl terminal s d =
      Docs.run s (consoleOf cl terminal s) (root.getD s.paths.ontologyDir)
        (out.getD s.paths.docsDir) (s.suffix suffix) d := by
  rw [answer, h]
  rfl

theorem runs_of_settings_error (hp : CommandLine.parse env.vars arguments = .ok cl)
    (hs : (Settings.load d env cl.config).2 = .error e) (terminal : Bool) :
    (run arguments env terminal d).exitCode = (Failure.settings e).exitCode ∧
    (run arguments env terminal d).output = "" ∧ (run arguments env terminal d).disk = d := by
  rw [run, hp]
  simp only [carryOut, hs, and_self]

theorem runs_of_settings (hp : CommandLine.parse env.vars arguments = .ok cl)
    (hs : (Settings.load d env cl.config).2 = .ok s) (terminal : Bool) :
    (run arguments env terminal d).exitCode = (answer cl terminal s d).exitCode ∧
    (run arguments env terminal d).output = (answer cl terminal s d).printed ∧
    (run arguments env terminal d).disk = (answer cl terminal s d).disk := by
  rw [run, hp]
  simp only [carryOut, hs, answer, consoleOf, TaskResult.exitCode]
  split <;> simp_all

theorem errors_of_settings (hp : CommandLine.parse env.vars arguments = .ok cl)
    (hs : (Settings.load d env cl.config).2 = .ok s) {failure : Failure}
    (hanswer : (answer cl terminal s d).result = .error failure) :
    ∃ warnings, (run arguments env terminal d).errors =
      warnings ++ failure.report (consoleOf cl terminal s).color := by
  rw [run, hp]
  unfold answer consoleOf at hanswer
  simp only [carryOut, hs, hanswer, consoleOf]
  exact ⟨_, rfl⟩

end Command

end Schemata
