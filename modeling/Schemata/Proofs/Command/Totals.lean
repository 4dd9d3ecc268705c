import Schemata.Proofs.Command.Reports

/-!
# Totals

The totals of a validation are told people in the line before the verdict, and programs in the first
two entries of the report. Either text has one number of valid files and one of files at most.
-/

namespace Schemata

variable {c : Console} {text : String} {valid valid' total total' : Nat}

namespace Command

def ReportsTotals (c : Console) (text : String) (valid total : Nat) : Prop :=
  ∃ reports, text = c.data
    (.mapping [("valid", .int valid), ("total", .int total), ("reports", .list reports)])

def totalsText (valid total : Nat) : String :=
  toString valid ++ "/" ++ toString total ++ " schemas valid"

/-- The text tells people the totals, in a line of its own before the verdict. -/
def TellsTotals (c : Console) (text : String) (valid total : Nat) : Prop :=
  ∃ above verdict, (above = "" ∨ ∃ lines, above = Console.line lines) ∧
    text = above ++ Console.line (c.painted .bold (totalsText valid total)) ++ verdict ∧
    (verdict = c.error "Schema validation FAILED." ∨
      verdict = c.success "All schemas validated successfully.")

/-- A text of trees has the totals of a report at its beginning, each between texts that do not
depend on them. -/
def SetsTotals (text : Tree → List Char) : Prop :=
  ∃ before stop between, stop.isDigit = false ∧
    ∀ (valid total : Nat) (reports : List Tree), ∃ more, text (.mapping
      [("valid", .int valid), ("total", .int total), ("reports", .list reports)]) =
        before ++ (Nat.toDigits 10 valid ++ stop :: (between ++
          (Nat.toDigits 10 total ++ stop :: more)))

theorem setsTotals_json {σ : Json.Spacing} {text : Nat → Tree → List Char} (hσ : σ.Spaces text)
    (hint : ∀ d (n : Nat), text d (.int n) = Nat.toDigits 10 n) : SetsTotals (text 0) := by
  refine ⟨'\x7b' :: (σ.line 1 ++ ((quoted "valid").toList ++ ':' :: σ.colon)), ',',
    σ.line 1 ++ ((quoted "total").toList ++ ':' :: σ.colon), rfl, fun valid total reports =>
      ⟨σ.members 0 '\x7d' true [σ.entry "reports" (text 1 (.list reports))], ?_⟩⟩
  rw [hσ.mapping]
  simp only [List.map_cons, List.map_nil, Json.Spacing.members, Json.Spacing.entry, hint, if_true,
    List.nil_append, List.append_assoc, List.cons_append, Bool.false_eq_true, if_false]

theorem setsTotals_yaml : SetsTotals (Yaml.Block.nodeText · 0) := by
  have hnumber (n : Nat) : Yaml.Block.nodeText (.int n) 2 = Nat.toDigits 10 n ++ ['\n'] := by
    have hint : ((Number.int n).text .block).toList = Nat.toDigits 10 n := Json.toList_compact_int n
    rw [Yaml.Block.nodeText, Tree.int, Yaml.Block.lines, hint]
    simp
  have hentry (key : String) (hkey : Yaml.Block.isSimpleKey key) : ∃ before, ∀ n : Nat,
      Yaml.Block.entryText 0 (key, .int n) = before ++ (Nat.toDigits 10 n ++ ['\n']) := by
    obtain ⟨a, -, -, htext⟩ := Yaml.Block.entryText_simple hkey
    refine ⟨a.text 0 ++ [':', ' '], fun n => ?_⟩
    rw [htext 0 0, Yaml.Block.valueText_scalar rfl, hnumber, List.append_assoc]
    rfl
  obtain ⟨before, hvalid⟩ := hentry "valid" (by decide)
  obtain ⟨between, htotal⟩ := hentry "total" (by decide)
  refine ⟨before, '\n', between, rfl, fun valid total reports =>
    ⟨Yaml.Block.entries 0 [("reports", .list reports)], ?_⟩⟩
  have htext := Yaml.Block.mapping_append 0 ("valid", Tree.int valid)
    [("total", Tree.int total), ("reports", Tree.list reports)] []
  rw [List.append_nil, Yaml.Block.entries_cons, hvalid, htotal, List.append_nil] at htext
  refine htext.trans ?_
  simp [Yaml.Block.margin]

theorem setsTotals_render (f : OutputFormat) : SetsTotals fun t => (f.render t).toList := by
  cases f with
  | json =>
    have hcompact := setsTotals_json Json.Spacing.spaces_compact fun _ => Json.toList_compact_int
    exact hcompact
  | human | jsonPretty =>
    have hint (d n : Nat) : ((Tree.int n).indentedAt d).toList = Nat.toDigits 10 n := by
      rw [Tree.int, Tree.indentedAt]
      exact Json.toList_compact_int n
    have hindented := setsTotals_json Json.Spacing.spaces_indentedAt hint
    exact hindented
  | yaml =>
    obtain ⟨before, stop, between, hstop, htotals⟩ := setsTotals_yaml
    refine ⟨before, stop, between, hstop, fun valid total reports => ?_⟩
    obtain ⟨more, hmore⟩ := htotals valid total reports
    exact ⟨more, String.toList_ofList.trans hmore⟩

theorem reportsTotals_inj (h : ReportsTotals c text valid total)
    (h' : ReportsTotals c text valid' total') : valid = valid' ∧ total = total' := by
  obtain ⟨reports, rfl⟩ := h
  obtain ⟨reports', htext⟩ := h'
  obtain ⟨before, stop, between, hstop, htotals⟩ := setsTotals_render c.format
  -- the text of a report goes on behind it with the end of its line at most
  have hdata (valid total : Nat) (reports : List Tree) : ∃ more, (c.data (.mapping
      [("valid", .int valid), ("total", .int total), ("reports", .list reports)])).toList =
        before ++ (Nat.toDigits 10 valid ++ stop :: (between ++
          (Nat.toDigits 10 total ++ stop :: more))) := by
    obtain ⟨more, hmore⟩ := htotals valid total reports
    dsimp only at hmore
    unfold Console.data
    dsimp only
    split
    · exact ⟨more, hmore⟩
    · refine ⟨more ++ ['\n'], ?_⟩
      rw [Console.line, String.toList_append, hmore]
      simp
  obtain ⟨more, hmore⟩ := hdata valid total reports
  obtain ⟨more', hmore'⟩ := hdata valid' total' reports'
  rw [htext, hmore', List.append_cancel_left_eq] at hmore
  obtain ⟨rfl, hrest⟩ := toDigits_inj hstop hstop hmore
  rw [List.cons_inj_right, List.append_cancel_left_eq] at hrest
  exact ⟨rfl, (toDigits_inj hstop hstop hrest).1.symm⟩

end Command

namespace Style

theorem resumed_of_notMem {start cs : List Char} (h : '\x1b' ∉ cs) : resumed start cs = cs := by
  induction cs with
  | nil => rfl
  | cons c cs ih =>
    rw [List.mem_cons, not_or] at h
    unfold resumed
    split
    · rename_i he
      cases he
    · rename_i he
      exact absurd (List.cons.inj he).1.symm h.1
    · rename_i he
      obtain ⟨rfl, rfl⟩ := List.cons.inj he
      rw [ih h.2]

end Style

/-- A style adds a text before and one behind, on the same line. -/
theorem Console.painted_eq (c : Console) (s : Style) : ∃ before after : String,
    '\n' ∉ before.toList ∧ '\n' ∉ after.toList ∧
      ∀ text : String, '\x1b' ∉ text.toList → c.painted s text = before ++ text ++ after := by
  cases hcolor : c.color with
  | false => exact ⟨"", "", by decide, by decide, fun text _ => by simp [painted, hcolor]⟩
  | true =>
    refine ⟨s.start, Style.stop, by cases s <;> decide, by decide, fun text htext => ?_⟩
    rw [painted, hcolor, if_pos rfl, Style.paint, Style.resumed_of_notMem htext,
      String.ofList_toList]

def lastLine (cs : List Char) : List Char := (cs.reverse.takeWhile (· ≠ '\n')).reverse

theorem lastLine_append {above line : List Char} (habove : above = [] ∨ ∃ x, above = x ++ ['\n'])
    (hline : '\n' ∉ line) : lastLine (above ++ line) = line := by
  have hall : ∀ c ∈ line.reverse, decide (c ≠ '\n') = true := by
    intro c hc
    rw [List.mem_reverse] at hc
    exact decide_eq_true fun he => hline (he ▸ hc)
  rw [lastLine, List.reverse_append, List.takeWhile_append_of_pos hall]
  rcases habove with rfl | ⟨x, rfl⟩ <;> simp

/-- The last line but one is one line only. -/
theorem line_inj {above above' line line' verdict verdict' : List Char}
    (habove : above = [] ∨ ∃ x, above = x ++ ['\n'])
    (habove' : above' = [] ∨ ∃ x, above' = x ++ ['\n'])
    (hline : '\n' ∉ line) (hline' : '\n' ∉ line')
    (hverdict : '\n' ∉ verdict) (hverdict' : '\n' ∉ verdict')
    (h : above ++ line ++ '\n' :: verdict = above' ++ line' ++ '\n' :: verdict') :
    line = line' := by
  have hreverse : verdict.reverse ++ '\n' :: (above ++ line).reverse =
      verdict'.reverse ++ '\n' :: (above' ++ line').reverse := by
    simpa using congrArg List.reverse h
  have hcut := (cut_inj (by simpa using hverdict) (by simpa using hverdict') hreverse).2
  rw [← lastLine_append habove hline, List.reverse_inj.1 hcut, lastLine_append habove' hline']

namespace Command

theorem toList_totalsText (n m : Nat) : (totalsText n m).toList =
    Nat.toDigits 10 n ++ '/' :: (Nat.toDigits 10 m ++ ' ' :: "schemas valid".toList) := by
  rw [totalsText, Nat.toString_eq_ofList_toDigits, Nat.toString_eq_ofList_toDigits]
  simp

theorem notMem_totalsText {d : Char} (hd : d.isDigit = false)
    (hd' : d ∉ '/' :: ' ' :: "schemas valid".toList) (n m : Nat) : d ∉ (totalsText n m).toList := by
  have hdigits (n : Nat) : d ∉ Nat.toDigits 10 n := fun hmem => ne_of_mem_toDigits hmem hd rfl
  simp only [List.mem_cons, not_or] at hd'
  simp only [toList_totalsText, List.mem_append, List.mem_cons, not_or]
  exact ⟨hdigits n, hd'.1, hdigits m, hd'.2⟩

theorem painted_totalsText (c : Console) : ∃ before after, ∀ n m,
    '\n' ∉ (c.painted .bold (totalsText n m)).toList ∧
      (c.painted .bold (totalsText n m)).toList = before ++ (Nat.toDigits 10 n ++ '/' ::
        (Nat.toDigits 10 m ++ ' ' :: after)) := by
  obtain ⟨before, after, hbefore, hafter, hpainted⟩ := c.painted_eq .bold
  refine ⟨before.toList, "schemas valid".toList ++ after.toList, fun n m => ?_⟩
  rw [hpainted _ (notMem_totalsText (by decide) (by decide) n m), String.toList_append,
    String.toList_append]
  constructor
  · rw [List.mem_append, List.mem_append, not_or, not_or]
    exact ⟨⟨hbefore, notMem_totalsText (by decide) (by decide) n m⟩, hafter⟩
  · rw [toList_totalsText]
    simp only [List.append_assoc, List.cons_append]

theorem human_painted (hc : c.isHuman) (s : Style) (hfeed : '\n' ∉ text.toList)
    (hescape : '\x1b' ∉ text.toList) :
    ∃ line, (c.human (c.painted s text)).toList = line ++ ['\n'] ∧ '\n' ∉ line := by
  obtain ⟨before, after, hbefore, hafter, hpainted⟩ := c.painted_eq s
  refine ⟨(c.painted s text).toList, ?_, ?_⟩
  · rw [Console.human, if_pos hc, Console.line, String.toList_append]
    rfl
  · rw [hpainted text hescape]
    simp [hbefore, hafter, hfeed]

/-- Totals are told in the last line but one. -/
theorem exists_line_of_tellsTotals (hc : c.isHuman) (hquiet : c.quiet = false)
    (h : TellsTotals c text valid total) : ∃ above verdict : List Char,
      text.toList = above ++ (c.painted .bold (totalsText valid total)).toList ++
        '\n' :: verdict ++ ['\n'] ∧
      (above = [] ∨ ∃ x, above = x ++ ['\n']) ∧ '\n' ∉ verdict := by
  obtain ⟨above, verdict, habove, rfl, hverdict⟩ := h
  have hlast : ∃ line : List Char, verdict.toList = line ++ ['\n'] ∧ '\n' ∉ line := by
    rcases hverdict with rfl | rfl
    · exact human_painted hc .red (by decide) (by decide)
    · rw [Console.success, Console.chatter, hquiet, if_neg Bool.false_ne_true]
      exact human_painted hc .green (by decide) (by decide)
  obtain ⟨line, hline, hfeed⟩ := hlast
  refine ⟨above.toList, line, ?_, ?_, hfeed⟩
  · rw [String.toList_append, String.toList_append, hline, Console.line, String.toList_append]
    simp
  · rcases habove with rfl | ⟨x, rfl⟩
    · exact .inl rfl
    · exact .inr ⟨x.toList, by rw [Console.line, String.toList_append]; rfl⟩

theorem tellsTotals_inj (hc : c.isHuman) (hquiet : c.quiet = false)
    (h : TellsTotals c text valid total) (h' : TellsTotals c text valid' total') :
    valid = valid' ∧ total = total' := by
  obtain ⟨above, verdict, htext, habove, hverdict⟩ := exists_line_of_tellsTotals hc hquiet h
  obtain ⟨above', verdict', htext', habove', hverdict'⟩ := exists_line_of_tellsTotals hc hquiet h'
  obtain ⟨before, after, hpainted⟩ := painted_totalsText c
  rw [htext, List.append_cancel_right_eq] at htext'
  have hsame := line_inj habove habove' (hpainted valid total).1 (hpainted valid' total').1
    hverdict hverdict' htext'
  rw [(hpainted valid total).2, (hpainted valid' total').2, List.append_cancel_left_eq] at hsame
  obtain ⟨rfl, hrest⟩ := toDigits_inj (by decide) (by decide) hsame
  exact ⟨rfl, (toDigits_inj (by decide) (by decide) (List.cons.inj hrest).2).1⟩

end Command

end Schemata
