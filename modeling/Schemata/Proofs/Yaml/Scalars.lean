import Schemata.Proofs.Text.Numerals
import Schemata.Proofs.Yaml.Fences

/-!
# Scalars between fences

A number is one line of digits and signs. A string is plain, quoted or literal: only a literal one
has lines of its own, and they are the lines of the string behind a margin, with more of it behind
the other line breaks that it may have. What closes a fence there closes one in the string already.
-/

namespace Schemata

def AllFirm (s : String) : Prop := ∀ c ∈ s.toList, isFirm c

instance (s : String) : Decidable (AllFirm s) :=
  List.decidableBAll (fun c => isFirm c) s.toList

section Numbers

variable {a : String}

theorem allFirm_number (f : FloatFormat) (n : Number) : AllFirm (n.text f) :=
  (allNumeral_number f n).forall (show AllFirm numerals by decide)

theorem AllFirm.line (h : AllFirm a) (hne : a ≠ "") : FirmLine (a.toList ++ ['\n']) := by
  have hlist : a.toList ≠ [] := fun he => hne (String.toList_eq_nil_iff.1 he)
  obtain ⟨c, cs, hcs⟩ := List.exists_cons_of_ne_nil hlist
  rw [AllFirm, hcs, List.forall_mem_cons] at h
  rw [hcs]
  exact .mk c cs h.1 fun hfeed => absurd (h.2 _ hfeed) (by decide)

end Numbers

namespace Yaml.Block

theorem flatten_lead {ls : List (List Char)} (h : ls ≠ []) (text : List Char) :
    (lead text ls).flatten = text ++ ls.flatten := by
  obtain ⟨line, rest, rfl⟩ := List.exists_cons_of_ne_nil h
  simp [lead]

section Strings

variable {s : String} {c : Char} {cs current line : List Char} {indent : Nat}

theorem notMem_of_notBreak (h : cs.any isBreak = false) : '\n' ∉ cs := by
  intro hfeed
  have hbreak : cs.any isBreak = true := List.any_eq_true.2 ⟨'\n', hfeed, by decide⟩
  rw [h] at hbreak
  cases hbreak

/-- A plain string begins with no indicator, so with no backtick, and has one line. -/
theorem firm_plain (hne : s ≠ "") (h : (traits s.toList).admitsPlain) :
    FirmLine (s.toList ++ ['\n']) := by
  have hlist : s.toList ≠ [] := fun he => hne (String.toList_eq_nil_iff.1 he)
  obtain ⟨c, cs, hcs⟩ := List.exists_cons_of_ne_nil hlist
  simp only [Traits.admitsPlain, traits, hcs, Bool.and_eq_true, Bool.not_eq_true'] at h
  obtain ⟨⟨⟨hbreak, hpadded⟩, -⟩, hindicator⟩ := h
  rw [hcs]
  have hfeed := notMem_of_notBreak hbreak
  have hspace : c ≠ ' ' := by
    rintro rfl
    simp [isBlankOrBreak] at hpadded
  have htick : c ≠ '\x60' := by
    rintro rfl
    simp [hasIndicator, isIndicator, startIndicators] at hindicator
  rw [List.mem_cons, not_or] at hfeed
  exact .mk c cs (isFirm_iff.2 ⟨hspace, htick, Ne.symm hfeed.1⟩) hfeed.2

theorem mem_of_mem_linesOf (hline : line ∈ linesOf current cs) (hc : c ∈ line) :
    c ∈ current ∨ c ∈ cs := by
  induction cs generalizing current with
  | nil =>
    unfold linesOf at hline
    split at hline
    · cases hline
    · rw [List.mem_singleton.1 hline, List.mem_reverse] at hc
      exact .inl hc
  | cons d cs ih =>
    unfold linesOf at hline
    split at hline
    · rcases List.mem_cons.1 hline with rfl | hline
      · rw [List.mem_reverse, List.mem_cons] at hc
        exact hc.elim (fun hd => .inr (hd ▸ List.mem_cons_self)) .inl
      · exact (ih hline).elim (fun hnil => by cases hnil) fun hcs => .inr (List.mem_cons_of_mem _ hcs)
    · rcases ih hline with hcurrent | hcs
      · rcases List.mem_cons.1 hcurrent with rfl | hcurrent
        · exact .inr List.mem_cons_self
        · exact .inl hcurrent
      · exact .inr (List.mem_cons_of_mem _ hcs)

theorem notMem_quoted (h : '\n' ∉ cs) : '\n' ∉ cs.flatMap doubleQuotes := by
  intro hfeed
  obtain ⟨d, hd, hfeed⟩ := List.mem_flatMap.1 hfeed
  unfold doubleQuotes at hfeed
  split at hfeed
  · simp at hfeed
  · rw [List.mem_singleton] at hfeed
    exact h (hfeed ▸ hd)

theorem notMem_indentLine (h : '\n' ∉ line) : '\n' ∉ indentLine indent line := by
  unfold indentLine
  split
  · exact h
  · simp [margin, h]

theorem firm_singleQuoted (h : '\n' ∉ cs) : FirmLine (singleQuotedLines indent cs).flatten := by
  have hlines : ∀ line ∈ linesOf [] cs, '\n' ∉ line := by
    intro line hline hfeed
    exact (mem_of_mem_linesOf hline hfeed).elim (fun hnil => by cases hnil) h
  unfold singleQuotedLines
  split
  · exact FirmLine.mk '\'' ['\''] (by decide) (by decide)
  · rename_i first rest hsplit
    rw [hsplit, List.forall_mem_cons] at hlines
    obtain ⟨body, hbody, hquoted⟩ : ∃ body, '\n' ∉ body ∧
        (('\'' :: first.flatMap doubleQuotes) ::
          rest.map fun l => indentLine indent (l.flatMap doubleQuotes)).flatten = '\'' :: body := by
      refine ⟨first.flatMap doubleQuotes ++
        (rest.map fun l => indentLine indent (l.flatMap doubleQuotes)).flatten, ?_, by simp⟩
      rw [List.mem_append, not_or]
      refine ⟨notMem_quoted hlines.1, fun hfeed => ?_⟩
      obtain ⟨_, hline, hfeed⟩ := List.mem_flatten.1 hfeed
      obtain ⟨line, hrest, rfl⟩ := List.mem_map.1 hline
      exact notMem_indentLine (notMem_quoted (hlines.2 line hrest)) hfeed
    dsimp only
    split
    · rw [List.flatten_append, hquoted]
      have hfirm := FirmLine.mk '\'' (body ++ margin indent ++ ['\'']) (by decide)
        (by simp [hbody, margin])
      simpa using hfirm
    · split
      · rename_i hnil
        simp at hnil
      · rename_i last before hreverse
        have hparts := congrArg List.reverse hreverse
        rw [List.reverse_reverse, List.reverse_cons] at hparts
        rw [hparts] at hquoted
        have hfirm := FirmLine.mk '\'' (body ++ ['\'']) (by decide) (by simp [hbody])
        simp only [List.flatten_append, List.flatten_cons, List.flatten_nil, List.append_nil]
          at hquoted ⊢
        rw [← List.append_assoc, hquoted]
        simpa using hfirm

theorem notMem_hexDigits (width n : Nat) : '\n' ∉ hexDigits width n := by
  intro hfeed
  simp only [hexDigits, List.mem_append, List.mem_map] at hfeed
  rcases hfeed with hzero | ⟨d, hd, hupper⟩
  · cases List.eq_of_mem_replicate hzero
  · obtain ⟨k, hk, rfl⟩ := exists_of_mem_toDigits (by decide) hd
    have hdigits : ∀ k < 16, (Nat.digitChar k).toUpper ≠ '\n' := by decide
    exact hdigits k hk hupper

theorem notMem_escape (c : Char) : '\n' ∉ escape c := by
  have hnamed : ∀ e ∈ namedEscapes, e.2 ≠ '\n' := by decide
  intro hfeed
  simp only [escape] at hfeed
  split at hfeed
  · rename_i hplain
    rw [List.mem_singleton] at hfeed
    rw [← hfeed] at hplain
    exact absurd hplain (by decide)
  split at hfeed
  · rename_i e he
    obtain ⟨before, after, hnames, -⟩ := List.lookup_eq_some_iff.1 he
    have hmem : (c.toNat, e) ∈ namedEscapes := by
      rw [hnames]
      simp
    simp only [List.mem_cons, List.not_mem_nil, or_false] at hfeed
    exact hfeed.elim (by decide) fun hlast => hnamed _ hmem hlast.symm
  split at hfeed
  · simp [notMem_hexDigits] at hfeed
  split at hfeed
  · simp [notMem_hexDigits] at hfeed
  · simp [notMem_hexDigits] at hfeed

theorem firm_doubleQuoted (cs : List Char) : FirmLine ('"' :: cs.flatMap escape ++ ['"', '\n']) := by
  have hfirm := FirmLine.mk '"' (cs.flatMap escape ++ ['"']) (by decide)
    (by simp [notMem_escape])
  simpa using hfirm

/-- The text with a margin before each of its lines, except those that hold only their break;
`fresh` tells that a line begins here. -/
def spread (indent : Nat) : (fresh : Bool) → List Char → List Char
  | _, [] => []
  | fresh, c :: cs =>
    (if fresh && !isBreak c then margin indent else []) ++ c :: spread indent (isBreak c) cs

theorem indentLine_append (indent : Nat) (hcurrent : ∀ c ∈ current, isBreak c = false)
    (h : current ≠ []) (rest : List Char) :
    indentLine indent (current.reverse ++ rest) = margin indent ++ current.reverse ++ rest := by
  obtain ⟨d, ds, hd⟩ := List.exists_cons_of_ne_nil (mt List.reverse_eq_nil_iff.1 h)
  have hbreak : isBreak d = false := hcurrent d (List.mem_reverse.1 (hd ▸ List.mem_cons_self))
  simp [indentLine, hd, hbreak]

def ending (cs : List Char) : List Char := if cs.getLast?.all isBreak then [] else ['\n']

theorem ending_append (hc : isBreak c) (before cs : List Char) :
    ending (before ++ c :: cs) = ending cs := by
  unfold ending
  rw [List.getLast?_append_of_ne_nil _ (List.cons_ne_nil c cs)]
  cases cs with
  | nil => simp [hc]
  | cons d cs => rw [List.getLast?_cons_cons]

/-- The lines of a text behind their margins, each with its break. -/
theorem flatten_linesOf (hcurrent : ∀ c ∈ current, isBreak c = false) :
    ((linesOf current cs).map fun l => endLine (indentLine indent l)).flatten =
      (if current.isEmpty then [] else margin indent ++ current.reverse)
        ++ spread indent current.isEmpty cs ++ ending (current.reverse ++ cs) := by
  induction cs generalizing current with
  | nil =>
    cases current with
    | nil => rfl
    | cons d ds =>
      have hd : isBreak d = false := hcurrent d List.mem_cons_self
      have hline : indentLine indent (ds.reverse ++ [d]) = margin indent ++ (ds.reverse ++ [d]) := by
        simpa using indentLine_append indent hcurrent (List.cons_ne_nil d ds) []
      simp [linesOf, hline, endLine, ending, spread, hd]
  | cons c cs ih =>
    by_cases hc : isBreak c
    · have hrest := @ih [] (by simp)
      rw [linesOf, if_pos hc, List.map_cons, List.flatten_cons, hrest, ending_append hc]
      cases current with
      | nil => simp [indentLine, endLine, spread, hc]
      | cons d ds =>
        have hline := indentLine_append indent hcurrent (List.cons_ne_nil d ds) [c]
        rw [List.reverse_cons, hline]
        simp [endLine, spread, hc]
    · have hfalse : isBreak c = false := by simpa using hc
      have hrest := @ih (c :: current) (List.forall_mem_cons.2 ⟨hfalse, hcurrent⟩)
      rw [linesOf, if_neg hc, hrest]
      cases current <;> simp [spread, hfalse]

theorem spread_append {b : Char} (hb : isBreak b) (fresh : Bool) (before after : List Char) :
    spread indent fresh (before ++ b :: after) =
      spread indent fresh before ++ b :: spread indent true after := by
  induction before generalizing fresh with
  | nil => simp [spread, hb]
  | cons c before ih => simp [spread, ih]

theorem spread_unbroken (h : ∀ c ∈ cs, isBreak c = false) : spread indent false cs = cs := by
  induction cs with
  | nil => rfl
  | cons c cs ih =>
    rw [List.forall_mem_cons] at h
    simp [spread, h.1, ih h.2]

theorem mem_spread {fresh : Bool} (hc : c ∈ cs) : c ∈ spread indent fresh cs := by
  induction cs generalizing fresh with
  | nil => cases hc
  | cons d cs ih =>
    rw [spread, List.mem_append, List.mem_cons]
    rcases List.mem_cons.1 hc with rfl | hc
    · exact .inr (.inl rfl)
    · exact .inr (.inr (ih hc))

theorem notMem_spread {fresh : Bool} (h : '\n' ∉ cs) : '\n' ∉ spread indent fresh cs := by
  induction cs generalizing fresh with
  | nil => simp [spread]
  | cons d cs ih =>
    rw [List.mem_cons, not_or] at h
    rw [spread, List.mem_append, List.mem_cons, not_or, not_or]
    refine ⟨?_, h.1, ih h.2⟩
    split
    · simp [margin]
    · simp

/-- What closes a fence behind margins does so without them. -/
theorem closesFence_of_spread (h : closesFence (spread indent true line)) : closesFence line := by
  have hmargin (u rest : List Char) (hu : ∀ c ∈ u, isBreak c = false)
      (hclose : closesFence (spread indent true u ++ rest)) : closesFence (u ++ rest) := by
    cases u with
    | nil => exact hclose
    | cons c u =>
      rw [List.forall_mem_cons] at hu
      rw [spread, hu.1, spread_unbroken hu.2] at hclose
      apply closesFence_of_margin (n := indent)
      simpa [margin] using hclose
  cases hfind : line.find? isBreak with
  | none =>
    have hline : ∀ c ∈ line, isBreak c = false := by simpa using hfind
    have hclose := hmargin line [] hline (by rwa [List.append_nil])
    rwa [List.append_nil] at hclose
  | some b =>
    obtain ⟨hb, u, w, rfl, hu⟩ := List.find?_eq_some_iff_append.1 hfind
    have hspace : b ≠ ' ' := by
      rintro rfl
      cases hb
    have htick : b ≠ '\x60' := by
      rintro rfl
      cases hb
    rw [spread_append hb] at h
    have hclose := hmargin u _ (by simpa using hu) h
    rw [closesFence_append hspace htick, Bool.and_eq_true, List.all_eq_true] at hclose ⊢
    exact ⟨hclose.1, fun c hc => hclose.2 c (mem_spread hc)⟩

theorem intact_spread {rows : List (List Char)} (indent : Nat)
    (h : ∀ row ∈ rows, '\n' ∉ row ∧ closesFence row = false)
    (hend : ∀ c, (['\n'].intercalate rows).getLast? = some c → isBreak c → c = '\n') :
    Intact (spread indent true (['\n'].intercalate rows) ++ ending (['\n'].intercalate rows)) := by
  have hspread {row : List Char} (hrow : closesFence row = false) :
      closesFence (spread indent true row) = false := by
    by_cases hclose : closesFence (spread indent true row)
    · rw [closesFence_of_spread hclose] at hrow
      cases hrow
    · simpa using hclose
  induction rows with
  | nil => exact .nil
  | cons row rows ih =>
    obtain ⟨⟨hfeed, hclose⟩, hrows⟩ := List.forall_mem_cons.1 h
    cases rows with
    | nil =>
      rw [List.intercalate_singleton] at hend ⊢
      cases hlast : row.getLast? with
      | none =>
        rw [List.getLast?_eq_none_iff.1 hlast]
        exact .nil
      | some c =>
        have hbreak : isBreak c = false := by
          by_cases hc : isBreak c
          · exact absurd (hend c hlast hc ▸ List.mem_of_getLast? hlast) hfeed
          · simpa using hc
        have hending : ending row = ['\n'] := by simp [ending, hlast, hbreak]
        rw [hending]
        exact .cons (notMem_spread hfeed) (hspread hclose) .nil
    | cons next rows =>
      have hfeedBreak : isBreak '\n' := by decide
      rw [List.intercalate_cons_cons, List.append_assoc, List.singleton_append] at hend ⊢
      rw [spread_append hfeedBreak, ending_append hfeedBreak, List.append_assoc, List.cons_append]
      apply Intact.cons (notMem_spread hfeed) (hspread hclose)
      apply ih hrows
      intro c hc
      apply hend c
      rw [List.getLast?_append, List.getLast?_cons, hc]
      rfl

/-- Written literally, the string stays between fences: none of its lines closes one, and its end is
no line break other than the line feed. -/
def Harmless (s : String) : Prop :=
  styleOf s = .literal → (∀ line ∈ s.toList.splitOn '\n', closesFence line = false) ∧
    ∀ c ∈ s.toList.getLast?, isBreak c → c = '\n'

instance (s : String) : Decidable (Harmless s) :=
  have : Decidable (∀ c ∈ s.toList.getLast?, isBreak c → c = '\n') :=
    Option.decidableForallMem s.toList.getLast?
  inferInstanceAs (Decidable (styleOf s = .literal →
    (∀ line ∈ s.toList.splitOn '\n', closesFence line = false) ∧
      ∀ c ∈ s.toList.getLast?, isBreak c → c = '\n'))

theorem firmLine_literalHeader (cs : List Char) : FirmLine (literalHeader cs) := by
  have hmarks (start chomping : List Char) (hstart : '\n' ∉ start) (hchomping : '\n' ∉ chomping) :
      FirmLine ('|' :: start ++ chomping ++ ['\n']) :=
    .mk '|' (start ++ chomping) (by decide) (by simp [hstart, hchomping])
  refine hmarks _ _ ?_ ?_
  · split <;> decide
  · split
    · decide
    split
    · decide
    split
    · decide
    · split <;> decide

theorem firm_literal (h : Harmless s) (hstyle : styleOf s = .literal) :
    Firm (literalLines indent s.toList).flatten := by
  obtain ⟨hlines, hend⟩ := h hstyle
  have hrows : ∀ row ∈ s.toList.splitOn '\n', '\n' ∉ row ∧ closesFence row = false := by
    intro row hrow
    refine ⟨fun hfeed => ?_, hlines row hrow⟩
    rw [List.splitOn_eq_splitOnP] at hrow
    exact absurd (eq_false_of_mem_piece hrow hfeed) (by decide)
  have hbody := intact_spread indent hrows
  rw [List.intercalate_splitOn] at hbody
  rw [literalLines, List.flatten_cons, flatten_linesOf (by simp)]
  exact (firmLine_literalHeader _).firm.append (hbody hend)

theorem firmLine_string (h : '\n' ∉ s.toList) (indent : Nat) :
    FirmLine (stringLines indent s).flatten := by
  have hstyle : s.toList.contains '\n' = false := by simpa using h
  unfold stringLines
  cases hs : styleOf s with
  | plain =>
    have hplain : (!readsOtherwise s && (traits s.toList).admitsPlain) = true := by
      by_cases hp : (!readsOtherwise s && (traits s.toList).admitsPlain) = true
      · exact hp
      · simp only [styleOf, hstyle, Bool.false_eq_true, if_false, if_neg hp] at hs
        split at hs <;> cases hs
    rw [Bool.and_eq_true] at hplain
    have hne : s ≠ "" := by
      rintro rfl
      exact absurd hplain.1 (by decide)
    simpa using firm_plain hne hplain.2
  | singleQuoted => exact firm_singleQuoted h
  | doubleQuoted => simpa using firm_doubleQuoted s.toList
  | literal =>
    simp only [styleOf, hstyle, Bool.false_eq_true, if_false] at hs
    split at hs
    · cases hs
    · split at hs <;> cases hs

theorem firm_string (h : Harmless s) (indent : Nat) : Firm (stringLines indent s).flatten := by
  by_cases hfeed : '\n' ∈ s.toList
  · have hcontains : s.toList.contains '\n' = true := by simpa using hfeed
    have hstyle : styleOf s = .literal ∨ styleOf s = .doubleQuoted := by
      simp only [styleOf, hcontains, if_true]
      split
      · exact .inl rfl
      · exact .inr rfl
    rcases hstyle with hs | hs
    · simp only [stringLines, hs]
      exact firm_literal h hs
    · simp only [stringLines, hs]
      simpa using (firm_doubleQuoted s.toList).firm
  · exact (firmLine_string hfeed indent).firm

end Strings

end Yaml.Block

end Schemata
