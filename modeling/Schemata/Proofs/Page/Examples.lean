import Schemata.Page.Sections
import Schemata.Proofs.Text.Lines
import Schemata.Proofs.Yaml.Scalars

/-!
# Examples between fences

The examples of a page stand in fenced blocks of YAML. A reader of the page takes the lines from the
opening fence to the first line that closes one, so that it finds the whole examples just when no
example has such a line, and that is so unless a literal string among them has one or ends in an
unusual line break.
-/

namespace Schemata

namespace Tree

mutual
def texts : Tree → List String
  | .string s => [s]
  | .list ts => textsOfItems ts
  | .mapping es => textsOfEntries es
  | _ => []
termination_by structural t => t

def textsOfItems : List Tree → List String
  | [] => []
  | t :: ts => t.texts ++ textsOfItems ts
termination_by structural ts => ts

def textsOfEntries : List (String × Tree) → List String
  | [] => []
  | (k, t) :: es => k :: t.texts ++ textsOfEntries es
termination_by structural es => es
end

end Tree

namespace Yaml

namespace Block

section Nodes

variable {ls : List (List Char)} {key : String}

/-- A value behind a dash or a colon begins firmly, and so it does behind a margin. -/
theorem firm_lead {c : Char} (hc : isFirm c) (h : Firm ls.flatten) :
    Firm (lead [c, ' '] ls).flatten := by
  rw [flatten_lead h.lines_ne_nil]
  exact Firm.lead hc (by decide) h

theorem intact_lead {c : Char} (hc : isFirm c) (h : Firm ls.flatten) (indent : Nat) :
    Intact (lead (margin indent ++ [c, ' ']) ls).flatten := by
  rw [flatten_lead h.lines_ne_nil, List.append_assoc]
  exact Firm.behind (Firm.lead hc (by decide) h) indent

theorem notMem_of_isSimpleKey (h : isSimpleKey key) : '\n' ∉ key.toList := by
  rw [isSimpleKey, Bool.and_eq_true, Bool.not_eq_true'] at h
  exact notMem_of_notBreak h.1

theorem firm_entryLines (indent : Nat) (hkey : Harmless key) (value : Tree)
    (h : Firm ls.flatten) : Firm (entryLines indent key value ls).flatten := by
  unfold entryLines
  dsimp only
  by_cases hsimple : isSimpleKey key
  · obtain ⟨c, row, hc, hrow, hline⟩ :=
      firmLine_string (notMem_of_isSimpleKey hsimple) (indent + 2)
    have hkeyText : (stringLines (indent + 2) key).flatten.dropLast = c :: row := by
      rw [hline, List.dropLast_concat]
    rw [if_pos hsimple, hkeyText]
    split
    · rw [List.flatten_cons, flatten_lead h.lines_ne_nil]
      have hfirst : FirmLine (c :: row ++ [':', '\n']) := by
        have hline := FirmLine.mk c (row ++ [':']) hc (by simp [hrow])
        simpa using hline
      exact hfirst.firm.append (h.behind _)
    · rw [flatten_lead h.lines_ne_nil]
      exact Firm.lead hc (by simp [hrow]) h
  · rw [if_neg hsimple, List.flatten_append]
    exact (firm_lead (by decide) (firm_string hkey _)).append (intact_lead (by decide) h indent)

mutual
/-- A node is made of whole lines that close no fence, if its literal strings are. -/
theorem firm_lines (t : Tree) (indent : Nat) (h : ∀ s ∈ t.texts, Harmless s) :
    Firm (lines t indent).flatten := by
  match t with
  | .null => exact (FirmLine.mk 'n' ['u', 'l', 'l'] (by decide) (by decide)).firm
  | .bool true => exact (FirmLine.mk 't' ['r', 'u', 'e'] (by decide) (by decide)).firm
  | .bool false => exact (FirmLine.mk 'f' ['a', 'l', 's', 'e'] (by decide) (by decide)).firm
  | .number n =>
    have hline := (allFirm_number .block n).line (number_ne_empty .block n)
    simpa [lines] using hline.firm
  | .string s => exact firm_string (h s (List.mem_singleton.2 rfl)) indent
  | .list [] => exact (FirmLine.mk '[' [']'] (by decide) (by decide)).firm
  | .list (u :: us) =>
    obtain ⟨hu, hus⟩ := List.forall_mem_append.1 h
    rw [lines, List.flatten_append]
    exact (firm_lead (by decide) (firm_lines u _ hu)).append (intact_itemLines us indent hus)
  | .mapping [] => exact (FirmLine.mk '\x7b' ['\x7d'] (by decide) (by decide)).firm
  | .mapping ((k, u) :: es) =>
    obtain ⟨hu, hes⟩ := List.forall_mem_append.1 h
    obtain ⟨hk, hu⟩ := List.forall_mem_cons.1 hu
    rw [lines, List.flatten_append]
    exact (firm_entryLines indent hk u (firm_lines u _ hu)).append (intact_entriesLines es indent hes)
termination_by structural t

theorem intact_itemLines (ts : List Tree) (indent : Nat)
    (h : ∀ s ∈ Tree.textsOfItems ts, Harmless s) : Intact (itemLines ts indent).flatten := by
  match ts with
  | [] => exact .nil
  | u :: us =>
    obtain ⟨hu, hus⟩ := List.forall_mem_append.1 h
    rw [itemLines, List.flatten_append]
    exact (intact_lead (by decide) (firm_lines u _ hu) indent).append
      (intact_itemLines us indent hus)
termination_by structural ts

theorem intact_entriesLines (es : Entries) (indent : Nat)
    (h : ∀ s ∈ Tree.textsOfEntries es, Harmless s) : Intact (entriesLines es indent).flatten := by
  match es with
  | [] => exact .nil
  | (k, u) :: es =>
    obtain ⟨hu, hes⟩ := List.forall_mem_append.1 h
    obtain ⟨hk, hu⟩ := List.forall_mem_cons.1 hu
    have hentry := firm_entryLines indent hk u (firm_lines u (valueIndent indent k u) hu)
    rw [entriesLines, List.flatten_append, flatten_lead hentry.lines_ne_nil]
    exact (hentry.behind indent).append (intact_entriesLines es indent hes)
termination_by structural es
end

end Nodes

theorem firm_block {t : Tree} (h : ∀ s ∈ t.texts, Harmless s) : Firm (block t).toList := by
  rw [block, String.toList_ofList]
  exact firm_lines t _ h

end Block

end Yaml

namespace Page

/-- The contents of the fenced blocks among some lines; `opened` holds the lines of a block that is
not closed yet. -/
def fencedBlocks : (opened : Option (List String)) → List String → List String
  | none, [] => []
  | some content, [] => [unlines content]
  | none, line :: lines =>
    if line = "\x60\x60\x60yaml" then fencedBlocks (some []) lines else fencedBlocks none lines
  | some content, line :: lines =>
    if closesFence line.toList then unlines content :: fencedBlocks none lines
    else fencedBlocks (some (content ++ [line])) lines

def blocksOf (text : String) : List String := fencedBlocks none (linesOf isFeed text)

def Held (rows : List String) : Prop :=
  ∀ row ∈ rows, Unbroken isFeed row ∧ closesFence row.toList = false

section Reader

variable {rows content lines : List String} {text : String}

theorem unbroken_feed_iff : Unbroken isFeed text ↔ '\n' ∉ text.toList := by
  simp only [Unbroken, isFeed, decide_eq_false_iff_not]
  exact ⟨fun h hmem => h _ hmem rfl, fun h c hc he => h (he ▸ hc)⟩

theorem toList_unlines (rows : List String) :
    (unlines rows).toList = (rows.map String.toList).flatMap (· ++ ['\n']) := by
  induction rows with
  | nil => rfl
  | cons row rows ih => simp [unlines_cons, ih]

theorem intact_iff : Intact text.toList ↔ ∃ rows, text = unlines rows ∧ Held rows := by
  constructor
  · rintro ⟨rows, htext, hrows⟩
    refine ⟨rows.map String.ofList, ?_, ?_⟩
    · rw [← String.toList_inj, htext, toList_unlines, List.map_map]
      simp [Function.comp_def]
    · intro row hrow
      obtain ⟨cs, hcs, rfl⟩ := List.mem_map.1 hrow
      rw [unbroken_feed_iff, String.toList_ofList]
      exact hrows cs hcs
  · rintro ⟨rows, rfl, hrows⟩
    refine ⟨rows.map String.toList, toList_unlines rows, ?_⟩
    intro cs hcs
    obtain ⟨row, hrow, rfl⟩ := List.mem_map.1 hcs
    exact ⟨unbroken_feed_iff.1 (hrows row hrow).1, (hrows row hrow).2⟩

/-- A block goes on over the lines that it can hold. -/
theorem fencedBlocks_append (h : Held rows) (content lines : List String) :
    fencedBlocks (some content) (rows ++ lines) = fencedBlocks (some (content ++ rows)) lines := by
  induction rows generalizing content with
  | nil => simp
  | cons row rows ih =>
    obtain ⟨hrow, hrows⟩ := List.forall_mem_cons.1 h
    rw [List.cons_append, fencedBlocks, hrow.2, if_neg (by decide), ih hrows]
    simp

/-- What is read as a block is intact, wherever it comes from. -/
theorem intact_of_mem_fencedBlocks {opened : Option (List String)}
    (hlines : ∀ line ∈ lines, Unbroken isFeed line)
    (hopened : ∀ content, opened = some content → Held content)
    (h : text ∈ fencedBlocks opened lines) : Intact text.toList := by
  induction lines generalizing opened with
  | nil =>
    cases opened with
    | none => cases h
    | some content =>
      rw [fencedBlocks, List.mem_singleton] at h
      exact intact_iff.2 ⟨content, h, hopened content rfl⟩
  | cons line lines ih =>
    obtain ⟨hline, hlines⟩ := List.forall_mem_cons.1 hlines
    cases opened with
    | none =>
      rw [fencedBlocks] at h
      split at h
      · refine ih hlines ?_ h
        rintro content he
        cases he
        exact fun row hrow => by cases hrow
      · exact ih hlines hopened h
    | some content =>
      rw [fencedBlocks] at h
      split at h
      · rcases List.mem_cons.1 h with rfl | h
        · exact intact_iff.2 ⟨content, rfl, hopened content rfl⟩
        · exact ih hlines (fun content he => by cases he) h
      · rename_i hclose
        refine ih hlines ?_ h
        rintro content' he
        cases he
        have hlast : Held [line] := by
          intro row hrow
          rw [List.mem_singleton.1 hrow]
          exact ⟨hline, by simpa using hclose⟩
        exact List.forall_mem_append.2 ⟨hopened content rfl, hlast⟩

theorem exampleBlocks_cons (number : Nat) (t : Tree) (ts : List Tree) :
    exampleBlocks number (t :: ts) =
      unlines ["### Example " ++ toString number, "", "\x60\x60\x60yaml"] ++ (Yaml.block t ++
        (unlines ["\x60\x60\x60", ""] ++ exampleBlocks (number + 1) ts)) := by
  have hblocks : exampleBlocks number (t :: ts) =
      "### Example " ++ toString number ++ "\n\n\x60\x60\x60yaml\n" ++ Yaml.block t
        ++ "\x60\x60\x60\n\n" ++ exampleBlocks (number + 1) ts := rfl
  rw [hblocks]
  simp [unlines, ← String.toList_inj]

/-- Whole examples are read back, each from its opening fence to the fence that the page has for it.
-/
theorem blocksOf_exampleBlocks {ts : List Tree} (h : ∀ t ∈ ts, Intact (Yaml.block t).toList)
    (number : Nat) : blocksOf (exampleBlocks number ts) = ts.map Yaml.block := by
  have hends := endsLines_isFeed
  induction ts generalizing number with
  | nil => rfl
  | cons t ts ih =>
    obtain ⟨ht, hts⟩ := List.forall_mem_cons.1 h
    obtain ⟨rows, hblock, hrows⟩ := intact_iff.1 ht
    have hnumber : BlanksOnly ("### Example " ++ toString number) :=
      BlanksOnly.append (by decide) (blanksOnly_toString number)
    have hopening : ∀ row ∈ ["### Example " ++ toString number, "", "\x60\x60\x60yaml"],
        Unbroken isFeed row := by
      rw [List.forall_mem_cons]
      exact ⟨hnumber.unbroken hends, by decide⟩
    have hclosing : ∀ row ∈ ["\x60\x60\x60", ""], Unbroken isFeed row := by
      decide
    have hheading : "### Example " ++ toString number ≠ "\x60\x60\x60yaml" := by
      intro he
      have hhead := congrArg (·.toList.head?) he
      simp at hhead
    rw [exampleBlocks_cons, hblock, blocksOf, linesOf_unlines_append hends.feed hopening,
      linesOf_unlines_append hends.feed fun row hrow => (hrows row hrow).1,
      linesOf_unlines_append hends.feed hclosing]
    have hrest : fencedBlocks none (linesOf isFeed (exampleBlocks (number + 1) ts)) =
        ts.map Yaml.block := ih hts (number + 1)
    simp only [List.cons_append, List.nil_append]
    rw [fencedBlocks, if_neg hheading, fencedBlocks, if_neg (by decide), fencedBlocks, if_pos rfl,
      fencedBlocks_append hrows, List.nil_append, fencedBlocks, if_pos (by decide),
      fencedBlocks, if_neg (by decide), hrest, List.map_cons, hblock]

theorem examples_eq {ts : List Tree} (h : ts ≠ []) :
    examples ts = unlines ["## Examples", ""] ++ exampleBlocks 1 ts := by
  have hempty : ¬ ts.isEmpty := by rwa [List.isEmpty_iff]
  rw [examples, if_neg hempty]
  rfl

/-- The heading above the blocks has no fence. -/
theorem blocksOf_examples (ts : List Tree) :
    blocksOf (examples ts) = blocksOf (exampleBlocks 1 ts) := by
  by_cases h : ts = []
  · rw [h]
    rfl
  · have hrows : ∀ row ∈ ["## Examples", ""], Unbroken isFeed row := by
      decide
    rw [examples_eq h, blocksOf, linesOf_unlines_append endsLines_isFeed.feed hrows]
    simp only [List.cons_append, List.nil_append]
    rw [fencedBlocks, if_neg (by decide), fencedBlocks, if_neg (by decide), blocksOf]

/-- The fenced blocks of the section are the texts of the examples just when each text is intact,
and it is so for every example whose literal strings have no line that closes a fence and no unusual
line break at their ends. -/
theorem blocksOf_examples_iff (ts : List Tree) :
    (blocksOf (examples ts) = ts.map Yaml.block ↔ ∀ t ∈ ts, Intact (Yaml.block t).toList) ∧
    ((∀ t ∈ ts, ∀ s ∈ t.texts, Yaml.Block.Harmless s) →
      blocksOf (examples ts) = ts.map Yaml.block) := by
  have hread (h : ∀ t ∈ ts, Intact (Yaml.block t).toList) :
      blocksOf (examples ts) = ts.map Yaml.block := by
    rw [blocksOf_examples, blocksOf_exampleBlocks h]
  refine ⟨⟨fun h t ht => ?_, hread⟩, fun h => hread fun t ht => ?_⟩
  · have hmem : Yaml.block t ∈ blocksOf (examples ts) := h ▸ List.mem_map_of_mem ht
    exact intact_of_mem_fencedBlocks (fun line hline => unbroken_of_mem_linesOf hline)
      (fun content he => by cases he) hmem
  · exact (Yaml.Block.firm_block (h t ht)).intact

end Reader

/-- An example with strings that have fences in them, and with a literal one that comes near. -/
def Snippet.guarded : Tree := .mapping
  [("code", .string "\x60\x60\x60 "), ("text", .list [.string "a\n\x60\x60\n- \x60\x60\x60\n"])]

theorem Snippet.read_back :
    (∀ t ∈ [guarded, .null], ∀ s ∈ t.texts, Yaml.Block.Harmless s) ∧
    blocksOf (examples [guarded, .null]) = [guarded, .null].map Yaml.block := by
  have h : ∀ t ∈ [guarded, .null], ∀ s ∈ t.texts, Yaml.Block.Harmless s := by decide
  exact ⟨h, (blocksOf_examples_iff [guarded, .null]).2 h⟩

/-- A line of a literal string closes the block in the middle of the example, and the line break
that another one ends in keeps the fence of the page from standing on a line of its own. -/
theorem Snippet.cut_short :
    Yaml.block (.string "a\n\x60\x60\x60\nb") = "|-\n  a\n  \x60\x60\x60\n  b\n" ∧
    blocksOf (examples [.string "a\n\x60\x60\x60\nb"]) = ["|-\n  a\n"] ∧
    Yaml.block (.string "a\nb\u2028") = "|\n  a\n  b\u2028" ∧
    blocksOf (examples [.string "a\nb\u2028"]) =
      ["|\n  a\n  b\u2028\x60\x60\x60\n\n\n"] := by
  decide

end Page

end Schemata
