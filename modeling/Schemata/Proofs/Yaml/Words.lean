import Schemata.Proofs.Json.Trees
import Schemata.Proofs.Yaml.Quotes

/-!
# Scalars told apart

A scalar of one line is a word or a string between quotes. Its text tells the scalar and where it
ends, if the end of the line or the colon of a key stands behind it; and a word that is written for
a node stands for no other node.
-/

namespace Schemata.Yaml

open Json (Exact eq_zero_of_toDigits)

namespace Scalar

variable {cs : List Char} {n : Nat}

theorem natIn?_digits (h : ∀ c ∈ cs, ∃ d < 10, c = Nat.digitChar d) (hne : cs ≠ []) :
    natIn? 10 cs = some (Nat.ofDigitChars 10 cs 0) := by
  have hdigit : ∀ d < 10, digitIn? 10 (Nat.digitChar d) = some d := by decide
  have hfold (n : Nat) : cs.foldlM (fun n c => (digitIn? 10 c).map (n * 10 + ·)) n =
      some (Nat.ofDigitChars 10 cs n) := by
    clear hne
    induction cs generalizing n with
    | nil => rfl
    | cons c cs ih =>
      rw [List.forall_mem_cons] at h
      obtain ⟨d, hd, rfl⟩ := h.1
      rw [List.foldlM_cons, hdigit d hd, Nat.ofDigitChars_cons_digitChar_of_lt_ten hd,
        Nat.mul_comm 10]
      exact ih h.2 _
  rw [natIn?, if_neg (by simpa using hne)]
  exact hfold 0

theorem isPaddedDigits_toDigits (n : Nat) : isPaddedDigits (Nat.toDigits 10 n) = false := by
  have hsign : dropSign (Nat.toDigits 10 n) = Nat.toDigits 10 n := by
    unfold dropSign
    split
    · rename_i h
      exact absurd rfl
        (ne_of_mem_toDigits (h ▸ List.mem_cons_self) (show '-'.isDigit = false from rfl))
    · rename_i h
      exact absurd rfl
        (ne_of_mem_toDigits (h ▸ List.mem_cons_self) (show '+'.isDigit = false from rfl))
    · rfl
  rw [isPaddedDigits, hsign]
  split
  · rename_i h
    cases (eq_zero_of_toDigits h).2
  · rfl

theorem magnitude?_toDigits {bound : Nat} (hn : n ≤ bound) :
    magnitude? bound (Nat.toDigits 10 n) = some n := by
  have hvalue : natIn? 10 (Nat.toDigits 10 n) = some n := by
    rw [natIn?_digits (fun c hc => exists_of_mem_toDigits (by decide) hc) Nat.toDigits_ne_nil,
      Nat.ofDigitChars_ten_toDigits]
  have hradix {c : Char} {ds : List Char} (h : Nat.toDigits 10 n = '0' :: c :: ds) : False := by
    cases (eq_zero_of_toDigits h).2
  unfold magnitude?
  split
  · exact (hradix ‹_›).elim
  · exact (hradix ‹_›).elim
  · exact (hradix ‹_›).elim
  · rw [if_neg (by simp [isPaddedDigits_toDigits]), hvalue]
    exact Option.filter_eq_some_iff.2 ⟨rfl, decide_eq_true hn⟩

theorem int?_toDigits (hn : n < Nat.pow 2 64) :
    int? (String.ofList (Nat.toDigits 10 n)) = some (.int n) := by
  have hbits : intOfBits? 64 (String.ofList (Nat.toDigits 10 n)) = some (n : Int) := by
    unfold intOfBits?
    rw [String.toList_ofList]
    split
    · rename_i h
      exact absurd rfl
        (ne_of_mem_toDigits (h ▸ List.mem_cons_self) (show '-'.isDigit = false from rfl))
    · rename_i h
      exact absurd rfl
        (ne_of_mem_toDigits (h ▸ List.mem_cons_self) (show '+'.isDigit = false from rfl))
    · rw [magnitude?_toDigits (Nat.le_sub_one_of_lt hn)]
      rfl
  rw [int?, hbits]

/-- The decimal of a count stands for nothing else. -/
theorem ofPlain_toDigits (hn : n < Nat.pow 2 64) :
    ofPlain (String.ofList (Nat.toDigits 10 n)) = .int n := by
  have hword (w : String) (hw : w.toList.all (!·.isDigit)) :
      String.ofList (Nat.toDigits 10 n) ≠ w := by
    rintro rfl
    obtain ⟨c, cs, hcs⟩ := List.exists_cons_of_ne_nil (Nat.toDigits_ne_nil (b := 10) (n := n))
    rw [String.toList_ofList, hcs] at hw
    have hc : c.isDigit = false := by
      simp only [List.all_cons, Bool.and_eq_true, Bool.not_eq_true'] at hw
      exact hw.1
    exact ne_of_mem_toDigits (hcs ▸ List.mem_cons_self) hc rfl
  unfold ofPlain
  simp [null?, bool?, int?_toDigits hn, hword "" rfl, hword "null" rfl, hword "Null" rfl,
    hword "NULL" rfl, hword "~" rfl, hword "true" rfl, hword "True" rfl, hword "TRUE" rfl,
    hword "false" rfl, hword "False" rfl, hword "FALSE" rfl]

end Scalar

namespace Block

variable {c : Char} {cs ds rest rest' x y : List Char} {n m : Nat}

/-- The end of a line, or the colon of a key. -/
def Stops (rest : List Char) : Prop :=
  (∃ x, rest = '\n' :: x) ∨ ∃ c x, rest = ':' :: c :: x ∧ (c = ' ' ∨ c = '\n')

/-- What the beginning of a text tells about a node. -/
inductive Start where
  | item
  | question
  | literal
  | quoted
  | escaped
  | word

def Start.of : List Char → Start
  | [] => word
  | c :: cs =>
    if c = '|' then literal
    else if c = '\'' then quoted
    else if c = '"' then escaped
    else if c = '-' ∧ cs.head? = some ' ' then item
    else if c = '?' ∧ cs.head? = some ' ' then question
    else word

/-- A text of one line without quotes, in which nothing looks like the end of a key. -/
structure IsWord (cs : List Char) : Prop where
  start : Start.of cs = .word
  first : ∃ c x, cs = c :: x ∧ c ≠ ' ' ∧ isBreak c = false
  line : '\n' ∉ cs
  colon : ∀ x y, cs = x ++ ':' :: y → ∃ c z, y = c :: z ∧ c ≠ ' '

theorem Stops.head?_ne (h : Stops rest) (hfeed : c ≠ '\n') (hcolon : c ≠ ':') :
    rest.head? ≠ some c := by
  rcases h with ⟨x, rfl⟩ | ⟨d, x, rfl, -⟩ <;> simp [Ne.symm hfeed, Ne.symm hcolon]

theorem IsWord.start_append (h : IsWord cs) (hrest : Stops rest) :
    Start.of (cs ++ rest) = .word := by
  obtain ⟨c, x, rfl, -, -⟩ := h.first
  have hstart := h.start
  cases x with
  | cons d x => exact hstart
  | nil =>
    have hblank := hrest.head?_ne (show ' ' ≠ '\n' by decide) (by decide)
    simp only [Start.of, List.cons_append, List.nil_append, List.head?_nil, reduceCtorEq, hblank,
      and_false, if_false] at hstart ⊢
    exact hstart

/-- A word is not the beginning of another one that goes on where it stops. -/
theorem IsWord.append_eq (h : IsWord (cs ++ x)) (hrest : Stops (x ++ rest)) : x = [] := by
  cases x with
  | nil => rfl
  | cons c x =>
    rcases hrest with ⟨y, hy⟩ | ⟨d, y, hy, hd⟩
    · obtain rfl : c = '\n' := (List.cons.inj hy).1
      exact absurd h.line (by simp)
    · obtain rfl : c = ':' := (List.cons.inj hy).1
      obtain ⟨e, z, rfl, he⟩ := h.colon cs x rfl
      obtain rfl : e = d := (List.cons.inj (List.cons.inj hy).2).1
      rcases hd with rfl | rfl
      · exact absurd rfl he
      · exact absurd h.line (by simp)

theorem IsWord.inj (hcs : IsWord cs) (hds : IsWord ds) (hrest : Stops rest)
    (hrest' : Stops rest') (h : cs ++ rest = ds ++ rest') : cs = ds ∧ rest = rest' := by
  rcases List.append_eq_append_iff.1 h with ⟨x, rfl, rfl⟩ | ⟨x, rfl, rfl⟩
  · obtain rfl := hds.append_eq hrest
    simp
  · obtain rfl := hcs.append_eq hrest'
    simp

theorem not_gap_of_hasIndicator {first : Bool} {before : Option Char}
    (h : hasIndicator first before (x ++ ':' :: y) = false) : ∃ c z, y = c :: z ∧ c ≠ ' ' := by
  induction x generalizing first before with
  | nil =>
    rw [List.nil_append, hasIndicator, Bool.or_eq_false_iff] at h
    have hgap : y.head?.all isGap = false := by
      have hcolon := h.1
      unfold isIndicator at hcolon
      cases first <;> simp_all
    cases y with
    | nil => cases hgap
    | cons c z =>
      refine ⟨c, z, rfl, ?_⟩
      rintro rfl
      cases hgap
  | cons c x ih =>
    rw [List.cons_append, hasIndicator, Bool.or_eq_false_iff] at h
    exact ih h.2

theorem isWord_of_admitsPlain (hne : cs ≠ []) (h : (traits cs).admitsPlain) : IsWord cs := by
  obtain ⟨c, x, rfl⟩ := List.exists_cons_of_ne_nil hne
  simp only [Traits.admitsPlain, traits, Bool.and_eq_true, Bool.not_eq_true'] at h
  obtain ⟨⟨⟨hbreak, hpadded⟩, -⟩, hindicator⟩ := h
  rw [Bool.or_eq_false_iff] at hpadded hindicator
  have hfirst := hpadded.1
  simp only [List.head?_cons, Option.any_some, isBlankOrBreak, Bool.or_eq_false_iff,
    decide_eq_false_iff_not] at hfirst
  have hcolon := hindicator.2
  refine ⟨?_, ⟨c, x, rfl, hfirst⟩, notMem_of_notBreak hbreak, fun y z hyz => ?_⟩
  · rw [hasIndicator, Bool.or_eq_false_iff, isIndicator] at hcolon
    obtain ⟨hstart, hgap⟩ := Bool.or_eq_false_iff.1 hcolon.1
    have hne (d : Char) (hd : startIndicators.contains d) : c ≠ d := by
      rintro rfl
      rw [hstart] at hd
      cases hd
    have hblank (hc : c = '-' ∨ c = '?') : x.head? ≠ some ' ' := by
      intro hx
      rw [hx] at hgap
      rcases hc with rfl | rfl <;> simp [isGap, isBlankChar] at hgap
    rw [Start.of, if_neg (hne _ (by decide)), if_neg (hne _ (by decide)), if_neg (hne _ (by decide)),
      if_neg fun h => hblank (.inl h.1) h.2, if_neg fun h => hblank (.inr h.1) h.2]
  · rw [hyz] at hcolon
    exact not_gap_of_hasIndicator hcolon

inductive Lexeme where
  | word (cs : List Char)
  | quoted (cs : List Char)
  | escaped (cs : List Char)

namespace Lexeme

/-- The text of a scalar, where a quoted one may run over lines with margins. -/
def text (n : Nat) : Lexeme → List Char
  | word cs => cs
  | quoted cs => '\'' :: spread n false (cs.flatMap doubleQuotes ++ ['\''])
  | escaped cs => '"' :: (cs.flatMap escape ++ ['"'])

def Fits : Lexeme → Prop
  | word cs => IsWord cs
  | _ => True

def start : Lexeme → Start
  | word _ => .word
  | quoted _ => .quoted
  | escaped _ => .escaped

variable {a b : Lexeme}

theorem start_text (h : a.Fits) (n : Nat) (hrest : Stops rest) :
    Start.of (a.text n ++ rest) = a.start := by
  cases a with
  | word cs => exact IsWord.start_append h hrest
  | quoted cs => rfl
  | escaped cs => rfl

theorem exists_first (h : a.Fits) (n : Nat) :
    ∃ c x, a.text n = c :: x ∧ c ≠ ' ' ∧ isBreak c = false := by
  cases a with
  | word cs => exact IsWord.first h
  | quoted cs => exact ⟨_, _, rfl, by decide, by decide⟩
  | escaped cs => exact ⟨_, _, rfl, by decide, by decide⟩

theorem text_inj (ha : a.Fits) (hb : b.Fits) (hrest : Stops rest) (hrest' : Stops rest')
    (h : a.text n ++ rest = b.text n ++ rest') : a = b ∧ rest = rest' := by
  have hstart : a.start = b.start := by
    rw [← start_text ha n hrest, h, start_text hb n hrest']
  have hquote {rest : List Char} (hrest : Stops rest) : rest.head? ≠ some '\'' :=
    hrest.head?_ne (by decide) (by decide)
  cases a <;> cases b <;> cases hstart
  case word cs ds =>
    obtain ⟨rfl, rfl⟩ := IsWord.inj ha hb hrest hrest' h
    exact ⟨rfl, rfl⟩
  case quoted cs ds =>
    obtain ⟨rfl, rfl⟩ := spread_quoted_inj (hquote hrest) (hquote hrest') (List.cons.inj h).2
    exact ⟨rfl, rfl⟩
  case escaped cs ds =>
    rw [text, text, List.cons_append, List.cons_append, List.append_assoc, List.append_assoc] at h
    obtain ⟨rfl, rfl⟩ := escaped_inj (List.cons.inj h).2
    exact ⟨rfl, rfl⟩

end Lexeme

/-- The scalar that a string is written as, unless it is literal. -/
def lexeme? (s : String) : Option Lexeme :=
  match styleOf s with
  | .plain => some (.word s.toList)
  | .singleQuoted => some (.quoted s.toList)
  | .doubleQuoted => some (.escaped s.toList)
  | .literal => none

section Strings

variable {s t : String} {a : Lexeme}

theorem styleOf_eq_plain (h : styleOf s = .plain) :
    readsOtherwise s = false ∧ (traits s.toList).admitsPlain := by
  unfold styleOf at h
  dsimp only at h
  split at h
  · split at h <;> cases h
  · split at h
    · rename_i hplain
      simpa using hplain
    · split at h <;> cases h

theorem isWord_of_plain (h : styleOf s = .plain) : IsWord s.toList := by
  obtain ⟨hreads, hplain⟩ := styleOf_eq_plain h
  refine isWord_of_admitsPlain (fun hnil => ?_) hplain
  obtain rfl := String.toList_eq_nil_iff.1 hnil
  exact absurd hreads (by decide)

theorem fits_lexeme? (h : lexeme? s = some a) : a.Fits := by
  unfold lexeme? at h
  split at h <;> cases h
  · rename_i hstyle
    exact isWord_of_plain hstyle
  · trivial
  · trivial

theorem flatten_stringLines (h : lexeme? s = some a) (n : Nat) :
    (stringLines n s).flatten = a.text n ++ ['\n'] := by
  unfold lexeme? at h
  split at h <;> cases h <;> rename_i hstyle <;> simp only [stringLines, hstyle]
  · simp [Lexeme.text]
  · rw [flatten_singleQuotedLines]
    rfl
  · simp [Lexeme.text]

/-- Only a string with a line feed is literal. -/
theorem literal_of_lexeme? (h : lexeme? s = none) :
    '\n' ∈ s.toList ∧ ∀ n, stringLines n s = literalLines n s.toList := by
  have hstyle : styleOf s = .literal := by
    unfold lexeme? at h
    split at h <;> first | assumption | cases h
  refine ⟨?_, fun n => by simp only [stringLines, hstyle]⟩
  by_contra hfeed
  have hcontains : s.toList.contains '\n' = false := by simpa using hfeed
  simp only [styleOf, hcontains, Bool.false_eq_true, if_false] at hstyle
  split at hstyle
  · cases hstyle
  · split at hstyle <;> cases hstyle

theorem text_lexeme?_eq (h : lexeme? s = some a) (hs : s.toList.any isBreak = false) (n k : Nat) :
    a.text n = a.text k := by
  unfold lexeme? at h
  split at h <;> cases h
  · rfl
  · have hunbroken : ∀ c ∈ s.toList.flatMap doubleQuotes ++ ['\''], isBreak c = false := by
      intro c hc
      rcases List.mem_append.1 hc with hc | hc
      · obtain ⟨d, hd, hc⟩ := List.mem_flatMap.1 hc
        rw [doubleQuotes_eq, List.mem_cons] at hc
        rcases hc with rfl | hc
        · simpa using (List.any_eq_false.1 hs) c hd
        · split at hc
          · rw [List.mem_singleton.1 hc]
            decide
          · cases hc
      · rw [List.mem_singleton.1 hc]
        decide
    rw [Lexeme.text, Lexeme.text, spread_unbroken hunbroken, spread_unbroken hunbroken]
  · rfl

end Strings

variable {t : Tree} {a : Lexeme}

def nodeText (t : Tree) (n : Nat) : List Char := (lines t n).flatten

/-- The scalar of one line that a node is written as, if it is. -/
def nodeLexeme? : Tree → Option Lexeme
  | .null => some (.word ['n', 'u', 'l', 'l'])
  | .bool b => some (.word (if b then "true" else "false").toList)
  | .number n => some (.word (n.text .block).toList)
  | .string s => lexeme? s
  | .list [] => some (.word ['[', ']'])
  | .mapping [] => some (.word ['\x7b', '\x7d'])
  | .list (_ :: _) | .mapping (_ :: _) => none

/-- The node that a scalar of one line stands for. -/
def Lexeme.node : Lexeme → Tree
  | word cs =>
    if cs = ['[', ']'] then .list []
    else if cs = ['\x7b', '\x7d'] then .mapping []
    else
      match Scalar.ofPlain (String.ofList cs) with
      | .null => .null
      | .bool b => .bool b
      | .int n | .wide n => .int n
      | .float x => .number (.float x)
      | .string s => .string s
  | quoted cs | escaped cs => .string (String.ofList cs)

theorem isWord_of_unspaced (hne : cs ≠ [])
    (hall : cs.all fun c => c ∉ ['|', '\'', '"', ' ', '\n', ':'] ∧ isBreak c = false) :
    IsWord cs := by
  obtain ⟨c, x, rfl⟩ := List.exists_cons_of_ne_nil hne
  have h (d : Char) (hd : d ∈ c :: x) := of_decide_eq_true (List.all_eq_true.1 hall d hd)
  have hnot (d : Char) (hd : d ∈ ['|', '\'', '"', ' ', '\n', ':']) : d ∉ c :: x :=
    fun hmem => (h d hmem).1 hd
  have hc (d : Char) (hd : d ∈ ['|', '\'', '"', ' ', '\n', ':']) : c ≠ d := by
    rintro rfl
    exact hnot c hd List.mem_cons_self
  have hblank : x.head? ≠ some ' ' := by
    intro hx
    exact hnot ' ' (by decide) (List.mem_cons_of_mem _ (List.mem_of_head? hx))
  refine ⟨?_, ⟨c, x, rfl, hc ' ' (by decide), (h c List.mem_cons_self).2⟩, hnot _ (by decide),
    fun y z hyz => absurd (hyz ▸ by simp) (hnot ':' (by decide))⟩
  simp only [Start.of, hc '|' (by decide), hc '\'' (by decide), hc '"' (by decide), hblank, and_false,
    if_false]

theorem isWord_toDigits (n : Nat) : IsWord (Nat.toDigits 10 n) := by
  refine isWord_of_unspaced Nat.toDigits_ne_nil (List.all_eq_true.2 fun c hc => decide_eq_true ?_)
  obtain ⟨d, hd, rfl⟩ := exists_of_mem_toDigits (by decide) hc
  have hdigits : ∀ d < 10, Nat.digitChar d ∉ ['|', '\'', '"', ' ', '\n', ':'] ∧
      isBreak (Nat.digitChar d) = false := by decide
  exact hdigits d hd

theorem node_of_plain {s : String} (h : styleOf s = .plain) :
    (Lexeme.word s.toList).node = .string s := by
  obtain ⟨hreads, hplain⟩ := styleOf_eq_plain h
  have hne (cs : List Char) (hcs : (traits cs).admitsPlain = false) : s.toList ≠ cs := by
    rintro rfl
    rw [hplain] at hcs
    cases hcs
  have hvalue : Scalar.ofPlain s = .string s := by
    simp only [readsOtherwise, Bool.or_eq_false_iff, decide_eq_false_iff_not, not_not] at hreads
    exact hreads.1
  rw [Lexeme.node, if_neg (hne _ (by decide)), if_neg (hne _ (by decide)), String.ofList_toList,
    hvalue]

theorem node_of_lexeme? {s : String} (h : lexeme? s = some a) : a.node = .string s := by
  unfold lexeme? at h
  split at h <;> cases h
  · rename_i hstyle
    exact node_of_plain hstyle
  · rw [Lexeme.node, String.ofList_toList]
  · rw [Lexeme.node, String.ofList_toList]

/-- An exact node of one line is read off its text. -/
theorem node_of_nodeLexeme? (ht : Exact m t) (h : nodeLexeme? t = some a) :
    a.Fits ∧ a.node = t ∧ ∀ n rest, nodeText t n ++ rest = a.text n ++ '\n' :: rest := by
  cases ht with
  | scalar hs =>
    cases hs with
    | null =>
      cases h
      exact ⟨isWord_of_unspaced (by decide) (by decide), by decide +kernel, fun n rest => rfl⟩
    | bool b =>
      cases h
      cases b <;>
        exact ⟨isWord_of_unspaced (by decide) (by decide), by decide +kernel, fun n rest => rfl⟩
    | @count n hn =>
      have htext : ((Number.int n).text .block).toList = Nat.toDigits 10 n :=
        Json.toList_compact_int n
      rw [Tree.int, nodeLexeme?, htext] at h
      cases h
      refine ⟨isWord_toDigits n, ?_, fun k rest => ?_⟩
      · have hbracket (cs : List Char) (c : Char) (hc : c.isDigit = false) :
            Nat.toDigits 10 n ≠ c :: cs :=
          fun h => ne_of_mem_toDigits (h ▸ List.mem_cons_self) hc rfl
        rw [Lexeme.node, if_neg (hbracket _ _ rfl), if_neg (hbracket _ _ rfl),
          Scalar.ofPlain_toDigits hn]
      · rw [nodeText, Tree.int, lines, htext]
        simp [Lexeme.text]
    | string s =>
      exact ⟨fits_lexeme? h, node_of_lexeme? h, fun n rest => by
        rw [nodeText, lines, flatten_stringLines h, List.append_assoc]
        rfl⟩
  | @list m ts hts =>
    cases ts with
    | nil =>
      cases h
      exact ⟨isWord_of_unspaced (by decide) (by decide), rfl, fun n rest => rfl⟩
    | cons t ts => cases h
  | @mapping m es hkeys hes =>
    cases es with
    | nil =>
      cases h
      exact ⟨isWord_of_unspaced (by decide) (by decide), rfl, fun n rest => rfl⟩
    | cons e es => cases h

end Block

end Schemata.Yaml
