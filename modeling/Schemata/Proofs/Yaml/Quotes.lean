import Schemata.Json.Lexeme
import Schemata.Proofs.Yaml.Scalars

/-!
# Strings told apart

The text of a string between quotes, or behind a margin, is a prefix code: it tells the string and
where it ends, whatever stands behind it. Behind a literal string that is a line with a smaller
margin; behind a quoted one it is anything but another quote.
-/

namespace Schemata.Yaml.Block

variable {c d : Char} {cs ds current rest rest' x y : List Char} {n : Nat} {fresh : Bool}

/-- Nothing, or a line whose margin is less than `n`. -/
def Outside (n : Nat) (rest : List Char) : Prop :=
  rest = [] ∨ ∃ k c x, k < n ∧ rest = margin k ++ c :: x ∧ c ≠ ' ' ∧ isBreak c = false

theorem margin_append_ne (hc : c ≠ ' ') {k : Nat} (h : k < n) (x y : List Char) :
    margin n ++ x ≠ margin k ++ c :: y := by
  intro he
  obtain ⟨m, rfl⟩ := Nat.exists_eq_add_of_lt h
  rw [margin, Nat.add_assoc, List.replicate_add, ← margin, ← margin, List.append_assoc,
    List.append_cancel_left_eq, Nat.add_comm m 1, margin, List.replicate_add] at he
  exact hc (List.cons.inj he).1.symm

theorem Outside.not_margin (h : Outside n (margin n ++ c :: x)) : False := by
  rcases h with hnil | ⟨k, b, y, hk, he, hb, -⟩
  · simp at hnil
  · exact margin_append_ne hb hk _ _ he

theorem margins_inj
    (h : (if fresh && !isBreak c then margin n else []) ++ c :: x =
      (if fresh && !isBreak d then margin n else []) ++ d :: y) : c = d ∧ x = y := by
  have hmargin (b c : Char) (x y : List Char) (hb : isBreak b) (hc : isBreak c = false)
      (he : b :: x = margin n ++ c :: y) : False := by
    cases n with
    | zero =>
      rw [(List.cons.inj he).1, hc] at hb
      cases hb
    | succ n =>
      have hblank : b = ' ' := (List.cons.inj he).1
      rw [hblank] at hb
      cases hb
  cases fresh with
  | false => simpa using h
  | true =>
    cases hc : isBreak c <;> cases hd : isBreak d <;> simp [hc, hd] at h
    · exact h
    · exact (hmargin d c y x hd hc h.symm).elim
    · exact (hmargin c d x y hc hd h).elim
    · exact h

def freshAfter : (fresh : Bool) → List Char → Bool
  | fresh, [] => fresh
  | _, c :: cs => freshAfter (isBreak c) cs

theorem freshAfter_append (fresh : Bool) (cs : List Char) (c : Char) :
    freshAfter fresh (cs ++ [c]) = isBreak c := by
  induction cs generalizing fresh with
  | nil => rfl
  | cons d cs ih => exact ih (isBreak d)

theorem freshAfter_append_ending (cs : List Char) : freshAfter true (cs ++ ending cs) := by
  rcases List.eq_nil_or_concat cs with rfl | ⟨before, c, rfl⟩
  · rfl
  · rw [List.concat_eq_append, ending, List.getLast?_concat]
    cases hc : isBreak c with
    | false =>
      have hfeed : isBreak '\n' = true := rfl
      simpa [hc, hfeed] using freshAfter_append true (before ++ [c]) '\n'
    | true => simp [hc, freshAfter_append]

theorem spread_append_freshAfter (n : Nat) (fresh : Bool) (x y : List Char) :
    spread n fresh (x ++ y) = spread n fresh x ++ spread n (freshAfter fresh x) y := by
  induction x generalizing fresh with
  | nil => rfl
  | cons c x ih => simp [spread, ih, freshAfter]

theorem spread_true (hne : cs ≠ []) : spread n true cs =
    (if cs.head?.any isBreak then [] else margin n) ++ spread n false cs := by
  obtain ⟨c, cs, rfl⟩ := List.exists_cons_of_ne_nil hne
  cases hc : isBreak c <;> simp [spread, hc]

/-- Of two texts behind margins one is the beginning of the other. -/
theorem spread_split (h : spread n fresh x ++ rest = spread n fresh y ++ rest') :
    (∃ z, y = x ++ z ∧ rest = spread n (freshAfter fresh x) z ++ rest') ∨
      ∃ z, x = y ++ z ∧ rest' = spread n (freshAfter fresh y) z ++ rest := by
  induction x generalizing y fresh with
  | nil => exact .inl ⟨y, rfl, h⟩
  | cons c x ih =>
    cases y with
    | nil => exact .inr ⟨c :: x, rfl, h.symm⟩
    | cons d y =>
      rw [spread, spread, List.append_assoc, List.append_assoc, List.cons_append,
        List.cons_append] at h
      obtain ⟨rfl, h⟩ := margins_inj h
      rcases ih h with ⟨z, rfl, hz⟩ | ⟨z, rfl, hz⟩
      · exact .inl ⟨z, rfl, hz⟩
      · exact .inr ⟨z, rfl, hz⟩

theorem Outside.not_spread (h : Outside n (spread n true (c :: x) ++ rest)) : False := by
  rw [spread] at h
  cases hc : isBreak c with
  | false =>
    rw [hc] at h
    simp only [Bool.not_false, Bool.and_self, if_true, List.append_assoc, List.cons_append] at h
    exact h.not_margin
  | true =>
    rw [hc] at h
    rcases h with hnil | ⟨k, b, y, hk, he, hb, hbreak⟩
    · simp at hnil
    · cases k with
      | zero =>
        rw [(List.cons.inj he).1, hbreak] at hc
        cases hc
      | succ k =>
        rw [(List.cons.inj he).1] at hc
        cases hc

theorem spread_inj (hx : freshAfter true x) (hy : freshAfter true y) (hrest : Outside n rest)
    (hrest' : Outside n rest')
    (h : spread n true x ++ rest = spread n true y ++ rest') : x = y ∧ rest = rest' := by
  rcases spread_split h with ⟨z, rfl, hz⟩ | ⟨z, rfl, hz⟩ <;> cases z with
  | nil => simpa [spread, eq_comm] using hz
  | cons c z =>
    first
    | rw [hx] at hz
      exact (Outside.not_spread (hz ▸ hrest)).elim
    | rw [hy] at hz
      exact (Outside.not_spread (hz ▸ hrest')).elim

/-- The header tells whether the string ends at the end of a line. -/
theorem literalHeader_eq (hne : cs ≠ []) : ∃ marks, '\n' ∉ marks ∧
    literalHeader cs = '|' :: marks ++ ['\n'] ∧ ending cs = if '-' ∈ marks then ['\n'] else [] := by
  obtain ⟨before, c, rfl⟩ := List.eq_nil_or_concat cs |>.resolve_left hne
  rw [List.concat_eq_append]
  unfold literalHeader ending
  rw [List.reverse_append, List.getLast?_concat]
  generalize hstart : (if (before ++ [c]).head?.any isBlankOrBreak then ['2'] else []) = start
  have hin : '\n' ∉ start ∧ '-' ∉ start := by
    rw [← hstart]
    split <;> decide
  cases hc : isBreak c with
  | false => exact ⟨start ++ ['-'], by simp [hin], by simp [hc], by simp [hc]⟩
  | true =>
    cases hbefore : before.reverse with
    | nil => exact ⟨start ++ ['+'], by simp [hin], by simp [hc], by simp [hc, hin]⟩
    | cons d ds =>
      cases hd : isBreak d with
      | false => exact ⟨start, by simp [hin], by simp [hc, hd], by simp [hc, hin]⟩
      | true => exact ⟨start ++ ['+'], by simp [hin], by simp [hc, hd], by simp [hc, hin]⟩

theorem flatten_literalLines (n : Nat) (cs : List Char) :
    (literalLines n cs).flatten = literalHeader cs ++ spread n true (cs ++ ending cs) := by
  rw [literalLines, List.flatten_cons, flatten_linesOf (by simp)]
  by_cases h : cs.getLast?.all isBreak
  · simp [ending, h]
  · have hending : ending cs = ['\n'] := if_neg h
    simp [hending, spread_append (show isBreak '\n' = true from rfl), spread]

theorem literal_inj (hcs : cs ≠ []) (hds : ds ≠ []) (hrest : Outside n rest)
    (hrest' : Outside n rest')
    (h : (literalLines n cs).flatten ++ rest = (literalLines n ds).flatten ++ rest') :
    cs = ds ∧ rest = rest' := by
  obtain ⟨marks, hmarks, hheader, hending⟩ := literalHeader_eq hcs
  obtain ⟨marks', hmarks', hheader', hending'⟩ := literalHeader_eq hds
  rw [flatten_literalLines, flatten_literalLines, hheader, hheader'] at h
  simp only [List.cons_append, List.append_assoc, List.cons.injEq, true_and, List.nil_append] at h
  obtain ⟨rfl, hbody⟩ := cut_inj hmarks hmarks' h
  obtain ⟨htext, rfl⟩ :=
    spread_inj (freshAfter_append_ending cs) (freshAfter_append_ending ds) hrest
    hrest' hbody
  rw [hending, hending', List.append_cancel_right_eq] at htext
  exact ⟨htext, rfl⟩

theorem doubleQuotes_eq (c : Char) :
    doubleQuotes c = c :: if c = '\'' then ['\''] else [] := by
  unfold doubleQuotes
  split
  · rename_i h
    rw [h]
  · rfl

theorem doubleQuotes_inj (hx : x.head? ≠ some '\'') (hy : y.head? ≠ some '\'')
    (h : cs.flatMap doubleQuotes ++ '\'' :: x = ds.flatMap doubleQuotes ++ '\'' :: y) :
    cs = ds ∧ x = y := by
  have hstart (d : Char) (ds x y : List Char) (hx : x.head? ≠ some '\'')
      (h : '\'' :: x = (d :: ds).flatMap doubleQuotes ++ '\'' :: y) : False := by
    rw [List.flatMap_cons, doubleQuotes_eq] at h
    obtain rfl : '\'' = d := (List.cons.inj h).1
    simp [(List.cons.inj h).2] at hx
  induction cs generalizing ds with
  | nil =>
    cases ds with
    | nil => simpa using h
    | cons d ds => exact (hstart d ds x y hx h).elim
  | cons c cs ih =>
    cases ds with
    | nil => exact (hstart c cs y x hy h.symm).elim
    | cons d ds =>
      rw [List.flatMap_cons, List.flatMap_cons, doubleQuotes_eq, doubleQuotes_eq] at h
      obtain rfl : c = d := (List.cons.inj h).1
      rw [List.append_assoc, List.append_assoc, List.append_cancel_left_eq] at h
      obtain ⟨rfl, rfl⟩ := ih h
      exact ⟨rfl, rfl⟩

theorem spread_quoted_inj (hrest : rest.head? ≠ some '\'') (hrest' : rest'.head? ≠ some '\'')
    (h : spread n fresh (cs.flatMap doubleQuotes ++ ['\'']) ++ rest =
      spread n fresh (ds.flatMap doubleQuotes ++ ['\'']) ++ rest') : cs = ds ∧ rest = rest' := by
  have hsame (cs ds z rest rest' : List Char) (hrest : rest.head? ≠ some '\'')
      (htext : ds.flatMap doubleQuotes ++ ['\''] = cs.flatMap doubleQuotes ++ ['\''] ++ z)
      (hz : rest = spread n (freshAfter fresh (cs.flatMap doubleQuotes ++ ['\''])) z ++ rest') :
      ds = cs ∧ rest = rest' := by
    rw [freshAfter_append, show isBreak '\'' = false from rfl] at hz
    have hhead : z.head? ≠ some '\'' := by
      cases z with
      | nil => simp
      | cons d z => simpa [hz, spread] using hrest
    rw [List.append_assoc, List.singleton_append] at htext
    obtain ⟨rfl, rfl⟩ := doubleQuotes_inj (by simp) hhead htext
    exact ⟨rfl, hz⟩
  rcases spread_split h with ⟨z, htext, hz⟩ | ⟨z, htext, hz⟩
  · obtain ⟨rfl, rfl⟩ := hsame cs ds z rest rest' hrest htext hz
    exact ⟨rfl, rfl⟩
  · exact hsame ds cs z rest' rest hrest' htext hz |>.imp id Eq.symm

theorem linesOf_quoted (current cs : List Char) :
    (linesOf current cs).map (·.flatMap doubleQuotes) =
      linesOf (current.reverse.flatMap doubleQuotes).reverse (cs.flatMap doubleQuotes) := by
  have hnil : ∀ cs : List Char, (cs.flatMap doubleQuotes).isEmpty = cs.isEmpty := by
    intro cs
    cases cs <;> simp [doubleQuotes_eq]
  induction cs generalizing current with
  | nil =>
    have hempty := hnil current.reverse
    simp only [linesOf, List.flatMap_nil, List.isEmpty_reverse, hempty]
    cases current <;> simp
  | cons c cs ih =>
    by_cases hc : c = '\''
    · subst c
      have hquote : isBreak '\'' = false := by decide
      simp [linesOf, ih, doubleQuotes, hquote]
    · have hplain : doubleQuotes c = [c] := if_neg hc
      cases hbreak : isBreak c <;> simp [linesOf, ih, hplain, hbreak]

theorem flatten_indented (n : Nat) (hcurrent : ∀ c ∈ current, isBreak c = false) (cs : List Char) :
    ((linesOf current cs).map (indentLine n)).flatten =
      (if current.isEmpty then [] else margin n ++ current.reverse) ++
        spread n current.isEmpty cs := by
  induction cs generalizing current with
  | nil =>
    cases current with
    | nil => rfl
    | cons d ds =>
      have hline := indentLine_append n hcurrent (List.cons_ne_nil d ds) []
      simpa [linesOf, spread] using hline
  | cons c cs ih =>
    cases hc : isBreak c with
    | true =>
      rw [linesOf, if_pos hc, List.map_cons, List.flatten_cons,
        ih (List.forall_mem_nil fun c => isBreak c = false)]
      cases current with
      | nil => simp [indentLine, spread, hc]
      | cons d ds =>
        have hline := indentLine_append n hcurrent (List.cons_ne_nil d ds) [c]
        rw [List.reverse_cons, hline]
        simp [spread, hc]
    | false =>
      have hrest := ih (List.forall_mem_cons.2 ⟨hc, hcurrent⟩)
      cases current <;> simp [linesOf, hc, hrest, spread]

theorem head?_linesOf {first : List Char} {more : List (List Char)}
    (h : linesOf current cs = first :: more) : first.head? = (current.reverse ++ cs).head? := by
  induction cs generalizing current with
  | nil =>
    unfold linesOf at h
    split at h
    · cases h
    · rw [← (List.cons.inj h).1, List.append_nil]
  | cons c cs ih =>
    unfold linesOf at h
    split at h
    · rw [← (List.cons.inj h).1, List.reverse_cons]
      cases current.reverse <;> rfl
    · rw [ih h, List.reverse_cons, List.append_assoc, List.singleton_append]

theorem linesOf_ne_nil (hne : cs ≠ []) (current : List Char) : linesOf current cs ≠ [] := by
  induction cs generalizing current with
  | nil => exact absurd rfl hne
  | cons c cs ih =>
    unfold linesOf
    split
    · exact List.cons_ne_nil _ _
    · cases cs with
      | nil => simp [linesOf]
      | cons d ds => exact ih (List.cons_ne_nil d ds) _

theorem getLast?_quoted (cs : List Char) :
    (cs.flatMap doubleQuotes).getLast?.any isBreak = cs.getLast?.any isBreak := by
  rcases List.eq_nil_or_concat cs with rfl | ⟨before, c, rfl⟩
  · rfl
  · rw [List.concat_eq_append, List.flatMap_append, List.getLast?_concat, List.flatMap_singleton]
    by_cases hc : c = '\''
    · subst c
      simp [doubleQuotes]
    · simp [doubleQuotes, hc]

theorem freshAfter_eq (cs : List Char) : freshAfter false cs = cs.getLast?.any isBreak := by
  rcases List.eq_nil_or_concat cs with rfl | ⟨before, c, rfl⟩
  · rfl
  · rw [List.concat_eq_append, freshAfter_append, List.getLast?_concat]
    rfl

theorem spread_closing (n : Nat) (cs : List Char) :
    spread n false (cs.flatMap doubleQuotes ++ ['\'']) =
      spread n false (cs.flatMap doubleQuotes) ++
        ((if cs.getLast?.any isBreak then margin n else []) ++ ['\'']) := by
  have hquote : isBreak '\'' = false := by decide
  rw [spread_append_freshAfter, freshAfter_eq, getLast?_quoted]
  simp [spread, hquote]

/-- The first line has no margin, so its own is cancelled against that of the whole text. -/
theorem flatten_quotedLines {first : List Char} {more : List (List Char)} (n : Nat)
    (hlines : linesOf [] cs = first :: more) :
    first.flatMap doubleQuotes ++
      (more.map fun l => indentLine n (l.flatMap doubleQuotes)).flatten =
        spread n false (cs.flatMap doubleQuotes) := by
  have hquoted : first.flatMap doubleQuotes :: more.map (·.flatMap doubleQuotes) =
      linesOf [] (cs.flatMap doubleQuotes) := by
    simpa [hlines] using linesOf_quoted [] cs
  have hne : cs.flatMap doubleQuotes ≠ [] := by
    intro hnil
    rw [hnil] at hquoted
    cases hquoted
  have hhead : (first.flatMap doubleQuotes).head? = (cs.flatMap doubleQuotes).head? :=
    head?_linesOf hquoted.symm
  have hindented := flatten_indented n (List.forall_mem_nil fun c => isBreak c = false)
    (cs.flatMap doubleQuotes)
  have hindent (line : List Char) : indentLine n line =
      (if line.head?.any isBreak then [] else margin n) ++ line := by
    unfold indentLine
    split <;> rfl
  rw [← hquoted, List.map_cons, List.flatten_cons, hindent, hhead, List.isEmpty_nil, if_pos rfl,
    List.nil_append, spread_true hne, List.append_assoc, List.append_cancel_left_eq,
    List.map_map] at hindented
  exact hindented

/-- A quoted string runs behind its quote, the closing quote included, over lines with margins. -/
theorem flatten_singleQuotedLines (n : Nat) (cs : List Char) :
    (singleQuotedLines n cs).flatten =
      '\'' :: spread n false (cs.flatMap doubleQuotes ++ ['\'']) ++ ['\n'] := by
  rw [spread_closing]
  unfold singleQuotedLines
  split
  · rename_i hnil
    obtain rfl : cs = [] := by
      by_contra hne
      exact linesOf_ne_nil hne [] hnil
    simp [spread]
  · rename_i first more hlines
    have hbody := flatten_quotedLines n hlines
    dsimp only
    split
    · simp [← hbody]
    · split
      · rename_i hnil
        simp at hnil
      · rename_i last before hreverse
        have hparts : '\'' :: spread n false (cs.flatMap doubleQuotes) =
            before.reverse.flatten ++ last := by
          have hparts := congrArg (fun ls => (List.reverse ls).flatten) hreverse
          simpa [hbody] using hparts
        rw [List.nil_append, List.flatten_append, List.flatten_singleton, ← List.append_assoc,
          ← hparts]
        simp

/-- The number that hexadecimal digits spell. -/
def hexNumber (cs : List Char) : Nat :=
  cs.foldl (fun n c => n * 16 + (Json.hexValue? c).getD 0) 0

theorem hexNumber_append (cs : List Char) (c : Char) :
    hexNumber (cs ++ [c]) = hexNumber cs * 16 + (Json.hexValue? c).getD 0 := by
  simp [hexNumber]

theorem hexNumber_toDigits (n : Nat) :
    hexNumber ((Nat.toDigits 16 n).map Char.toUpper) = n := by
  have hdigit : ∀ d < 16, (Json.hexValue? (Nat.digitChar d).toUpper).getD 0 = d := by decide
  induction n using Nat.strongRecOn with
  | ind n ih =>
    rw [Nat.toDigits_eq_if (by decide)]
    split
    · rename_i hn
      simpa [hexNumber] using hdigit n hn
    · rw [List.map_append, List.map_singleton, hexNumber_append, ih (n / 16) (by omega),
        hdigit _ (Nat.mod_lt n (by decide))]
      omega

theorem hexNumber_hexDigits (width n : Nat) : hexNumber (hexDigits width n) = n := by
  have hzeros (k : Nat) (cs : List Char) :
      hexNumber (List.replicate k '0' ++ cs) = hexNumber cs := by
    induction k with
    | zero => rfl
    | succ k ih => exact ih
  rw [hexDigits, hzeros, hexNumber_toDigits]

theorem length_hexDigits {width : Nat} (hwidth : 0 < width) (h : n < Nat.pow 16 width) :
    (hexDigits width n).length = width := by
  have hlength := (Nat.length_toDigits_le_iff (by decide) hwidth).2 h
  simp only [hexDigits, List.length_append, List.length_replicate, List.length_map]
  omega

theorem hexDigits_inj {width m : Nat} (hwidth : 0 < width) (hn : n < Nat.pow 16 width)
    (hm : m < Nat.pow 16 width) (h : hexDigits width n ++ x = hexDigits width m ++ y) :
    n = m ∧ x = y := by
  have hlength : (hexDigits width n).length = (hexDigits width m).length := by
    rw [length_hexDigits hwidth hn, length_hexDigits hwidth hm]
  obtain ⟨hdigits, htail⟩ := List.append_inj h hlength
  rw [← hexNumber_hexDigits width n, hdigits, hexNumber_hexDigits]
  exact ⟨rfl, htail⟩

/-- What stands for a character that is escaped, behind the backslash. -/
inductive Escapes (c : Char) : List Char → Prop
  | named {e : Char} (h : namedEscapes.lookup c.toNat = some e) : Escapes c [e]
  | byte (h : c.toNat < Nat.pow 16 2) : Escapes c ('x' :: hexDigits 2 c.toNat)
  | unit (h : c.toNat < Nat.pow 16 4) : Escapes c ('u' :: hexDigits 4 c.toNat)
  | wide (h : c.toNat < Nat.pow 16 8) : Escapes c ('U' :: hexDigits 8 c.toNat)

theorem escape_cases (c : Char) : escape c = [c] ∧ c ≠ '"' ∧ c ≠ '\\' ∨
    ∃ code, escape c = '\\' :: code ∧ Escapes c code := by
  unfold escape
  split
  · rename_i h
    simp only [Bool.and_eq_true, decide_eq_true_eq] at h
    exact .inl ⟨rfl, h.1.2, h.2⟩
  · refine .inr ?_
    dsimp only
    split
    · rename_i e he
      exact ⟨_, rfl, .named he⟩
    split
    · rename_i h
      exact ⟨_, rfl, .byte h⟩
    split
    · rename_i h
      exact ⟨_, rfl, .unit h⟩
    · exact ⟨_, rfl, .wide c.val.toNat_lt⟩

theorem Escapes.inj {code code' : List Char} (hc : Escapes c code) (hd : Escapes d code')
    (h : code ++ x = code' ++ y) : c = d ∧ x = y := by
  have hletters : ∀ e ∈ namedEscapes, e.2 ≠ 'x' ∧ e.2 ≠ 'u' ∧ e.2 ≠ 'U' := by decide
  have hnames : ∀ e ∈ namedEscapes, ∀ f ∈ namedEscapes, e.2 = f.2 → e.1 = f.1 := by decide
  have hmem {n : Nat} {e : Char} (h : namedEscapes.lookup n = some e) : (n, e) ∈ namedEscapes := by
    obtain ⟨before, after, hparts, -⟩ := List.lookup_eq_some_iff.1 h
    rw [hparts]
    simp
  cases hc with
  | named hc =>
    cases hd with
    | named hd =>
      obtain ⟨rfl, rfl⟩ : _ = _ ∧ x = y := List.cons.inj h
      exact ⟨Char.toNat_inj.1 (hnames _ (hmem hc) _ (hmem hd) rfl), rfl⟩
    | byte => exact absurd (List.cons.inj h).1 (hletters _ (hmem hc)).1
    | unit => exact absurd (List.cons.inj h).1 (hletters _ (hmem hc)).2.1
    | wide => exact absurd (List.cons.inj h).1 (hletters _ (hmem hc)).2.2
  | byte hc =>
    cases hd with
    | named hd => exact absurd (List.cons.inj h).1.symm (hletters _ (hmem hd)).1
    | byte hd => exact (hexDigits_inj (by decide) hc hd (List.cons.inj h).2).imp Char.toNat_inj.1 id
    | unit | wide => cases h
  | unit hc =>
    cases hd with
    | named hd => exact absurd (List.cons.inj h).1.symm (hletters _ (hmem hd)).2.1
    | unit hd => exact (hexDigits_inj (by decide) hc hd (List.cons.inj h).2).imp Char.toNat_inj.1 id
    | byte | wide => cases h
  | wide hc =>
    cases hd with
    | named hd => exact absurd (List.cons.inj h).1.symm (hletters _ (hmem hd)).2.2
    | wide hd => exact (hexDigits_inj (by decide) hc hd (List.cons.inj h).2).imp Char.toNat_inj.1 id
    | byte | unit => cases h

theorem escape_inj (h : escape c ++ x = escape d ++ y) : c = d ∧ x = y := by
  rcases escape_cases c with ⟨hc, -, hslash⟩ | ⟨code, hc, hcode⟩ <;>
    rcases escape_cases d with ⟨hd, -, hslash'⟩ | ⟨code', hd, hcode'⟩ <;> rw [hc, hd] at h
  · exact List.cons.inj h
  · exact absurd (List.cons.inj h).1 hslash
  · exact absurd (List.cons.inj h).1.symm hslash'
  · exact hcode.inj hcode' (List.cons.inj h).2

theorem escaped_inj (h : cs.flatMap escape ++ '"' :: x = ds.flatMap escape ++ '"' :: y) :
    cs = ds ∧ x = y := by
  have hquote (d : Char) (x y : List Char) (h : '"' :: x = escape d ++ y) : False := by
    rcases escape_cases d with ⟨hd, hne, -⟩ | ⟨code, hd, -⟩ <;> rw [hd] at h
    · exact hne (List.cons.inj h).1.symm
    · cases h
  induction cs generalizing ds with
  | nil =>
    cases ds with
    | nil => simpa using h
    | cons d ds =>
      rw [List.flatMap_cons, List.append_assoc] at h
      exact (hquote _ _ _ h).elim
  | cons c cs ih =>
    cases ds with
    | nil =>
      rw [List.flatMap_cons, List.append_assoc] at h
      exact (hquote _ _ _ h.symm).elim
    | cons d ds =>
      rw [List.flatMap_cons, List.flatMap_cons, List.append_assoc, List.append_assoc] at h
      obtain ⟨rfl, htail⟩ := escape_inj h
      obtain ⟨rfl, rfl⟩ := ih htail
      exact ⟨rfl, rfl⟩

end Schemata.Yaml.Block
