import Schemata.Proofs.Yaml.Words

/-!
# Trees written as block documents

No two exact trees have the same block text. Lines of a node have its margin at least, and what
stands behind a node is a line with a smaller margin or, behind a list, one that is no item; so a
text is taken apart from its beginning, and each node tells where it ends.
-/

namespace Schemata.Yaml

open Json (Exact)

namespace Block

variable {rest rest' : List Char} {n m : Nat} {t u : Tree} {ts us : List Tree} {es fs : Entries}
  {key key' : String}

def items (n : Nat) (ts : List Tree) : List Char :=
  ts.flatMap fun t => margin n ++ '-' :: ' ' :: nodeText t (n + 2)

def entryText (n : Nat) (e : String × Tree) : List Char :=
  (entryLines n e.1 e.2 (lines e.2 (valueIndent n e.1 e.2))).flatten

/-- The entries of a mapping at a margin. -/
def entries (n : Nat) (es : Entries) : List Char := es.flatMap fun e => margin n ++ entryText n e

def valueText (n : Nat) (key : String) (t : Tree) : List Char :=
  if isCollection t then
    '\n' :: (margin (valueIndent n key t) ++ nodeText t (valueIndent n key t))
  else ' ' :: nodeText t (n + 2)

theorem valueText_scalar (h : isCollection t = false) (n : Nat) (key : String) :
    valueText n key t = ' ' :: nodeText t (n + 2) := by
  rw [valueText, h, if_neg Bool.false_ne_true]

theorem lead_ne_nil (text : List Char) (ls : List (List Char)) : lead text ls ≠ [] := by
  cases ls <;> exact List.cons_ne_nil _ _

theorem stringLines_ne_nil (s : String) (n : Nat) : stringLines n s ≠ [] := by
  cases h : lexeme? s with
  | none =>
    rw [(literal_of_lexeme? h).2 n]
    exact List.cons_ne_nil _ _
  | some a =>
    intro hnil
    have htext := flatten_stringLines h n
    rw [hnil] at htext
    simp at htext

theorem entryLines_ne_nil (n : Nat) (key : String) (t : Tree) (ls : List (List Char)) :
    entryLines n key t ls ≠ [] := by
  unfold entryLines
  dsimp only
  split
  · split
    · exact List.cons_ne_nil _ _
    · exact lead_ne_nil _ _
  · exact List.append_ne_nil_of_left_ne_nil (lead_ne_nil _ _) _

theorem lines_ne_nil (t : Tree) (n : Nat) : lines t n ≠ [] := by
  cases t with
  | string s => exact stringLines_ne_nil s n
  | list ts =>
    cases ts with
    | nil => exact List.cons_ne_nil _ _
    | cons t ts => exact List.append_ne_nil_of_left_ne_nil (lead_ne_nil _ _) _
  | mapping es =>
    cases es with
    | nil => exact List.cons_ne_nil _ _
    | cons e es => exact List.append_ne_nil_of_left_ne_nil (entryLines_ne_nil _ _ _ _) _
  | _ => exact List.cons_ne_nil _ _

theorem flatten_itemLines (ts : List Tree) (n : Nat) : (itemLines ts n).flatten = items n ts := by
  induction ts with
  | nil => rfl
  | cons t ts ih =>
    rw [itemLines, List.flatten_append, flatten_lead (lines_ne_nil t _), ih, items, items,
      List.flatMap_cons, nodeText, List.append_assoc (margin n)]
    rfl

theorem flatten_entriesLines (es : Entries) (n : Nat) :
    (entriesLines es n).flatten = entries n es := by
  induction es with
  | nil => rfl
  | cons e es ih =>
    rw [entriesLines, List.flatten_append, flatten_lead (entryLines_ne_nil _ _ _ _), ih]
    rfl

/-- The first item has its margin from what stands before the list. -/
theorem margin_nodeText_list (t : Tree) (ts : List Tree) (n : Nat) :
    margin n ++ nodeText (.list (t :: ts)) n = items n (t :: ts) := by
  rw [nodeText, lines, List.flatten_append, flatten_lead (lines_ne_nil t _), flatten_itemLines,
    items, items, List.flatMap_cons, nodeText, List.append_assoc, List.append_assoc]
  rfl

theorem margin_nodeText_mapping (e : String × Tree) (es : Entries) (n : Nat) :
    margin n ++ nodeText (.mapping (e :: es)) n = entries n (e :: es) := by
  rw [nodeText, lines, List.flatten_append, flatten_entriesLines, entries, entries,
    List.flatMap_cons, List.append_assoc]
  rfl

theorem entryText_simple (h : isSimpleKey key) : ∃ a : Lexeme, a.Fits ∧ a.node = .string key ∧
    ∀ n k t, entryText n (key, t) = a.text k ++ ':' :: valueText n key t := by
  have hbreak : key.toList.any isBreak = false := by
    simp only [isSimpleKey, traits, Bool.and_eq_true, Bool.not_eq_true'] at h
    exact h.1
  cases hkey : lexeme? key with
  | none => exact absurd (literal_of_lexeme? hkey).1 (notMem_of_notBreak hbreak)
  | some a =>
    refine ⟨a, fits_lexeme? hkey, node_of_lexeme? hkey, fun n k t => ?_⟩
    have htext : (stringLines (n + 2) key).flatten.dropLast = a.text k := by
      rw [flatten_stringLines hkey, List.dropLast_concat, text_lexeme?_eq hkey hbreak _ k]
    rw [entryText, entryLines, if_pos h, htext, valueText]
    split
    · rw [List.flatten_cons, flatten_lead (lines_ne_nil t _), nodeText]
      simp
    · rename_i hcollection
      have hindent : valueIndent n key t = n + 2 := by
        unfold valueIndent
        split
        · exact absurd rfl hcollection
        · rfl
      rw [flatten_lead (lines_ne_nil t _), hindent, nodeText]
      simp

theorem entryText_complex (h : isSimpleKey key = false) (n : Nat) (t : Tree) :
    entryText n (key, t) = '?' :: ' ' :: (nodeText (.string key) (n + 2) ++
      (margin n ++ ':' :: ' ' :: nodeText t (n + 2))) := by
  have hindent : valueIndent n key t = n + 2 := by
    unfold valueIndent
    split
    · rw [if_neg (by simp [h])]
    · rfl
  rw [entryText, entryLines, if_neg (by simp [h]), List.flatten_append,
    flatten_lead (stringLines_ne_nil _ _), flatten_lead (lines_ne_nil t _), hindent, nodeText,
    nodeText, lines]
  simp

/-- What stands behind a list: a line that is no item of it, with no larger margin. -/
def Below (n : Nat) (rest : List Char) : Prop :=
  Outside (n + 1) rest ∧ ∀ x, rest ≠ margin n ++ '-' :: ' ' :: x

def Ends : Tree → Nat → List Char → Prop
  | .list (_ :: _), n, rest => Below n rest
  | _, n, rest => Outside n rest

/-- The text of a node tells the node and its end. -/
def Tells (t : Tree) : Prop :=
  ∀ {m u n rest rest'}, Exact m u → Ends t n rest → Ends u n rest' →
    nodeText t n ++ rest = nodeText u n ++ rest' → t = u ∧ rest = rest'

theorem Outside.mono (h : Outside n rest) (hn : n ≤ m) : Outside m rest := by
  rcases h with rfl | ⟨k, c, x, hk, h⟩
  · exact .inl rfl
  · exact .inr ⟨k, c, x, Nat.lt_of_lt_of_le hk hn, h⟩

theorem Outside.below (h : Outside n rest) : Below n rest := by
  refine ⟨h.mono (Nat.le_succ n), ?_⟩
  rintro x rfl
  exact h.not_margin

theorem Outside.ends (h : Outside n rest) (t : Tree) : Ends t n rest := by
  unfold Ends
  split
  · exact h.below
  · exact h

theorem Below.outside (h : Below n rest) : Outside (n + 2) rest := h.1.mono (by omega)

theorem outside_of_ends (h : Ends t n rest) (ht : isCollection t = false) : Outside n rest := by
  unfold Ends at h
  split at h
  · cases ht
  · exact h

theorem stops_feed (rest : List Char) : Stops ('\n' :: rest) := .inl ⟨rest, rfl⟩

theorem stops_value (n : Nat) (key : String) (t : Tree) (rest : List Char) :
    Stops (':' :: valueText n key t ++ rest) := by
  unfold valueText
  split
  · exact .inr ⟨'\n', _, rfl, .inr rfl⟩
  · exact .inr ⟨' ', _, rfl, .inl rfl⟩

/-- An entry begins as a scalar of one line or with a question mark. -/
theorem start_entryText (n : Nat) (e : String × Tree) (rest : List Char) :
    Start.of (entryText n e ++ rest) = .question ∨
      ∃ a : Lexeme, Start.of (entryText n e ++ rest) = a.start := by
  obtain ⟨key, t⟩ := e
  cases hkey : isSimpleKey key with
  | true =>
    obtain ⟨a, hfits, -, htext⟩ := entryText_simple hkey
    refine .inr ⟨a, ?_⟩
    rw [htext n n t, List.append_assoc]
    exact a.start_text hfits n (stops_value n key t rest)
  | false =>
    rw [entryText_complex hkey]
    exact .inl rfl

theorem exists_first_entryText (n : Nat) (e : String × Tree) :
    ∃ c x, entryText n e = c :: x ∧ c ≠ ' ' ∧ isBreak c = false := by
  obtain ⟨key, t⟩ := e
  cases hkey : isSimpleKey key with
  | true =>
    obtain ⟨a, hfits, -, htext⟩ := entryText_simple hkey
    obtain ⟨c, x, hfirst, hc⟩ := a.exists_first hfits n
    exact ⟨c, _, by rw [htext n n t, hfirst]; rfl, hc⟩
  | false => exact ⟨'?', _, entryText_complex hkey n t, by decide, by decide⟩

theorem nodeLexeme?_eq_none (h : nodeLexeme? t = none) (ht : isCollection t = false) :
    ∃ s, t = .string s ∧ lexeme? s = none := by
  unfold nodeLexeme? at h
  split at h
  · cases h
  · cases h
  · cases h
  · exact ⟨_, rfl, h⟩
  · cases h
  · cases h
  · cases ht
  · cases ht

theorem start_literal {s : String} (h : lexeme? s = none) (n : Nat) (rest : List Char) :
    Start.of (nodeText (.string s) n ++ rest) = .literal := by
  rw [nodeText, lines, (literal_of_lexeme? h).2 n]
  rfl

theorem items_cons (n : Nat) (t : Tree) (ts : List Tree) (rest : List Char) :
    items n (t :: ts) ++ rest =
      margin n ++ '-' :: ' ' :: (nodeText t (n + 2) ++ (items n ts ++ rest)) := by
  simp [items]

theorem entries_cons (n : Nat) (e : String × Tree) (es : Entries) (rest : List Char) :
    entries n (e :: es) ++ rest = margin n ++ (entryText n e ++ (entries n es ++ rest)) := by
  simp [entries]

theorem list_append (n : Nat) (t : Tree) (ts : List Tree) (rest : List Char) :
    nodeText (.list (t :: ts)) n ++ rest =
      '-' :: ' ' :: (nodeText t (n + 2) ++ (items n ts ++ rest)) := by
  refine (List.append_right_inj (margin n)).1 ?_
  rw [← List.append_assoc, margin_nodeText_list, items_cons]

theorem mapping_append (n : Nat) (e : String × Tree) (es : Entries) (rest : List Char) :
    nodeText (.mapping (e :: es)) n ++ rest = entryText n e ++ (entries n es ++ rest) := by
  refine (List.append_right_inj (margin n)).1 ?_
  rw [← List.append_assoc, margin_nodeText_mapping, entries_cons]

theorem exists_of_isCollection (h : isCollection t) :
    (∃ u us, t = .list (u :: us)) ∨ ∃ e es, t = .mapping (e :: es) := by
  unfold isCollection at h
  split at h
  · exact .inl ⟨_, _, rfl⟩
  · exact .inr ⟨_, _, rfl⟩
  · cases h

/-- Nothing but a collection begins like one. -/
theorem scalar_ne_collection {k : Nat} (ht : Exact m t) (hscalar : isCollection t = false)
    (hu : isCollection u) : nodeText t n ++ rest ≠ nodeText u k ++ rest' := by
  intro h
  have hstart : Start.of (nodeText u k ++ rest') = .literal ∨
      ∃ a : Lexeme, a.Fits ∧ nodeText u k ++ rest' = a.text n ++ '\n' :: rest := by
    cases hlexeme : nodeLexeme? t with
    | none =>
      obtain ⟨s, rfl, hs⟩ := nodeLexeme?_eq_none hlexeme hscalar
      exact .inl (h ▸ start_literal hs n rest)
    | some a =>
      obtain ⟨hfits, -, htext⟩ := node_of_nodeLexeme? ht hlexeme
      exact .inr ⟨a, hfits, by rw [← h, htext]⟩
  have hword {a : Lexeme} {x : List Char} (hfits : a.Fits)
      (hx : x = a.text n ++ '\n' :: rest) : Start.of x = a.start := by
    rw [hx, a.start_text hfits n (stops_feed rest)]
  match u with
  | .list (u :: us) =>
    rw [list_append] at hstart
    rcases hstart with hliteral | ⟨a, hfits, ha⟩
    · cases hliteral
    · have hitem : Start.item = a.start := hword hfits ha
      cases a <;> cases hitem
  | .mapping ((key, v) :: es) =>
    rw [mapping_append] at hstart
    cases hkey : isSimpleKey key with
    | true =>
      obtain ⟨b, hb, -, htext⟩ := entryText_simple hkey
      have hstops := stops_value k key v (entries k es ++ rest')
      rw [htext k n v, List.append_assoc] at hstart
      rcases hstart with hliteral | ⟨a, hfits, ha⟩
      · rw [b.start_text hb n hstops] at hliteral
        cases b <;> cases hliteral
      · cases (Lexeme.text_inj hb hfits hstops (stops_feed rest) ha).2
    | false =>
      rw [entryText_complex hkey] at hstart
      rcases hstart with hliteral | ⟨a, hfits, ha⟩
      · cases hliteral
      · have hquestion : Start.question = a.start := hword hfits ha
        cases a <;> cases hquestion

theorem scalar_inj {k : Nat} (ht : Exact m t) (hu : Exact k u) (hscalar : isCollection t = false)
    (hscalar' : isCollection u = false) (hrest : Outside n rest) (hrest' : Outside n rest')
    (h : nodeText t n ++ rest = nodeText u n ++ rest') : t = u ∧ rest = rest' := by
  cases hlexeme : nodeLexeme? t with
  | none =>
    obtain ⟨s, rfl, hs⟩ := nodeLexeme?_eq_none hlexeme hscalar
    have hstart := start_literal hs n rest
    cases hlexeme' : nodeLexeme? u with
    | none =>
      obtain ⟨s', rfl, hs'⟩ := nodeLexeme?_eq_none hlexeme' hscalar'
      obtain ⟨hfeed, hlines⟩ := literal_of_lexeme? hs
      obtain ⟨hfeed', hlines'⟩ := literal_of_lexeme? hs'
      rw [nodeText, nodeText, lines, lines, hlines, hlines'] at h
      obtain ⟨hchars, hrests⟩ :=
        literal_inj (List.ne_nil_of_mem hfeed) (List.ne_nil_of_mem hfeed') hrest hrest' h
      exact ⟨congrArg Tree.string (String.toList_inj.1 hchars), hrests⟩
    | some b =>
      obtain ⟨hfits, -, htext⟩ := node_of_nodeLexeme? hu hlexeme'
      rw [h, htext, b.start_text hfits n (stops_feed rest')] at hstart
      cases b <;> cases hstart
  | some a =>
    obtain ⟨hfits, hnode, htext⟩ := node_of_nodeLexeme? ht hlexeme
    cases hlexeme' : nodeLexeme? u with
    | none =>
      obtain ⟨s', rfl, hs'⟩ := nodeLexeme?_eq_none hlexeme' hscalar'
      have hstart := start_literal hs' n rest'
      rw [← h, htext, a.start_text hfits n (stops_feed rest)] at hstart
      cases a <;> cases hstart
    | some b =>
      obtain ⟨hfits', hnode', htext'⟩ := node_of_nodeLexeme? hu hlexeme'
      rw [htext, htext'] at h
      obtain ⟨rfl, hrests⟩ := Lexeme.text_inj hfits hfits' (stops_feed rest) (stops_feed rest') h
      exact ⟨hnode.symm.trans hnode', (List.cons.inj hrests).2⟩

theorem list_ne_mapping (n k : Nat) (t : Tree) (ts : List Tree) (e : String × Tree) (es : Entries)
    (rest rest' : List Char) :
    nodeText (.list (t :: ts)) n ++ rest ≠ nodeText (.mapping (e :: es)) k ++ rest' := by
  intro h
  rw [list_append, mapping_append] at h
  rcases start_entryText k e (entries k es ++ rest') with hstart | ⟨a, hstart⟩ <;>
    rw [← h] at hstart
  · cases hstart
  · cases a <;> cases hstart

theorem Outside.entries (h : Outside n rest) (es : Entries) : Below n (entries n es ++ rest) := by
  cases es with
  | nil => exact h.below
  | cons e es =>
    obtain ⟨c, x, hfirst, hblank, hbreak⟩ := exists_first_entryText n e
    rw [entries_cons]
    refine ⟨.inr ⟨n, c, _, Nat.lt_succ_self n, by rw [hfirst]; rfl, hblank, hbreak⟩, fun y hy => ?_⟩
    rw [List.append_cancel_left_eq] at hy
    rcases start_entryText n e (Block.entries n es ++ rest) with hstart | ⟨a, hstart⟩ <;>
      rw [hy] at hstart
    · cases hstart
    · cases a <;> cases hstart

theorem Below.items (h : Below n rest) (ts : List Tree) : Outside (n + 2) (items n ts ++ rest) := by
  cases ts with
  | nil => exact h.outside
  | cons t ts =>
    rw [items_cons]
    exact .inr ⟨n, '-', _, by omega, rfl, by decide, by decide⟩

theorem items_inj (hts : ∀ t ∈ ts, Tells t) (hus : ∀ u ∈ us, Exact m u) (hrest : Below n rest)
    (hrest' : Below n rest') (h : items n ts ++ rest = items n us ++ rest') :
    ts = us ∧ rest = rest' := by
  induction ts generalizing us with
  | nil =>
    cases us with
    | nil => exact ⟨rfl, h⟩
    | cons u us =>
      rw [items_cons] at h
      exact (hrest.2 _ h).elim
  | cons t ts ih =>
    rw [List.forall_mem_cons] at hts
    cases us with
    | nil =>
      rw [items_cons] at h
      exact (hrest'.2 _ h.symm).elim
    | cons u us =>
      rw [List.forall_mem_cons] at hus
      rw [items_cons, items_cons, List.append_cancel_left_eq] at h
      obtain ⟨rfl, hmore⟩ := hts.1 hus.1 ((hrest.items ts).ends t) ((hrest'.items us).ends u)
        (List.cons.inj (List.cons.inj h).2).2
      obtain ⟨rfl, rfl⟩ := ih hts.2 hus.2 hmore
      exact ⟨rfl, rfl⟩

theorem value_inj (ht : Tells t) (hu : Exact m u) (hrest : Below n rest) (hrest' : Below n rest')
    (hkey : isSimpleKey key) (h : valueText n key t ++ rest = valueText n key u ++ rest') :
    t = u ∧ rest = rest' := by
  have hlist (u : Tree) (us : List Tree) : valueIndent n key (.list (u :: us)) = n := if_pos hkey
  have hmapping (e : String × Tree) (es : Entries) :
      valueIndent n key (.mapping (e :: es)) = n + 2 := rfl
  cases hc : isCollection t <;> cases hc' : isCollection u <;>
    simp only [valueText, hc, hc', if_true, if_false, Bool.false_eq_true, List.cons_append,
      List.cons.injEq, Char.reduceEq, false_and, true_and] at h
  · exact ht hu (hrest.outside.ends t) (hrest'.outside.ends u) h
  · rw [List.append_assoc, List.append_assoc] at h
    rcases exists_of_isCollection hc with ⟨t, ts, rfl⟩ | ⟨e, es, rfl⟩ <;>
      rcases exists_of_isCollection hc' with ⟨u, us, rfl⟩ | ⟨f, fs, rfl⟩
    · rw [hlist, hlist, List.append_cancel_left_eq] at h
      exact ht hu hrest hrest' h
    · rw [hlist, hmapping, list_append] at h
      exact (margin_append_ne (by decide) (by omega) _ _ h.symm).elim
    · rw [hlist, hmapping, list_append] at h
      exact (margin_append_ne (by decide) (by omega) _ _ h).elim
    · rw [hmapping, hmapping, List.append_cancel_left_eq] at h
      exact ht hu hrest.outside hrest'.outside h

theorem entry_inj (ht : Tells t) (hu : Exact m u) (hrest : Below n rest) (hrest' : Below n rest')
    (h : entryText n (key, t) ++ rest = entryText n (key', u) ++ rest') :
    key = key' ∧ t = u ∧ rest = rest' := by
  -- a simple key begins no entry whose key is not
  have hapart {key key' : String} {t u : Tree} {rest rest' : List Char} (hkey : isSimpleKey key)
      (hkey' : isSimpleKey key' = false)
      (h : entryText n (key, t) ++ rest = entryText n (key', u) ++ rest') : False := by
    obtain ⟨a, hfits, -, htext⟩ := entryText_simple hkey
    rw [htext n n t, List.append_assoc, entryText_complex hkey'] at h
    have hstart := a.start_text hfits n (stops_value n key t rest)
    rw [h] at hstart
    cases a <;> cases hstart
  cases hkey : isSimpleKey key <;> cases hkey' : isSimpleKey key'
  · rw [entryText_complex hkey, entryText_complex hkey'] at h
    simp only [List.cons_append, List.append_assoc, List.cons.injEq, true_and] at h
    have houtside (x : List Char) : Outside (n + 2) (margin n ++ ':' :: x) :=
      .inr ⟨n, ':', x, by omega, rfl, by decide, by decide⟩
    have hstring (s : String) : Exact 0 (.string s) := .scalar (.string s)
    obtain ⟨hkeys, hvalue⟩ :=
      scalar_inj (hstring key) (hstring key') rfl rfl (houtside _) (houtside _) h
    simp only [List.append_cancel_left_eq, List.cons.injEq, true_and] at hvalue
    obtain ⟨rfl, rfl⟩ := ht hu (hrest.outside.ends t) (hrest'.outside.ends u) hvalue
    exact ⟨Tree.string.inj hkeys, rfl, rfl⟩
  · exact (hapart hkey' hkey h.symm).elim
  · exact (hapart hkey hkey' h).elim
  · obtain ⟨a, hfits, hnode, htext⟩ := entryText_simple hkey
    obtain ⟨b, hfits', hnode', htext'⟩ := entryText_simple hkey'
    rw [htext n n t, htext' n n u, List.append_assoc, List.append_assoc] at h
    obtain ⟨rfl, hvalue⟩ :=
      Lexeme.text_inj hfits hfits' (stops_value n key t rest) (stops_value n key' u rest') h
    obtain rfl := Tree.string.inj (hnode.symm.trans hnode')
    obtain ⟨rfl, rfl⟩ := value_inj ht hu hrest hrest' hkey (List.cons.inj hvalue).2
    exact ⟨rfl, rfl, rfl⟩

theorem entries_inj (hes : ∀ e ∈ es, Tells e.2) (hfs : ∀ e ∈ fs, Exact m e.2)
    (hrest : Outside n rest) (hrest' : Outside n rest')
    (h : entries n es ++ rest = entries n fs ++ rest') : es = fs ∧ rest = rest' := by
  have hnot {rest : List Char} (e : String × Tree) (es : Entries) (rest' : List Char)
      (hrest : Outside n rest) (h : rest = entries n (e :: es) ++ rest') : False := by
    obtain ⟨c, x, hfirst, -, -⟩ := exists_first_entryText n e
    rw [h, entries_cons, hfirst] at hrest
    exact hrest.not_margin
  induction es generalizing fs with
  | nil =>
    cases fs with
    | nil => exact ⟨rfl, h⟩
    | cons f fs => exact (hnot f fs rest' hrest h).elim
  | cons e es ih =>
    rw [List.forall_mem_cons] at hes
    cases fs with
    | nil => exact (hnot e es rest hrest' h.symm).elim
    | cons f fs =>
      obtain ⟨key, t⟩ := e
      obtain ⟨key', u⟩ := f
      rw [List.forall_mem_cons] at hfs
      rw [entries_cons, entries_cons, List.append_cancel_left_eq] at h
      obtain ⟨rfl, rfl, hmore⟩ := entry_inj hes.1 hfs.1 (hrest.entries es) (hrest'.entries fs) h
      obtain ⟨rfl, rfl⟩ := ih hes.2 hfs.2 hmore
      exact ⟨rfl, rfl⟩

theorem tells_of_scalar (ht : Exact m t) (hc : isCollection t = false) : Tells t := by
  intro k u n rest rest' hu hrest hrest' h
  cases hc' : isCollection u with
  | true => exact (scalar_ne_collection ht hc hc' h).elim
  | false => exact scalar_inj ht hu hc hc' (outside_of_ends hrest hc) (outside_of_ends hrest' hc') h

theorem tells_of_exact (ht : Exact m t) : Tells t := by
  induction ht with
  | scalar hs =>
    exact tells_of_scalar (.scalar hs : Exact 0 _) (by cases hs <;> rfl)
  | @list m ts hts ih =>
    intro k u n rest rest' hu hrest hrest' h
    cases ts with
    | nil => exact tells_of_scalar (.list hts) rfl hu hrest hrest' h
    | cons t ts =>
      cases hc : isCollection u with
      | false => exact (tells_of_scalar hu hc (.list hts) hrest' hrest h.symm).imp Eq.symm Eq.symm
      | true =>
        rcases exists_of_isCollection hc with ⟨u, us, rfl⟩ | ⟨f, fs, rfl⟩
        · have hitems : items n (t :: ts) ++ rest = items n (u :: us) ++ rest' := by
            rw [← margin_nodeText_list, ← margin_nodeText_list, List.append_assoc, h,
              List.append_assoc]
          cases hu with
          | scalar hs => cases hs
          | list hus => exact (items_inj ih hus hrest hrest' hitems).imp (congrArg Tree.list) id
        · exact (list_ne_mapping n n t ts f fs rest rest' h).elim
  | @mapping m es hkeys hes ih =>
    intro k u n rest rest' hu hrest hrest' h
    cases es with
    | nil => exact tells_of_scalar (.mapping hkeys hes) rfl hu hrest hrest' h
    | cons e es =>
      cases hc : isCollection u with
      | false =>
        exact (tells_of_scalar hu hc (.mapping hkeys hes) hrest' hrest h.symm).imp Eq.symm Eq.symm
      | true =>
        rcases exists_of_isCollection hc with ⟨u, us, rfl⟩ | ⟨f, fs, rfl⟩
        · exact (list_ne_mapping n n u us e es rest' rest h.symm).elim
        · have hentries : entries n (e :: es) ++ rest = entries n (f :: fs) ++ rest' := by
            rw [← margin_nodeText_mapping, ← margin_nodeText_mapping, List.append_assoc, h,
              List.append_assoc]
          cases hu with
          | scalar hs => cases hs
          | mapping _ hfs =>
            exact (entries_inj ih hfs hrest hrest' hentries).imp (congrArg Tree.mapping) id

end Block

/-- No two exact trees have one text. -/
theorem block_inj {m k : Nat} {t u : Tree} (ht : Exact m t) (hu : Exact k u)
    (h : block t = block u) : t = u := by
  have htext := String.ofList_injective h
  have hends (t : Tree) (n : Nat) : Block.Ends t n [] := Block.Outside.ends (.inl rfl) t
  cases hc : Block.isCollection t <;> cases hc' : Block.isCollection u <;> rw [hc, hc'] at htext
  · exact (Block.tells_of_exact ht hu (hends t _) (hends u _) (congrArg (· ++ []) htext)).1
  · exact (Block.scalar_ne_collection ht hc hc' (congrArg (· ++ []) htext)).elim
  · exact (Block.scalar_ne_collection hu hc' hc (congrArg (· ++ []) htext.symm)).elim
  · exact (Block.tells_of_exact ht hu (hends t _) (hends u _) (congrArg (· ++ []) htext)).1

end Schemata.Yaml
