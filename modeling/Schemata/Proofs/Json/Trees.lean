import Schemata.Proofs.Json.Scalars

/-!
# Trees written as JSON

The compact text of a tree and the indented one differ in the white space between their tokens. From
either the tree is read back, if it is exact: its numbers are counts of 64 bits, no mapping has a
key twice, and its collections are nested no deeper than a reader goes.
-/

namespace Schemata.Json

/-- A tree of words, strings and counts, with distinct keys and so many levels of collections. -/
inductive Exact : Nat → Tree → Prop where
  | scalar {n : Nat} {t : Tree} (h : Scalar t) : Exact n t
  | list {n : Nat} {ts : List Tree} (h : ∀ t ∈ ts, Exact n t) : Exact (n + 1) (.list ts)
  | mapping {n : Nat} {es : Entries} (hkeys : es.keys.Nodup) (h : ∀ e ∈ es, Exact n e.2) :
    Exact (n + 1) (.mapping es)

/-- White space before the members at a depth, and behind the colon of a key. -/
structure Spacing where
  line : Nat → List Char
  colon : List Char
  isSpace_line : ∀ d, (line d).all Cursor.isSpace
  isSpace_colon : colon.all Cursor.isSpace

namespace Spacing

variable (σ : Spacing) (d : Nat)

/-- The members of a collection up to its closing bracket; the first of all has no comma before
it. -/
def members (closing : Char) : (first : Bool) → List (List Char) → List Char
  | first, [] => (if first then [] else σ.line d) ++ [closing]
  | first, m :: ms =>
    (if first then [] else [',']) ++ (σ.line (d + 1) ++ (m ++ members closing false ms))

def entry (key : String) (value : List Char) : List Char :=
  (quoted key).toList ++ ':' :: (σ.colon ++ value)

structure Spaces (text : Nat → Tree → List Char) : Prop where
  scalar : ∀ {d t}, Scalar t → text d t = t.compact.toList
  list : ∀ {d ts}, text d (.list ts) = '[' :: σ.members d ']' true (ts.map (text (d + 1)))
  mapping : ∀ {d} {es : Entries}, text d (.mapping es) =
    '\x7b' :: σ.members d '\x7d' true (es.map fun e => σ.entry e.1 (text (d + 1) e.2))

theorem members_eq (closing : Char) (m : List Char) (ms : List (List Char)) :
    σ.members d closing true (m :: ms) =
      [','].intercalate ((m :: ms).map (σ.line (d + 1) ++ ·)) ++ (σ.line d ++ [closing]) := by
  have hcomma (m : List Char) (ms : List (List Char)) :
      σ.members d closing false (m :: ms) = ',' :: σ.members d closing true (m :: ms) := rfl
  induction ms generalizing m with
  | nil => simp [members]
  | cons m' ms ih =>
    rw [List.map_cons, List.map_cons, List.intercalate_cons_cons, ← List.map_cons, List.append_assoc,
      List.append_assoc, ← ih, List.singleton_append, ← hcomma, List.append_assoc]
    rfl

def none : Spacing := ⟨fun _ => [], [], fun _ => rfl, rfl⟩

def lines : Spacing where
  line d := '\n' :: List.replicate (2 * d) ' '
  colon := [' ']
  isSpace_line d := by simp [Cursor.isSpace]
  isSpace_colon := by decide

theorem members_none (closing : Char) (ms : List (List Char)) :
    none.members d closing true ms = [','].intercalate ms ++ [closing] := by
  cases ms with
  | nil => rfl
  | cons m ms =>
    rw [members_eq]
    simp [none]

theorem map_compactItems (ts : List Tree) :
    (Tree.compactItems ts).map String.toList = ts.map fun t => t.compact.toList := by
  induction ts with
  | nil => rfl
  | cons t ts ih => rw [Tree.compactItems, List.map_cons, ih, List.map_cons]

theorem map_compactEntries (es : Entries) : (Tree.compactEntries es).map String.toList =
    es.map fun e => none.entry e.1 e.2.compact.toList := by
  induction es with
  | nil => rfl
  | cons e es ih =>
    rw [Tree.compactEntries, List.map_cons, ih, List.map_cons, String.toList_append,
      String.toList_append, List.append_assoc]
    rfl

theorem spaces_compact : none.Spaces fun _ t => t.compact.toList where
  scalar _ := rfl
  list := by
    intro d ts
    rw [Tree.compact, String.toList_append, String.toList_append, String.toList_intercalate,
      map_compactItems, List.append_assoc, members_none]
    rfl
  mapping := by
    intro d es
    rw [Tree.compact, String.toList_append, String.toList_append, String.toList_intercalate,
      map_compactEntries, List.append_assoc, members_none]
    rfl

theorem intercalate_comma_feed (f : List Char → List Char) (m : List Char) (ms : List (List Char)) :
    [','].intercalate ((m :: ms).map fun m => '\n' :: f m) =
      '\n' :: [',', '\n'].intercalate ((m :: ms).map f) := by
  induction ms generalizing m with
  | nil => simp
  | cons m' ms ih =>
    have hrest := ih m'
    rw [List.map_cons, List.map_cons] at hrest ⊢
    rw [List.map_cons, List.map_cons, List.intercalate_cons_cons, List.intercalate_cons_cons, hrest]
    simp

theorem toList_bracketed (opening closing : Char) (depth : Nat) (members : List String) :
    (Tree.bracketed (String.ofList [opening]) (String.ofList [closing]) depth members).toList =
      opening :: lines.members depth closing true (members.map String.toList) := by
  cases members with
  | nil => simp [Tree.bracketed, Spacing.members]
  | cons m ms =>
    have hline (d : Nat) : lines.line d = '\n' :: (Tree.margin d).toList := by
      simp [lines, Tree.margin]
    have hmargins : (((m :: ms).map (Tree.margin (depth + 1) ++ ·)).map String.toList) =
        ((m :: ms).map String.toList).map ((Tree.margin (depth + 1)).toList ++ ·) := by
      simp
    have hmembers : lines.members depth closing true ((m :: ms).map String.toList) =
        '\n' :: [',', '\n'].intercalate
          (((m :: ms).map (Tree.margin (depth + 1) ++ ·)).map String.toList) ++
          ('\n' :: (Tree.margin depth).toList ++ [closing]) := by
      rw [hmargins, List.map_cons, members_eq, hline, hline, ← intercalate_comma_feed]
      rfl
    rw [hmembers]
    simp only [Tree.bracketed, List.isEmpty_cons, Bool.false_eq_true, if_false, String.toList_append,
      String.toList_intercalate, String.toList_ofList, List.append_assoc]
    rfl

theorem map_indentedItems (ts : List Tree) (d : Nat) :
    (Tree.indentedItems ts d).map String.toList = ts.map fun t => (t.indentedAt d).toList := by
  induction ts with
  | nil => rfl
  | cons t ts ih => rw [Tree.indentedItems, List.map_cons, ih, List.map_cons]

theorem map_indentedEntries (es : Entries) (d : Nat) :
    (Tree.indentedEntries es d).map String.toList =
      es.map fun e => lines.entry e.1 (e.2.indentedAt d).toList := by
  induction es with
  | nil => rfl
  | cons e es ih =>
    rw [Tree.indentedEntries, List.map_cons, ih, List.map_cons, String.toList_append,
      String.toList_append, List.append_assoc]
    rfl

theorem spaces_indentedAt : lines.Spaces fun d t => (t.indentedAt d).toList where
  scalar h := by cases h <;> rfl
  list := by
    intro d ts
    rw [Tree.indentedAt]
    exact (toList_bracketed '[' ']' d _).trans (by rw [map_indentedItems])
  mapping := by
    intro d es
    rw [Tree.indentedAt]
    exact (toList_bracketed '\x7b' '\x7d' d _).trans (by rw [map_indentedEntries])

variable {closing x : Char}

theorem length_members (closing : Char) (first : Bool) (m : List Char) (ms : List (List Char)) :
    m.length + (σ.members d closing false ms).length ≤
      (σ.members d closing first (m :: ms)).length := by
  simp only [members, List.length_append]
  omega

theorem length_members_pos (closing : Char) (first : Bool) (ms : List (List Char)) :
    0 < (σ.members d closing first ms).length := by
  induction ms generalizing first with
  | nil => simp [members]
  | cons m ms ih =>
    exact Nat.lt_of_lt_of_le (Nat.lt_of_lt_of_le (ih false) (Nat.le_add_left _ _))
      (σ.length_members d closing first m ms)

theorem stops_members (hclosing : closing = ']' ∨ closing = '\x7d')
    (ms : List (List Char)) (rest : List Char) :
    Stops (σ.members d closing false ms ++ rest) := by
  cases ms with
  | cons m ms => exact stops_cons (.inl rfl) _
  | nil =>
    change Stops (σ.line d ++ [closing] ++ rest)
    cases hline : σ.line d with
    | nil => exact stops_cons (by rcases hclosing with rfl | rfl <;> simp) _
    | cons c cs =>
      have hspace := σ.isSpace_line d
      rw [hline, List.all_cons, Bool.and_eq_true] at hspace
      exact stops_cons (.inr (.inr (.inr hspace.1))) _

theorem skipSpace_line (hx : Cursor.isSpace x = false) (rest : List Char) (place : Place) :
    ∃ place', (Cursor.mk (σ.line d ++ x :: rest) place).skipSpace = ⟨x :: rest, place'⟩ :=
  skipSpace_append (σ.isSpace_line d) _ (by simp [hx]) place

theorem skipSpace_closing (hx : Cursor.isSpace x = false) (first : Bool) (rest : List Char)
    (place : Place) :
    ∃ place', (Cursor.mk (σ.members d x first [] ++ rest) place).skipSpace =
      ⟨x :: rest, place'⟩ := by
  cases first with
  | true => exact ⟨place, skipSpace_of_not hx rest place⟩
  | false =>
    obtain ⟨place', h⟩ := σ.skipSpace_line d hx rest place
    exact ⟨place', by rw [← h, members]; simp⟩

theorem afterItem_closing (first : Bool) (rest : List Char) (place : Place) :
    ∃ place', afterItem ⟨σ.members d ']' first [] ++ rest, place⟩ first .keep =
      .ok (false, ⟨rest, place'⟩) := by
  obtain ⟨place', h⟩ := σ.skipSpace_closing d
    (show Cursor.isSpace ']' = false from rfl) first rest place
  exact ⟨_, by rw [afterItem, h]; rfl⟩

theorem afterEntry_closing (first : Bool) (rest : List Char) (place : Place) :
    ∃ place', afterEntry ⟨σ.members d '\x7d' first [] ++ rest, place⟩ first .keep =
      .ok (false, ⟨rest, place'⟩) := by
  obtain ⟨place', h⟩ := σ.skipSpace_closing d
    (show Cursor.isSpace '\x7d' = false from rfl) first rest place
  exact ⟨_, by rw [afterEntry, h]; rfl⟩

theorem members_false (closing : Char) (m : List Char) (ms : List (List Char)) :
    σ.members d closing false (m :: ms) = ',' :: σ.members d closing true (m :: ms) := rfl

theorem skipSpace_member (hx : Cursor.isSpace x = false) (closing : Char) (m : List Char)
    (ms : List (List Char)) (rest : List Char) (place : Place) :
    ∃ place', (Cursor.mk (σ.members d closing true ((x :: m) :: ms) ++ rest) place).skipSpace =
      ⟨x :: (m ++ (σ.members d closing false ms ++ rest)), place'⟩ := by
  obtain ⟨place', h⟩ := σ.skipSpace_line (d + 1) hx
    (m ++ (σ.members d closing false ms ++ rest)) place
  exact ⟨place', by rw [← h]; simp [members]⟩

theorem afterItem_member (hx : Cursor.isSpace x = false) (hclosing : x ≠ ']') (first : Bool)
    (m : List Char) (ms : List (List Char)) (rest : List Char) (place : Place) :
    ∃ place', afterItem ⟨σ.members d ']' first ((x :: m) :: ms) ++ rest, place⟩ first .keep =
      .ok (true, ⟨x :: (m ++ (σ.members d ']' false ms ++ rest)), place'⟩) := by
  cases first with
  | true =>
    obtain ⟨place', h⟩ := σ.skipSpace_member d hx ']' m ms rest place
    exact ⟨place', by rw [afterItem, h]; exact if_neg hclosing⟩
  | false =>
    obtain ⟨place', h⟩ :=
      σ.skipSpace_member d hx ']' m ms rest (Cursor.Place.after place ',')
    refine ⟨place', ?_⟩
    rw [members_false, List.cons_append, afterItem, skipSpace_of_not rfl]
    simp [Cursor.peek?, Cursor.next, h, hclosing]

theorem afterEntry_member (first : Bool) (key : String) (value : List Char)
    (ms : List (List Char)) (rest : List Char) (place : Place) :
    ∃ place', afterEntry ⟨σ.members d '\x7d' first (σ.entry key value :: ms) ++ rest, place⟩ first
        .keep =
      .ok (true, ⟨key.toList.flatMap escapedChar ++ ['"'] ++
        ':' :: (σ.colon ++ (value ++ (σ.members d '\x7d' false ms ++ rest))), place'⟩) := by
  have hquote : Cursor.isSpace '"' = false := rfl
  obtain ⟨body, hentry, hbody⟩ : ∃ body, σ.entry key value = '"' :: body ∧
      key.toList.flatMap escapedChar ++ ['"'] ++
        ':' :: (σ.colon ++ (value ++ (σ.members d '\x7d' false ms ++ rest))) =
          body ++ (σ.members d '\x7d' false ms ++ rest) :=
    ⟨key.toList.flatMap escapedChar ++ ['"'] ++ ':' :: (σ.colon ++ value),
      by simp [entry, toList_quoted], by simp⟩
  rw [hentry, hbody]
  cases first with
  | true =>
    obtain ⟨place', h⟩ := σ.skipSpace_member d hquote '\x7d' body ms rest place
    exact ⟨_, by rw [afterEntry, h]; rfl⟩
  | false =>
    obtain ⟨place', h⟩ := σ.skipSpace_member d hquote '\x7d' body ms rest
      (Cursor.Place.after place ',')
    refine ⟨Cursor.Place.after place' '"', ?_⟩
    rw [members_false, List.cons_append, afterEntry, skipSpace_of_not rfl]
    simp [Cursor.peek?, Cursor.next, h]

end Spacing

variable {σ : Spacing} {text : Nat → Tree → List Char} {n d depth fuel : Nat} {t : Tree}
  {ts : List Tree} {first : Bool} {rest before : List Char}

theorem Scalar.exists_first (h : Scalar t) :
    ∃ x m, t.compact.toList = x :: m ∧ Cursor.isSpace x = false ∧ x ≠ ']' := by
  cases h with
  | null => exact ⟨'n', _, rfl, rfl, by decide⟩
  | bool b => cases b <;> exact ⟨_, _, rfl, rfl, by decide⟩
  | string s => exact ⟨'"', _, toList_quoted s, rfl, by decide⟩
  | @count n hn =>
    obtain ⟨x, m, hx⟩ := List.exists_cons_of_ne_nil (Nat.toDigits_ne_nil (b := 10) (n := n))
    have hdigit : isDigit x := isDigit_of_mem_toDigits (hx ▸ List.mem_cons_self)
    rw [toList_compact_int]
    refine ⟨x, m, hx, ?_, ?_⟩
    · by_contra hspace
      simp only [Cursor.isSpace, Bool.not_eq_false, Bool.or_eq_true, decide_eq_true_eq] at hspace
      rcases hspace with ((rfl | rfl) | rfl) | rfl <;> cases hdigit
    · rintro rfl
      cases hdigit

/-- The first character of a value is no white space and closes nothing. -/
theorem Spacing.Spaces.exists_first (hσ : σ.Spaces text) (ht : Exact n t) (d : Nat) :
    ∃ x m, text d t = x :: m ∧ Cursor.isSpace x = false ∧ x ≠ ']' := by
  cases ht with
  | scalar h => exact hσ.scalar h ▸ h.exists_first
  | list h => exact ⟨'[', _, hσ.list, rfl, by decide⟩
  | mapping hkeys h => exact ⟨'\x7b', _, hσ.mapping, rfl, by decide⟩

/-- Whatever its fuel and depth allow, the value is read off its text. -/
def Reads (text : Nat → Tree → List Char) (d depth : Nat) (t : Tree) : Prop :=
  ∀ fuel before rest, 2 * (text d t).length ≤ fuel → before.all Cursor.isSpace → Stops rest →
    Takes (readValue .keep fuel depth) (before ++ text d t) t rest

theorem takes_readItems (hσ : σ.Spaces text) (hts : ∀ t ∈ ts, Exact n t)
    (hread : ∀ t ∈ ts, Reads text (d + 1) depth t)
    (hfuel : 2 * (σ.members d ']' first (ts.map (text (d + 1)))).length ≤ fuel) (rest : List Char) :
    Takes (readItems .keep fuel depth · first) (σ.members d ']' first (ts.map (text (d + 1)))) ts
      rest := by
  induction ts generalizing first fuel with
  | nil =>
    intro place
    have hpos := σ.length_members_pos d ']' first []
    rw [List.map_nil] at hfuel ⊢
    obtain ⟨fuel, rfl⟩ := Nat.exists_eq_succ_of_ne_zero (show fuel ≠ 0 by omega)
    obtain ⟨place', h⟩ := σ.afterItem_closing d first rest place
    exact ⟨place', by simp only [readItems, h]; rfl⟩
  | cons t ts ih =>
    intro place
    rw [List.forall_mem_cons] at hts hread
    obtain ⟨x, m, htext, hspace, hclosing⟩ := hσ.exists_first hts.1 (d + 1)
    rw [List.map_cons, htext] at hfuel ⊢
    generalize hms : ts.map (text (d + 1)) = ms at hfuel ih ⊢
    have hlength := σ.length_members d ']' first (x :: m) ms
    have hpos := σ.length_members_pos d ']' false ms
    have hone : (x :: m).length = m.length + 1 := rfl
    obtain ⟨fuel, rfl⟩ := Nat.exists_eq_succ_of_ne_zero (show fuel ≠ 0 by omega)
    obtain ⟨place₁, hmember⟩ :=
      σ.afterItem_member d hspace hclosing first m ms rest place
    have hvalue := hread.1 fuel [] _ (by rw [htext]; omega) rfl
      (σ.stops_members d (.inl rfl) ms rest)
    rw [List.nil_append, htext] at hvalue
    obtain ⟨place₂, hvalue⟩ := hvalue place₁
    have hless : 2 * (σ.members d ']' false ms).length ≤ fuel := by omega
    obtain ⟨place₃, hrest⟩ := ih hts.2 hread.2 hless place₂
    refine ⟨place₃, ?_⟩
    simp only [readItems, hmember, bind, Except.bind, if_true]
    rw [← List.cons_append, hvalue]
    simp only [hrest]
    rfl

theorem insert_of_notMem {es : Entries} {key : String} (h : key ∉ es.keys) (t : Tree) :
    es.insert key t = es ++ [(key, t)] := by
  induction es with
  | nil => rfl
  | cons e es ih =>
    rw [Entries.keys, List.map_cons, List.mem_cons, not_or] at h
    rw [Entries.insert, if_neg (Ne.symm h.1), ih h.2]
    rfl

theorem takes_readEntries {es done : Entries} (hkeys : (done ++ es).keys.Nodup)
    (hread : ∀ e ∈ es, Reads text (d + 1) depth e.2)
    (hfuel : 2 * (σ.members d '\x7d' first
      (es.map fun e => σ.entry e.1 (text (d + 1) e.2))).length ≤ fuel) (rest : List Char) :
    Takes (readEntries .keep fuel depth · first done)
      (σ.members d '\x7d' first (es.map fun e => σ.entry e.1 (text (d + 1) e.2))) (done ++ es)
        rest := by
  induction es generalizing first fuel done with
  | nil =>
    intro place
    have hpos := σ.length_members_pos d '\x7d' first []
    rw [List.map_nil] at hfuel ⊢
    obtain ⟨fuel, rfl⟩ := Nat.exists_eq_succ_of_ne_zero (show fuel ≠ 0 by omega)
    obtain ⟨place', h⟩ := σ.afterEntry_closing d first rest place
    exact ⟨place', by simp only [readEntries, h, List.append_nil]; rfl⟩
  | cons e es ih =>
    intro place
    obtain ⟨key, t⟩ := e
    rw [List.forall_mem_cons] at hread
    have hnew : key ∉ done.keys := by
      intro hmem
      rw [Entries.keys, List.map_append] at hkeys
      exact (List.nodup_append.1 hkeys).2.2 key hmem key List.mem_cons_self rfl
    rw [List.append_cons] at hkeys ⊢
    rw [List.map_cons] at hfuel ⊢
    dsimp only at hread hfuel ⊢
    generalize hms : (es.map fun e => σ.entry e.1 (text (d + 1) e.2)) = ms at hfuel ih ⊢
    have hlength := σ.length_members d '\x7d' first (σ.entry key (text (d + 1) t)) ms
    have hpos := σ.length_members_pos d '\x7d' false ms
    have hentry : (text (d + 1) t).length < (σ.entry key (text (d + 1) t)).length := by
      simp only [Spacing.entry, List.length_append, List.length_cons]
      omega
    obtain ⟨fuel, rfl⟩ := Nat.exists_eq_succ_of_ne_zero (show fuel ≠ 0 by omega)
    obtain ⟨place₁, hmember⟩ := σ.afterEntry_member d first key
      (text (d + 1) t) ms rest place
    obtain ⟨place₂, hkey⟩ := takes_readString key
      (':' :: (σ.colon ++ (text (d + 1) t ++ (σ.members d '\x7d' false ms ++ rest)))) place₁
    obtain ⟨place₃, hvalue⟩ := hread.1 fuel σ.colon _ (by omega) σ.isSpace_colon
      (σ.stops_members d (.inr rfl) ms rest) (Cursor.Place.after place₂ ':')
    have hless : 2 * (σ.members d '\x7d' false ms).length ≤ fuel := by omega
    obtain ⟨place₄, hrest⟩ := ih hkeys hread.2 hless place₃
    have hcolon : readColon ⟨':' :: (σ.colon ++ (text (d + 1) t ++
        (σ.members d '\x7d' false ms ++ rest))), place₂⟩ =
          .ok ⟨σ.colon ++ text (d + 1) t ++ (σ.members d '\x7d' false ms ++ rest),
            Cursor.Place.after place₂ ':'⟩ := by
      rw [List.append_assoc]
      rfl
    refine ⟨place₄, ?_⟩
    simp only [readEntries, hmember, hkey, hcolon, hvalue, insert_of_notMem hnew, hrest, bind,
      Except.bind, if_true]

theorem reads_scalar (hσ : σ.Spaces text) (h : Scalar t) (d depth : Nat) :
    Reads text d depth t := by
  intro fuel before rest hfuel hbefore hrest place
  obtain ⟨x, m, htext, hspace, -⟩ := h.exists_first
  rw [hσ.scalar h] at hfuel ⊢
  obtain ⟨fuel, rfl⟩ := Nat.exists_eq_succ_of_ne_zero
    (show fuel ≠ 0 by rw [htext, List.length_cons] at hfuel; omega)
  obtain ⟨place₁, hskip⟩ := skipSpace_append hbefore (t.compact.toList ++ rest)
    (by rw [htext]; simp [hspace]) place
  obtain ⟨place₂, hopening⟩ := takes_readOpening h hrest place₁
  have hagain : (Cursor.mk (t.compact.toList ++ rest) place₁).skipSpace =
      ⟨t.compact.toList ++ rest, place₁⟩ := by
    rw [htext]
    exact skipSpace_of_not hspace _ _
  refine ⟨place₂, ?_⟩
  dsimp only at hopening
  rw [hagain] at hopening
  rw [List.append_assoc]
  simp only [readValue, hskip, hopening, bind, Except.bind]
  rfl

theorem reads_list (hσ : σ.Spaces text) (hts : ∀ t ∈ ts, Exact n t) (hdepth : 1 < depth)
    (hread : ∀ t ∈ ts, Reads text (d + 1) (depth - 1) t) : Reads text d depth (.list ts) := by
  intro fuel before rest hfuel hbefore hrest place
  rw [hσ.list] at hfuel ⊢
  rw [List.length_cons] at hfuel
  obtain ⟨fuel, rfl⟩ := Nat.exists_eq_succ_of_ne_zero (show fuel ≠ 0 by omega)
  have hless : 2 * (σ.members d ']' true (ts.map (text (d + 1)))).length ≤ fuel := by omega
  have hitems := takes_readItems hσ hts hread hless rest
  generalize σ.members d ']' true (ts.map (text (d + 1))) = ms at hitems ⊢
  obtain ⟨place₁, hskip⟩ :=
    skipSpace_append hbefore ('[' :: (ms ++ rest)) (by simp [Cursor.isSpace]) place
  obtain ⟨place₂, hitems⟩ := hitems (Cursor.Place.after place₁ '[')
  have hopening : readOpening .keep ⟨'[' :: (ms ++ rest), place₁⟩ =
      .ok (.list, ⟨ms ++ rest, Cursor.Place.after place₁ '['⟩) := rfl
  refine ⟨place₂, ?_⟩
  rw [List.append_assoc, List.cons_append]
  simp only [readValue, hskip, hopening, hitems, bind, Except.bind, Nat.not_le.2 hdepth,
    decide_false, Bool.false_and, Bool.false_eq_true, if_false]
  rfl

theorem reads_mapping {es : Entries} (hσ : σ.Spaces text) (hkeys : es.keys.Nodup)
    (hdepth : 1 < depth) (hread : ∀ e ∈ es, Reads text (d + 1) (depth - 1) e.2) :
    Reads text d depth (.mapping es) := by
  intro fuel before rest hfuel hbefore hrest place
  rw [hσ.mapping] at hfuel ⊢
  rw [List.length_cons] at hfuel
  obtain ⟨fuel, rfl⟩ := Nat.exists_eq_succ_of_ne_zero (show fuel ≠ 0 by omega)
  have hless : 2 * (σ.members d '\x7d' true
      (es.map fun e => σ.entry e.1 (text (d + 1) e.2))).length ≤ fuel := by omega
  have hentries := takes_readEntries ((List.nil_append es).symm ▸ hkeys) hread hless rest
  rw [List.nil_append] at hentries
  generalize σ.members d '\x7d' true (es.map fun e => σ.entry e.1 (text (d + 1) e.2)) = ms
    at hentries ⊢
  obtain ⟨place₁, hskip⟩ :=
    skipSpace_append hbefore ('\x7b' :: (ms ++ rest)) (by simp [Cursor.isSpace]) place
  obtain ⟨place₂, hentries⟩ := hentries (Cursor.Place.after place₁ '\x7b')
  have hopening : readOpening .keep ⟨'\x7b' :: (ms ++ rest), place₁⟩ =
      .ok (.object, ⟨ms ++ rest, Cursor.Place.after place₁ '\x7b'⟩) := rfl
  refine ⟨place₂, ?_⟩
  rw [List.append_assoc, List.cons_append]
  simp only [readValue, hskip, hopening, hentries, bind, Except.bind, Nat.not_le.2 hdepth,
    decide_false, Bool.false_and, Bool.false_eq_true, if_false]
  rfl

theorem Exact.reads (hσ : σ.Spaces text) (ht : Exact n t) (hdepth : n < depth) (d : Nat) :
    Reads text d depth t := by
  induction ht generalizing depth d with
  | scalar h => exact reads_scalar hσ h d depth
  | list hts ih =>
    exact reads_list hσ hts (by omega) fun t ht => ih t ht (by omega) (d + 1)
  | mapping hkeys hes ih =>
    exact reads_mapping hσ hkeys (by omega) fun e he => ih e he (by omega) (d + 1)

/-- No two exact trees have one text. -/
theorem Spacing.Spaces.inj {m : Nat} {u : Tree} (hσ : σ.Spaces text) (ht : Exact n t)
    (hu : Exact m u) (h : text 0 t = text 0 u) : t = u := by
  have hstops : Stops [] := nofun
  obtain ⟨place, hread⟩ := ht.reads hσ (show n < n + m + 1 by omega) 0 _ [] [] (Nat.le_refl _) rfl
    hstops ⟨1, 0⟩
  obtain ⟨place', hread'⟩ := hu.reads hσ (show m < n + m + 1 by omega) 0 _ [] [] (Nat.le_refl _) rfl
    hstops ⟨1, 0⟩
  rw [h, hread'] at hread
  exact (Prod.mk.inj (Except.ok.inj hread)).1.symm

/-- Other programs read an exact tree off its text. -/
theorem Exact.read_text (hσ : σ.Spaces text) (ht : Exact n t) (hn : n < maxDepth)
    (hrest : rest.all Cursor.isSpace) : read (String.ofList (text 0 t ++ rest)) = .ok t := by
  have hstops : Stops rest := by
    cases rest with
    | nil => exact nofun
    | cons c rest =>
      rw [List.all_cons, Bool.and_eq_true] at hrest
      exact stops_cons (.inr (.inr (.inr hrest.1))) _
  have hfuel : 2 * (text 0 t).length ≤ 2 * (text 0 t ++ rest).length + 2 := by
    rw [List.length_append]
    omega
  obtain ⟨place, hvalue⟩ := ht.reads hσ hn 0 _ [] rest hfuel rfl hstops ⟨1, 0⟩
  obtain ⟨place', hfinish⟩ := skipSpace_append hrest [] nofun place
  rw [List.append_nil] at hfinish
  rw [List.nil_append] at hvalue
  rw [read, Cursor.ofText, String.toList_ofList]
  simp only [hvalue, finish, hfinish, bind, Except.bind]
  rfl

end Schemata.Json
