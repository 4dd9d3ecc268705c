import Mathlib.Algebra.Group.Nat.Defs
import Schemata.Proofs.File.Plain
import Schemata.Proofs.Tree.Pointer
import Schemata.Reference.Basic

/-!
# Paths written as pointers

A path is written as a pointer step by step: a key with its tildes and slashes escaped, an index in
decimal. Reading the pointer in the tree of the path gives the path back, whatever characters its
keys are made of.
-/

namespace Schemata

namespace Pointer

theorem replaceTilde_cons (digit image : Char) {c : Char} (hc : c ≠ '~') (cs : List Char) :
    replaceTilde digit image (c :: cs) = c :: replaceTilde digit image cs := by
  rw [replaceTilde]
  rintro c' rest he -
  exact hc he

theorem replaceTilde_flatMap (ds : List Char) :
    replaceTilde '0' '~' (replaceTilde '1' '/' (ds.flatMap escapedChar)) = ds := by
  induction ds with
  | nil => rfl
  | cons c ds ih =>
    rw [List.flatMap_cons, escapedChar]
    split
    · rename_i hc
      simp only [List.cons_append, List.nil_append]
      rw [replaceTilde, if_neg (by decide), replaceTilde_cons _ _ (show '0' ≠ '~' by decide),
        replaceTilde, if_pos rfl, ih, hc]
    split
    · rename_i hc
      simp only [List.cons_append, List.nil_append]
      rw [replaceTilde, if_pos rfl, replaceTilde_cons _ _ (by decide), ih, hc]
    · rename_i hc _
      rw [List.singleton_append, replaceTilde_cons _ _ hc, replaceTilde_cons _ _ hc, ih]

theorem unescape_escape (s : String) : unescape (escape s) = s := by
  rw [unescape, escape, String.toList_ofList, replaceTilde_flatMap, String.ofList_toList]

theorem slash_notMem_escape (s : String) : '/' ∉ (escape s).toList := by
  rw [escape, String.toList_ofList, List.mem_flatMap]
  rintro ⟨c, -, hc⟩
  unfold escapedChar at hc
  split at hc
  · simp at hc
  split at hc
  · simp at hc
  · rename_i hslash
    exact hslash (List.mem_singleton.1 hc).symm

theorem isDigit_toString {i : Nat} {c : Char} (hc : c ∈ (toString i).toList) : c.isDigit := by
  rw [Nat.toString_eq_ofList_toDigits, String.toList_ofList] at hc
  exact Nat.isDigit_of_mem_toDigits (by decide) (by decide) hc

theorem escape_of_isDigit {s : String} (h : ∀ c ∈ s.toList, c.isDigit) : escape s = s := by
  have same : s.toList.flatMap escapedChar = s.toList := by
    conv => rhs; rw [← List.flatMap_singleton' s.toList]
    rw [List.flatMap, List.flatMap]
    refine congrArg List.flatten (List.map_congr_left fun c hc => ?_)
    have hd := h c hc
    have htilde : c ≠ '~' := by rintro rfl; cases hd
    have hslash : c ≠ '/' := by rintro rfl; cases hd
    rw [escapedChar, if_neg htilde, if_neg hslash]
  rw [escape, same, String.ofList_toList]

theorem escape_toString (i : Nat) : escape (toString i) = toString i :=
  escape_of_isDigit fun _ => isDigit_toString

/-- A token is read as an index if it is made of digits, with at most a plus sign in front. -/
theorem index?_eq_some {token : String} {i : Nat} : index? token = some i ↔
    ∃ ds, (token.toList = ds ∨ token.toList = '+' :: ds) ∧ ds ≠ [] ∧ (∀ c ∈ ds, c.isDigit) ∧
      Nat.ofDigitChars 10 ds 0 = i ∧ i < 2 ^ 64 := by
  have value (ds : List Char) (n : Nat) :
      ds.foldl (fun n d => n * 10 + (d.toNat - '0'.toNat)) n = Nat.ofDigitChars 10 ds n := by
    simp only [Nat.ofDigitChars_eq_foldl, Nat.mul_comm]
  have digits (ds : List Char) : (if ds.isEmpty || !ds.all Char.isDigit then none
      else if Nat.ofDigitChars 10 ds 0 < 2 ^ 64 then some (Nat.ofDigitChars 10 ds 0) else none) =
        some i ↔ ds ≠ [] ∧ (∀ c ∈ ds, c.isDigit) ∧ Nat.ofDigitChars 10 ds 0 = i ∧ i < 2 ^ 64 := by
    simp only [Option.ite_none_left_eq_some, Option.ite_none_right_eq_some, Option.some.injEq,
      Bool.or_eq_true, Bool.not_eq_true', not_or, List.isEmpty_iff, Bool.not_eq_false,
      List.all_eq_true, and_assoc]
    refine and_congr_right fun _ => and_congr_right fun _ => ?_
    constructor
    · rintro ⟨hlt, rfl⟩
      exact ⟨rfl, hlt⟩
    · rintro ⟨rfl, hlt⟩
      exact ⟨hlt, rfl⟩
  simp only [index?, value]
  split
  · rename_i rest hsign
    refine (digits rest).trans ⟨fun h => ⟨rest, .inr hsign, h⟩, ?_⟩
    rintro ⟨ds, hds | hds, h⟩
    · have hplus : '+'.isDigit := h.2.1 _ (by rw [← hds, hsign]; exact List.mem_cons_self)
      cases hplus
    · rw [hsign] at hds
      rwa [(List.cons.inj hds).2]
  · rename_i hsign
    refine (digits token.toList).trans ⟨fun h => ⟨_, .inl rfl, h⟩, ?_⟩
    rintro ⟨ds, hds | hds, h⟩
    · rwa [hds]
    · exact absurd hds (hsign ds)

theorem index?_toString {i : Nat} (h : i < 2 ^ 64) : index? (toString i) = some i := by
  refine index?_eq_some.2 ⟨_, .inl rfl, ?_, fun c hc => isDigit_toString hc, ?_, h⟩ <;>
    rw [Nat.toString_eq_ofList_toDigits, String.toList_ofList]
  · exact Nat.toDigits_ne_nil
  · exact Nat.ofDigitChars_ten_toDigits

theorem pieces_eq (text : String) : pieces text = (text.toList.splitOn '/').map String.ofList := by
  have same : slashed = FilePath.slashParts := by
    funext cs current
    fun_induction slashed cs current with
    | case1 => rfl
    | case2 current rest ih => rw [FilePath.slashParts, if_pos rfl, ih]
    | case3 current c rest hc ih => rw [FilePath.slashParts, if_neg hc, ih]
  rw [pieces, same]
  exact FilePath.pieces_eq text

/-- The pieces of a pointer behind its first slash. -/
def spelled (pointer : String) : List String := (pieces pointer).drop 1

def ofSpelled (ps : List String) : String := String.join (ps.map fun s => "/" ++ s)

theorem toList_ofSpelled {ps : List String} (h : ps ≠ []) :
    (ofSpelled ps).toList = '/' :: ['/'].intercalate (ps.map String.toList) := by
  rw [ofSpelled, String.toList_join, List.flatMap_map]
  induction ps with
  | nil => exact absurd rfl h
  | cons s ps ih =>
    rw [List.flatMap_cons, List.map_cons, String.toList_append]
    by_cases hn : ps = []
    · subst hn
      simp
    · rw [ih hn, List.intercalate_cons_of_ne_nil (by simpa using hn)]
      simp

theorem spelled_ofSpelled {ps : List String} (h : ∀ s ∈ ps, '/' ∉ s.toList) :
    spelled (ofSpelled ps) = ps := by
  by_cases hn : ps = []
  · subst hn
    rfl
  · have slash : ∀ q ∈ ps.map String.toList, '/' ∉ q := by simpa using h
    rw [spelled, pieces_eq, toList_ofSpelled hn, FilePath.splitOn_slash_cons,
      List.splitOn_intercalate '/' slash (by simpa using hn)]
    simp [Function.comp_def]

theorem ofSpelled_spelled {pointer : String} (h : pointer = "" ∨ pointer.startsWith "/") :
    ofSpelled (spelled pointer) = pointer := by
  rcases h with rfl | h
  · rfl
  · rw [String.startsWith_string_iff] at h
    obtain ⟨rest, hrest⟩ := h
    have hrest : pointer.toList = '/' :: rest := hrest.symm
    have hs : spelled pointer = (rest.splitOn '/').map String.ofList := by
      rw [spelled, pieces_eq, hrest, FilePath.splitOn_slash_cons]
      rfl
    rw [← String.toList_inj, hs, toList_ofSpelled (by simp [List.splitOn_ne_nil]),
      List.map_map, hrest]
    simp [Function.comp_def]

theorem slash_notMem_spelled {pointer s : String} (h : s ∈ spelled pointer) : '/' ∉ s.toList := by
  have hs := List.mem_of_mem_drop h
  rw [pieces_eq] at hs
  obtain ⟨q, hq, rfl⟩ := List.mem_map.1 hs
  rw [String.toList_ofList]
  exact FilePath.not_mem_of_mem_splitOn hq

theorem tokens_eq (pointer : String) : tokens pointer = (spelled pointer).map unescape := rfl

theorem resolve_eq_ok {t u : Tree} {pointer : String} : resolve t pointer = .ok u ↔
    (pointer = "" ∨ pointer.startsWith "/") ∧
      t.at? (TreePath.ofPointer pointer t) = some u := by
  rw [resolve]
  split
  · rename_i hp
    subst hp
    have whole : TreePath.ofPointer "" t = [] := rfl
    simp [whole, Tree.at?]
  split
  · rename_i hp hs
    rw [descend_eq_ok, TreePath.ofPointer]
    exact (and_iff_right (.inr hs)).symm
  · rename_i hp hs
    simp [hp, hs]

end Pointer

theorem Reference.parse_fragment (pointer : String) :
    parse ("#" ++ pointer) = .fragment pointer := by
  have hs : ("#" ++ pointer).toList = '#' :: pointer.toList := String.toList_append
  rw [parse, hs]
  simp [String.ofList_toList]

/-- The piece of a pointer that a step is written as. -/
def Step.written (s : Step) : String := Pointer.escape s.text

theorem Step.written_index (i : Nat) : (index i).written = toString i := Pointer.escape_toString i

namespace TreePath

open Pointer

theorem pointer_eq (p : TreePath) : p.pointer = ofSpelled (p.map Step.written) := by
  rw [pointer, ofSpelled, List.map_map]
  rfl

theorem spelled_pointer (p : TreePath) : spelled p.pointer = p.map Step.written := by
  rw [pointer_eq, spelled_ofSpelled]
  intro s hs
  obtain ⟨step, -, rfl⟩ := List.mem_map.1 hs
  exact slash_notMem_escape _

theorem tokens_pointer (p : TreePath) : tokens p.pointer = p.map Step.text := by
  rw [tokens_eq, spelled_pointer, List.map_map]
  exact List.map_congr_left fun s _ => unescape_escape s.text

theorem pointer_nil_or_slash (p : TreePath) : p.pointer = "" ∨ p.pointer.startsWith "/" := by
  by_cases hn : p = []
  · exact .inl (hn ▸ rfl)
  · rw [String.startsWith_string_iff, pointer_eq, toList_ofSpelled (by simpa using hn)]
    exact .inr ⟨_, rfl⟩

/-- The texts of the steps that lead to a node are read as these steps. -/
theorem ofTokens_of_at? {p : TreePath} {t u : Tree} (hp : ∀ i, .index i ∈ p → i < 2 ^ 64)
    (h : t.at? p = some u) : ofTokens (p.map Step.text) (some t) = p := by
  fun_induction Tree.at? t p with
  | case1 t => rfl
  | case2 es k rest ih =>
    obtain ⟨v, hv, h⟩ := Option.bind_eq_some_iff.1 h
    rw [List.map_cons, Step.text, ofTokens, hv,
      ih v (fun i hi => hp i (List.mem_cons_of_mem _ hi)) h]
  | case3 items i rest ih =>
    obtain ⟨v, hv, h⟩ := Option.bind_eq_some_iff.1 h
    rw [List.map_cons, Step.text, ofTokens, index?_toString (hp i List.mem_cons_self)]
    change Step.index i :: ofTokens (rest.map Step.text) items[i]? = _
    rw [hv, ih v (fun i hi => hp i (List.mem_cons_of_mem _ hi)) h]
  | case4 => cases h

theorem ofPointer_pointer {p : TreePath} {t u : Tree} (hp : ∀ i, .index i ∈ p → i < 2 ^ 64)
    (h : t.at? p = some u) : ofPointer p.pointer t = p := by
  rw [ofPointer, tokens_pointer, ofTokens_of_at? hp h]

/-- A node is named by its path written as a pointer, the path can be read off that pointer, and a
fragment keeps it as it is. Indices are of 64 bits. -/
theorem resolve_pointer_of_at? {p : TreePath} {t u : Tree} (hp : ∀ i, .index i ∈ p → i < 2 ^ 64)
    (h : t.at? p = some u) : resolve t p.pointer = .ok u ∧ ofPointer p.pointer t = p ∧
      Reference.parse ("#" ++ p.pointer) = .fragment p.pointer := by
  have read := ofPointer_pointer hp h
  refine ⟨resolve_eq_ok.2 ⟨pointer_nil_or_slash p, ?_⟩, read, Reference.parse_fragment p.pointer⟩
  rwa [read]

def Maze.tree : Tree :=
  .mapping [("", .list [.null, .mapping [("1", .bool true), ("~1", .mapping [("a/~0#", .int 3)])]])]

def Maze.way : TreePath := [.key "", .index 1, .key "~1", .key "a/~0#"]

theorem Maze.addressed : (∀ i, .index i ∈ way → i < 2 ^ 64) ∧ tree.at? way = some (.int 3) ∧
    resolve tree "//1/~01/a~1~00#" = .ok (.int 3) ∧ ofPointer "//1/~01/a~1~00#" tree = way ∧
    Reference.parse "#//1/~01/a~1~00#" = .fragment "//1/~01/a~1~00#" := by
  have small : ∀ i, .index i ∈ way → i < 2 ^ 64 := by simp [way]
  have there : tree.at? way = some (.int 3) := rfl
  have written : way.pointer = "//1/~01/a~1~00#" := by decide +kernel
  have h := resolve_pointer_of_at? small there
  rw [written] at h
  exact ⟨small, there, h⟩

end TreePath

end Schemata
