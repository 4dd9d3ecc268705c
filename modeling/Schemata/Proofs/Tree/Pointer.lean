import Schemata.Tree.Path

/-!
# Two readings of a pointer

A pointer can be followed through a tree token by token, or be read as the path of its tokens first.
Reading needs no node to be there: it goes on beyond the tree, and gives one step for each slash.
Both readings lead to the same node, or nowhere.
-/

namespace Schemata

namespace TreePath

variable {tokens : List String} {t : Option Tree}

theorem length_ofTokens : (ofTokens tokens t).length = tokens.length := by
  fun_induction ofTokens tokens t with
  | case1 => rfl
  | case2 token rest items i hi ih => rw [List.length_cons, List.length_cons, ih]
  | case3 token rest items hi ih => rw [List.length_cons, List.length_cons, ih]
  | case4 token rest es ih => rw [List.length_cons, List.length_cons, ih]
  | case5 token rest t _ _ ih => rw [List.length_cons, List.length_cons, ih]

end TreePath

namespace Pointer

theorem length_slashed (cs current : List Char) :
    (slashed cs current).length = cs.count '/' + 1 := by
  fun_induction slashed cs current with
  | case1 => rfl
  | case2 current rest ih => rw [List.length_cons, ih, List.count_cons_self]
  | case3 current c rest hc ih => rw [ih, List.count_cons_of_ne hc]

theorem length_tokens (pointer : String) : (tokens pointer).length = pointer.toList.count '/' := by
  rw [tokens, List.length_map, List.length_drop, pieces, List.length_map, length_slashed,
    Nat.add_sub_cancel]

/-- Tokens lead through a tree as the steps do that they are read as. -/
theorem descend_eq_ok {tokens : List String} {t u : Tree} :
    descend t tokens = .ok u ↔ t.at? (TreePath.ofTokens tokens (some t)) = some u := by
  induction tokens generalizing t with
  | nil => simp [descend, TreePath.ofTokens, Tree.at?]
  | cons token rest ih =>
    cases t with
    | list items =>
      cases hi : index? token with
      | none => simp [descend, TreePath.ofTokens, Tree.at?, hi]
      | some i =>
        -- a step to a missing item leads nowhere, whatever is read behind it
        cases hv : items[i]? with
        | none => simp [descend, TreePath.ofTokens, Tree.at?, hi, hv]
        | some v => simp [descend, TreePath.ofTokens, Tree.at?, hi, hv, ih]
    | mapping es =>
      cases hv : Entries.get? es token with
      | none => simp [descend, TreePath.ofTokens, Tree.at?, hv]
      | some v => simp [descend, TreePath.ofTokens, Tree.at?, hv, ih]
    | null | bool | number | string => simp [descend, TreePath.ofTokens, Tree.at?]

/-- A pointer names a node just in case it is empty or starts with a slash and the path that is
read off it leads to that node. The path has as many steps as the pointer has slashes, wherever it
leads. -/
theorem resolve_eq_ok_iff_at? (t : Tree) (pointer : String) :
    (∀ u, resolve t pointer = .ok u ↔ (pointer = "" ∨ pointer.startsWith "/") ∧
      t.at? (TreePath.ofPointer pointer t) = some u) ∧
    (TreePath.ofPointer pointer t).length = pointer.toList.count '/' := by
  constructor
  · intro u
    by_cases hp : pointer = ""
    · subst hp
      have whole : TreePath.ofPointer "" t = [] := rfl
      simp [resolve, whole, Tree.at?]
    · by_cases hs : pointer.startsWith "/"
      · simp [resolve, hp, hs, descend_eq_ok, TreePath.ofPointer]
      · simp [resolve, hp, hs]
  · rw [TreePath.ofPointer, TreePath.length_ofTokens, length_tokens]

end Pointer

end Schemata
