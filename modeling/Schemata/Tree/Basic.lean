import Schemata.Number.Basic

/-!
# Document trees

A `Tree` is what a schema file holds once its notation is gone: scalars, lists, and mappings whose
entries keep their source order. Functions over trees recurse structurally and come in threes, for
trees, for lists of trees, and for entries.
-/

namespace Schemata

inductive Tree where
  | null
  | bool (b : Bool)
  | number (n : Number)
  | string (s : String)
  | list (items : List Tree)
  | mapping (entries : List (String × Tree))
deriving Repr, Inhabited

abbrev Entries := List (String × Tree)

namespace Tree

mutual
def decEq : (a b : Tree) → Decidable (a = b)
  | null, null => isTrue rfl
  | bool a, bool b =>
    if h : a = b then isTrue (h ▸ rfl) else isFalse fun e => h (Tree.bool.inj e)
  | number a, number b =>
    if h : a = b then isTrue (h ▸ rfl) else isFalse fun e => h (Tree.number.inj e)
  | string a, string b =>
    if h : a = b then isTrue (h ▸ rfl) else isFalse fun e => h (Tree.string.inj e)
  | list a, list b =>
    match decEqList a b with
    | isTrue h => isTrue (h ▸ rfl)
    | isFalse h => isFalse fun e => h (Tree.list.inj e)
  | mapping a, mapping b =>
    match decEqEntries a b with
    | isTrue h => isTrue (h ▸ rfl)
    | isFalse h => isFalse fun e => h (Tree.mapping.inj e)
  | null, bool _ | null, number _ | null, string _ | null, list _ | null, mapping _
  | bool _, null | bool _, number _ | bool _, string _ | bool _, list _ | bool _, mapping _
  | number _, null | number _, bool _ | number _, string _ | number _, list _
  | number _, mapping _
  | string _, null | string _, bool _ | string _, number _ | string _, list _
  | string _, mapping _
  | list _, null | list _, bool _ | list _, number _ | list _, string _ | list _, mapping _
  | mapping _, null | mapping _, bool _ | mapping _, number _ | mapping _, string _
  | mapping _, list _ => isFalse (by intro e; cases e)
termination_by structural a => a

def decEqList : (a b : List Tree) → Decidable (a = b)
  | [], [] => isTrue rfl
  | [], _ :: _ | _ :: _, [] => isFalse (by intro e; cases e)
  | t :: ts, u :: us =>
    match decEq t u, decEqList ts us with
    | isTrue h, isTrue k => isTrue (h ▸ k ▸ rfl)
    | isFalse h, _ => isFalse fun e => h (List.cons.inj e).1
    | _, isFalse k => isFalse fun e => k (List.cons.inj e).2
termination_by structural a => a

def decEqEntries : (a b : List (String × Tree)) → Decidable (a = b)
  | [], [] => isTrue rfl
  | [], _ :: _ | _ :: _, [] => isFalse (by intro e; cases e)
  | (k, t) :: ts, (l, u) :: us =>
    if hk : k = l then
      match decEq t u, decEqEntries ts us with
      | isTrue h, isTrue hs => isTrue (hk ▸ h ▸ hs ▸ rfl)
      | isFalse h, _ => isFalse fun e => h (Prod.mk.inj (List.cons.inj e).1).2
      | _, isFalse hs => isFalse fun e => hs (List.cons.inj e).2
    else isFalse fun e => hk (Prod.mk.inj (List.cons.inj e).1).1
termination_by structural a => a
end

instance : DecidableEq Tree := decEq

def int (n : Int) : Tree := number (.int n)

def entries? : Tree → Option Entries
  | mapping es => some es
  | _ => none

def items? : Tree → Option (List Tree)
  | list ts => some ts
  | _ => none

def string? : Tree → Option String
  | string s => some s
  | _ => none

end Tree

namespace Entries

def get? (es : Entries) (key : String) : Option Tree :=
  List.lookup key es

def keys (es : Entries) : List String := es.map (·.1)

/-- Sets the value under a key: a known key keeps its place, a new one goes last. -/
def insert (es : Entries) (key : String) (value : Tree) : Entries :=
  match es with
  | [] => [(key, value)]
  | (k, v) :: rest => if k = key then (k, value) :: rest else (k, v) :: insert rest key value

theorem mem_of_get? {es : Entries} {key : String} {t : Tree}
    (h : get? es key = some t) : (key, t) ∈ es := by
  induction es with
  | nil => simp [get?] at h
  | cons e es ih =>
    obtain ⟨k, u⟩ := e
    unfold get? at h ih
    rw [List.lookup_cons] at h
    by_cases hk : key == k
    · have hk' : key = k := by simpa using hk
      subst hk'
      simp at h
      simp [h]
    · simp [hk] at h
      exact List.mem_cons_of_mem _ (ih h)

end Entries

namespace Tree

def get? (t : Tree) (key : String) : Option Tree :=
  t.entries?.bind (·.get? key)

mutual
def size : Tree → Nat
  | list ts => 1 + sizeList ts
  | mapping es => 1 + sizeEntries es
  | _ => 1
termination_by structural t => t

def sizeList : List Tree → Nat
  | [] => 0
  | t :: ts => t.size + sizeList ts
termination_by structural ts => ts

def sizeEntries : List (String × Tree) → Nat
  | [] => 0
  | (_, t) :: es => t.size + sizeEntries es
termination_by structural es => es
end

end Tree

end Schemata
