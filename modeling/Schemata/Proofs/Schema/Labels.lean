import Schemata.Proofs.Tree.Reordering
import Schemata.Schema.Shape

/-!
# Labels of definitions

The label of a definition can be read off its tree: from `type` if that is a name or a list of
names, else from the values under `enum`, else from `$ref`. `Tree.Reads` says how, and the label of
the shape of a definition is what it says. Each array around a definition puts the same words in
front of its label, however many there are.
-/

namespace Schemata

namespace Shape

variable {t u : Tree} {es : Entries}

def ofItem (t : Tree) : Option Shape := t.entries?.map fun _ => ofTree t

/-- The shape of a definition by its items and by what it has under the keys that tell it. -/
def ofKeys (items : Option Shape) (type values reference : Option Tree) : Shape :=
  match type with
  | some (.string "array") => .array items
  | some (.string "object") => .object
  | some (.string name) => .primitive name
  | some (.list names) => .union (typeNames names)
  | _ =>
    match values with
    | some (.list (v :: vs)) => .enumeration (v :: vs)
    | _ =>
      match reference with
      | some (.string raw) => .reference raw
      | _ => .unknown

theorem ofItems_eq (es : Entries) : ofItems es = (Entries.get? es "items").bind ofItem := by
  induction es with
  | nil => rfl
  | cons e es ih =>
    rw [ofItems, Tree.Reorders.get?_cons]
    by_cases hk : e.1 = "items"
    · rw [if_pos hk, if_pos hk.symm, Option.bind_some, ofItem]
      cases e.2.entries? <;> rfl
    · rw [if_neg hk, if_neg (Ne.symm hk), ih]

theorem ofTree_eq (t : Tree) : ofTree t =
    ofKeys ((t.get? "items").bind ofItem) (t.get? "type") (t.get? "enum") (t.get? "$ref") := by
  cases t with
  | mapping es =>
    have get? (key : String) : (Tree.mapping es).get? key = Entries.get? es key := rfl
    rw [ofTree, ofItems_eq, get?, get?, get?, get?]
    unfold ofKeys withoutType
    rfl
  | _ => rfl

end Shape

namespace Tree

/-- What is under `type`, if anything, is neither a name nor a list of names. -/
def Untyped (t : Tree) : Prop :=
  ∀ u, t.get? "type" = some u → (∀ name, u ≠ string name) ∧ ∀ names, u ≠ list names

def Valueless (t : Tree) : Prop := ∀ values, t.get? "enum" = some (list values) → values = []

inductive Reads : Tree → String → Prop
  | arrayOf {t items text} (ht : t.get? "type" = some (string "array"))
    (hi : t.get? "items" = some (mapping items)) (hr : Reads (mapping items) text) :
    Reads t ("Array of " ++ text)
  | array {t} (ht : t.get? "type" = some (string "array"))
    (hi : ∀ items, t.get? "items" ≠ some (mapping items)) : Reads t "Array"
  | object {t} (ht : t.get? "type" = some (string "object")) : Reads t "Object"
  | name {t name} (ht : t.get? "type" = some (string name)) (ha : name ≠ "array")
    (ho : name ≠ "object") : Reads t (capitalized name)
  | names {t names} (ht : t.get? "type" = some (list names)) :
    Reads t (" or ".intercalate ((names.filterMap string?).map capitalized))
  | values {t values} (ht : t.Untyped) (he : t.get? "enum" = some (list values))
    (hv : values ≠ []) : Reads t ("Enum: " ++ ", ".intercalate (values.map plainText))
  | within {t pointer} (ht : t.Untyped) (he : t.Valueless)
    (hr : t.get? "$ref" = some (string ("#/" ++ pointer))) : Reads t ("Reference: " ++ pointer)
  | reference {t raw} (ht : t.Untyped) (he : t.Valueless)
    (hr : t.get? "$ref" = some (string raw)) (hn : ∀ pointer, raw ≠ "#/" ++ pointer) :
    Reads t ("Reference: " ++ raw)
  | unknown {t} (ht : t.Untyped) (he : t.Valueless)
    (hr : ∀ raw, t.get? "$ref" ≠ some (string raw)) : Reads t "Unknown"

/-- So many arrays around a tree, each with the one before under `items`. -/
inductive Nests (leaf : Tree) : Nat → Tree → Prop
  | leaf : Nests leaf 0 leaf
  | array {n t u} (h : Nests leaf n u) (ht : t.get? "type" = some (string "array"))
    (hi : t.get? "items" = some u) : Nests leaf (n + 1) t

theorem exists_mapping {t u : Tree} {key : String} (h : t.get? key = some u) :
    ∃ es, t = mapping es := by
  cases t with
  | mapping es => exact ⟨es, rfl⟩
  | _ => cases h

theorem size_lt_of_get? {t u : Tree} {key : String} (h : t.get? key = some u) :
    u.size < t.size := by
  obtain ⟨es, rfl⟩ := exists_mapping h
  have hle : u.size ≤ sizeEntries es := Position.size_le_of_get? h
  rw [size]
  omega

theorem Nests.exists_items {leaf t : Tree} {n : Nat} (h : leaf.Nests (n + 1) t) :
    t.get? "type" = some (string "array") ∧ ∃ u, t.get? "items" = some u ∧ leaf.Nests n u := by
  cases h with
  | array h ht hi => exact ⟨ht, _, hi, h⟩

theorem Nests.exists_entries {t : Tree} {es : Entries} {n : Nat} (h : (mapping es).Nests n t) :
    ∃ fs, t = mapping fs := by
  cases h with
  | leaf => exact ⟨es, rfl⟩
  | array _ ht _ => exact exists_mapping ht

/-- Something can be read off every definition. -/
theorem exists_reads (t : Tree) : ∃ text, t.Reads text := by
  induction hn : t.size using Nat.strongRecOn generalizing t with
  | ind n ih =>
    subst hn
    by_cases hname : ∃ name, t.get? "type" = some (string name)
    · obtain ⟨name, ht⟩ := hname
      by_cases ha : name = "array"
      · subst ha
        by_cases hi : ∃ items, t.get? "items" = some (mapping items)
        · obtain ⟨items, hi⟩ := hi
          obtain ⟨text, hr⟩ := ih _ (size_lt_of_get? hi) _ rfl
          exact ⟨_, .arrayOf ht hi hr⟩
        · exact ⟨_, .array ht (not_exists.1 hi)⟩
      by_cases ho : name = "object"
      · exact ⟨_, .object (ho ▸ ht)⟩
      · exact ⟨_, .name ht ha ho⟩
    by_cases hnames : ∃ names, t.get? "type" = some (list names)
    · obtain ⟨names, ht⟩ := hnames
      exact ⟨_, .names ht⟩
    have ht : t.Untyped := fun u hu =>
      ⟨fun name h => hname ⟨name, h ▸ hu⟩, fun names h => hnames ⟨names, h ▸ hu⟩⟩
    by_cases he : t.Valueless
    · by_cases hr : ∃ raw, t.get? "$ref" = some (string raw)
      · obtain ⟨raw, hr⟩ := hr
        by_cases hp : ∃ pointer, raw = "#/" ++ pointer
        · obtain ⟨pointer, rfl⟩ := hp
          exact ⟨_, .within ht he hr⟩
        · exact ⟨_, .reference ht he hr (not_exists.1 hp)⟩
      · exact ⟨_, .unknown ht he (not_exists.1 hr)⟩
    · simp only [Valueless, not_forall] at he
      obtain ⟨values, he, hv⟩ := he
      exact ⟨_, .values ht he hv⟩

end Tree

namespace Shape

variable {t : Tree} {es : Entries} {items : Option Shape} {values reference : Option Tree}
  {text : String}

theorem ofKeys_name {name : String} (ha : name ≠ "array") (ho : name ≠ "object") :
    ofKeys items (some (.string name)) values reference = .primitive name := by
  unfold ofKeys
  split <;> simp_all

theorem ofTree_untyped (h : t.Untyped) :
    ofTree t = ofKeys none none (t.get? "enum") (t.get? "$ref") := by
  rw [ofTree_eq]
  cases ht : t.get? "type" with
  | none => rfl
  | some u =>
    obtain ⟨hname, hnames⟩ := h u ht
    cases u with
    | string name => exact absurd rfl (hname name)
    | list names => exact absurd rfl (hnames names)
    | _ => rfl

theorem ofTree_valueless (h : t.Untyped) (he : t.Valueless) :
    ofTree t = ofKeys none none none (t.get? "$ref") := by
  rw [ofTree_untyped h]
  cases hv : t.get? "enum" with
  | none => rfl
  | some u =>
    cases u with
    | list values =>
      cases he values hv
      rfl
    | _ => rfl

theorem ofTree_reference {raw : String} (h : t.Untyped) (he : t.Valueless)
    (hr : t.get? "$ref" = some (.string raw)) : ofTree t = .reference raw := by
  rw [ofTree_valueless h he, hr]
  rfl

theorem shownReference_within (pointer : String) : shownReference ("#/" ++ pointer) = pointer := by
  simp [shownReference]

theorem shownReference_eq {raw : String} (h : ∀ pointer, raw ≠ "#/" ++ pointer) :
    shownReference raw = raw := by
  unfold shownReference
  split
  · rename_i rest hr
    refine absurd ?_ (h (String.ofList rest))
    simp [← String.toList_inj, hr]
  · rfl

theorem label_array {items : Entries} (ht : t.get? "type" = some (.string "array"))
    (hi : t.get? "items" = some (.mapping items)) :
    (ofTree t).label = "Array of " ++ (ofTree (.mapping items)).label := by
  rw [ofTree_eq, ht, hi]
  rfl

theorem ofItem_eq_none (h : ∀ es, t ≠ .mapping es) : ofItem t = none := by
  cases t with
  | mapping es => exact absurd rfl (h es)
  | _ => rfl

/-- What is read off a definition is the label of its shape. -/
theorem label_of_reads (h : t.Reads text) : (ofTree t).label = text := by
  induction h with
  | arrayOf ht hi _ ih => rw [label_array ht hi, ih]
  | @array t ht hi =>
    have hnone : (t.get? "items").bind ofItem = none := by
      rw [Option.bind_eq_none_iff]
      exact fun u hu => ofItem_eq_none fun es he => hi es (he ▸ hu)
    rw [ofTree_eq, ht, hnone, ofKeys, label]
  | object ht =>
    rw [ofTree_eq, ht]
    rfl
  | name ht ha ho => rw [ofTree_eq, ht, ofKeys_name ha ho, label]
  | names ht =>
    rw [ofTree_eq, ht]
    rfl
  | @values t values ht he hv =>
    obtain ⟨v, vs, rfl⟩ := List.exists_cons_of_ne_nil hv
    rw [ofTree_untyped ht, he]
    rfl
  | within ht he hr => rw [ofTree_reference ht he hr, label, shownReference_within]
  | reference ht he hr hn => rw [ofTree_reference ht he hr, label, shownReference_eq hn]
  | @unknown t ht he hr =>
    rw [ofTree_valueless ht he]
    cases hu : t.get? "$ref" with
    | none => rfl
    | some u =>
      cases u with
      | string raw => exact absurd hu (hr raw)
      | _ => rfl

def arraysOf (n : Nat) : String := String.join (List.replicate n "Array of ")

theorem arraysOf_succ (n : Nat) (text : String) :
    arraysOf (n + 1) ++ text = "Array of " ++ (arraysOf n ++ text) := by
  rw [arraysOf, List.replicate_succ, String.join_cons, String.append_assoc, arraysOf]

theorem label_nests {n : Nat} (h : (Tree.mapping es).Nests n t) :
    (ofTree t).label = arraysOf n ++ (ofTree (.mapping es)).label := by
  induction h with
  | leaf => simp [arraysOf]
  | array hu ht hi ih =>
    obtain ⟨fs, rfl⟩ := hu.exists_entries
    rw [label_array ht hi, ih, arraysOf_succ]

/-- Around what is no definition the innermost array says nothing of its items. -/
theorem label_nests_scalar {leaf : Tree} {n : Nat} (hl : ∀ es, leaf ≠ .mapping es)
    (h : leaf.Nests (n + 1) t) : (ofTree t).label = arraysOf n ++ "Array" := by
  induction n generalizing t with
  | zero =>
    obtain ⟨ht, u, hi, hu⟩ := h.exists_items
    cases hu
    rw [label_of_reads (.array ht fun es he => hl es (Option.some.inj (hi.symm.trans he)))]
    simp [arraysOf]
  | succ n ih =>
    obtain ⟨ht, u, hi, hu⟩ := h.exists_items
    obtain ⟨es, rfl⟩ := Tree.exists_mapping hu.exists_items.1
    rw [label_array ht hi, ih hu, arraysOf_succ]

/-- The label of a definition is the one that is read off its tree: each definition has one,
whatever it holds. Around a definition arrays nest to any depth, and each of them puts `Array of` in
front of its label; around any other tree the innermost array is an array of nothing in
particular. -/
theorem label_read_off (t : Tree) :
    (∀ text, t.Reads text ↔ (ofTree t).label = text) ∧
    (∀ n es, (Tree.mapping es).Nests n t →
      (ofTree t).label = arraysOf n ++ (ofTree (.mapping es)).label) ∧
    ∀ n leaf, (∀ es, leaf ≠ .mapping es) → Tree.Nests leaf (n + 1) t →
      (ofTree t).label = arraysOf n ++ "Array" := by
  refine ⟨fun text => ⟨label_of_reads, ?_⟩, fun n es => label_nests,
    fun n leaf => label_nests_scalar⟩
  rintro rfl
  obtain ⟨text, hr⟩ := t.exists_reads
  rwa [label_of_reads hr]

def Shelves.leaf : Tree :=
  .mapping [("type", .int 3), ("enum", .list [.int 1, .string "a"]), ("$ref", .string "#/a")]

def Shelves.row (items : Tree) : Tree := .mapping [("items", items), ("type", .string "array")]

theorem Shelves.read : leaf.Nests 2 (row (row leaf)) ∧
    (row (row leaf)).Reads "Array of Array of Enum: 1, a" ∧
    (ofTree (row (row leaf))).label = arraysOf 2 ++ (ofTree leaf).label ∧
    (ofTree (row (row (.bool true)))).label = arraysOf 1 ++ "Array" := by
  have hnests (t : Tree) : t.Nests 2 (row (row t)) := .array (.array .leaf rfl rfl) rfl rfl
  obtain ⟨hreads, hlabel, -⟩ := label_read_off (row (row leaf))
  obtain ⟨-, -, hscalar⟩ := label_read_off (row (row (.bool true)))
  exact ⟨hnests leaf, (hreads _).2 (by decide +kernel), hlabel 2 _ (hnests leaf),
    hscalar 1 (.bool true) (fun es h => by cases h) (hnests _)⟩

end Shape

end Schemata
