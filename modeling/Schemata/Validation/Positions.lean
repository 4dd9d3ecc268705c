import Schemata.Violation

/-!
# Where schemas stand in schemas

A schema holds other schemas under fixed keywords: one, a mapping of them, or a list of them.
`Schema.positions` lists these places of a node in the order of validation, and `undeclared` tells
which names a node requires without declaring them.
-/

namespace Schemata

namespace Keyword

def single : List String :=
  ["additionalItems", "additionalProperties", "contains", "propertyNames", "if", "then", "else",
    "not"]

def named : List String :=
  ["properties", "definitions", "$defs", "patternProperties", "dependencies"]

def listed : List String := ["allOf", "anyOf", "oneOf"]

end Keyword

/-- A place beneath a node and what stands there. -/
abbrev Position := TreePath × Tree

namespace Position

def ofKeyword (es : Entries) (keyword : String) : List Position :=
  match Entries.get? es keyword with
  | some t => [([.key keyword], t)]
  | none => []

def ofNames (es : Entries) (keyword : String) : List Position :=
  match Entries.get? es keyword with
  | some (.mapping children) => children.map fun c => ([.key keyword, .key c.1], c.2)
  | _ => []

def ofItems (keyword : String) (items : List Tree) : List Position :=
  items.zipIdx.map fun c => ([.key keyword, .index c.2], c.1)

def ofList (es : Entries) (keyword : String) : List Position :=
  match Entries.get? es keyword with
  | some (.list items) => ofItems keyword items
  | _ => []

/-- The keyword `items` has one schema or a list of them. -/
def ofEither (es : Entries) (keyword : String) : List Position :=
  match Entries.get? es keyword with
  | some (.list items) => ofItems keyword items
  | some t => [([.key keyword], t)]
  | none => []

/-- The schemas directly inside a schema, in the order of validation. -/
def all (es : Entries) : List Position :=
  Keyword.single.flatMap (ofKeyword es) ++ Keyword.named.flatMap (ofNames es)
    ++ Keyword.listed.flatMap (ofList es) ++ ofEither es "items"

theorem size_le_of_mem_items {t : Tree} {ts : List Tree} (h : t ∈ ts) :
    t.size ≤ Tree.sizeList ts := by
  induction ts with
  | nil => cases h
  | cons u us ih =>
    rw [Tree.sizeList]
    cases h with
    | head => omega
    | tail _ h => have := ih h; omega

theorem size_le_of_mem_entries {t : Tree} {k : String} {es : Entries} (h : (k, t) ∈ es) :
    t.size ≤ Tree.sizeEntries es := by
  induction es with
  | nil => cases h
  | cons e es ih =>
    obtain ⟨l, u⟩ := e
    rw [Tree.sizeEntries]
    cases h with
    | head => omega
    | tail _ h => have := ih h; omega

theorem size_le_of_get? {t : Tree} {k : String} {es : Entries}
    (h : Entries.get? es k = some t) : t.size ≤ Tree.sizeEntries es :=
  size_le_of_mem_entries (Entries.mem_of_get? h)

theorem size_lt_of_mem_ofItems {keyword : String} {items : List Tree} {p : Position}
    (h : p ∈ ofItems keyword items) : p.2.size < (Tree.list items).size := by
  obtain ⟨c, hc, rfl⟩ := List.mem_map.1 h
  obtain ⟨hi, he⟩ := List.mem_zipIdx' hc
  have : c.1.size ≤ Tree.sizeList items := size_le_of_mem_items (he ▸ List.getElem_mem hi)
  simp only [Tree.size]
  omega

theorem size_lt {es : Entries} {p : Position} (h : p ∈ all es) :
    p.2.size < (Tree.mapping es).size := by
  suffices p.2.size ≤ Tree.sizeEntries es by rw [Tree.size]; omega
  simp only [all, List.mem_append, List.mem_flatMap] at h
  rcases h with ((⟨k, _, h⟩ | ⟨k, _, h⟩) | ⟨k, _, h⟩) | h
  · unfold ofKeyword at h
    split at h
    · rename_i hg
      cases List.mem_singleton.1 h
      exact size_le_of_get? hg
    · cases h
  · unfold ofNames at h
    split at h
    · rename_i hg
      obtain ⟨c, hc, rfl⟩ := List.mem_map.1 h
      have := size_le_of_get? hg
      have := size_le_of_mem_entries hc
      simp only [Tree.size] at *
      omega
    · cases h
  · unfold ofList at h
    split at h
    · rename_i hg
      have := size_le_of_get? hg
      have := size_lt_of_mem_ofItems h
      omega
    · cases h
  · unfold ofEither at h
    split at h
    · rename_i hg
      have := size_le_of_get? hg
      have := size_lt_of_mem_ofItems h
      omega
    · rename_i hg
      cases List.mem_singleton.1 h
      exact size_le_of_get? hg
    · cases h

end Position

def declares (es : Entries) (name : String) : Bool :=
  match Entries.get? es "properties" with
  | some (.mapping ps) => (Entries.get? ps name).isSome
  | _ => false

def undeclaredMessage (name : String) : String :=
  "\"" ++ name ++ "\" is required but not declared in properties"

/-- The violations of a node that requires names without declaring them. -/
def undeclared (es : Entries) : List Violation :=
  match Entries.get? es "required" with
  | some (.list names) =>
    names.zipIdx.filterMap fun n =>
      match n.1 with
      | .string name =>
        if declares es name then none
        else some ⟨[.key "required", .index n.2], undeclaredMessage name⟩
      | _ => none
  | _ => []

end Schemata
