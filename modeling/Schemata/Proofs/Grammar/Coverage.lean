import Mathlib
import Schemata.Proofs.Grammar.Depth
import Schemata.Proofs.Validation.Verdict

/-!
# What the grammar knows of a schema

The grammar of schema documents holds the schemas inside a schema against itself, so that a schema
it accepts has nothing but accepted schemas where the grammar knows of them. It does not know of
definitions under `$defs`, and a list among the `dependencies` of a schema is one of names to it.
-/

namespace Schemata

namespace Grammar

/-- The schemas directly inside a schema of which the grammar knows. -/
inductive Knows (es : Entries) : Tree → Prop
  | single {keyword t} (hk : keyword ∈ Keyword.single) (ht : Entries.get? es keyword = some t) :
    Knows es t
  | named {keyword children name t} (hk : keyword ∈ Keyword.named) (hd : keyword ≠ "$defs")
    (hc : Entries.get? es keyword = some (.mapping children)) (ht : (name, t) ∈ children)
    (hl : keyword = "dependencies" → ∀ items, t ≠ .list items) : Knows es t
  | listed {keyword items t} (hk : keyword ∈ Keyword.listed)
    (hi : Entries.get? es keyword = some (.list items)) (ht : t ∈ items) : Knows es t
  | item {t} (ht : Entries.get? es "items" = some t) (hl : ∀ items, t ≠ .list items) : Knows es t
  | items {items t} (hi : Entries.get? es "items" = some (.list items)) (ht : t ∈ items) :
    Knows es t

/-- What a walk takes for the schemas directly inside a schema though the grammar does not. -/
inductive Ignores (es : Entries) : Tree → Prop
  | definition {children name t} (hc : Entries.get? es "$defs" = some (.mapping children))
    (ht : (name, t) ∈ children) : Ignores es t
  | names {children name items}
    (hc : Entries.get? es "dependencies" = some (.mapping children))
    (ht : (name, .list items) ∈ children) : Ignores es (.list items)

variable {es : Entries} {t u : Tree} {n : Nat}

theorem Knows.inside (h : Knows es t) : Inside es t := by
  cases h with
  | single hk ht => exact .single hk ht
  | named hk _ hc ht _ => exact .named hk hc ht
  | listed hk hi ht => exact .listed hk hi ht
  | item ht hl => exact .item ht hl
  | items hi ht => exact .items hi ht

theorem knows_or_ignores (h : Inside es t) : Knows es t ∨ Ignores es t := by
  cases h with
  | single hk ht => exact .inl (.single hk ht)
  | @named keyword children name t hk hc ht =>
    by_cases hd : keyword = "$defs"
    · exact .inr (.definition (hd ▸ hc) ht)
    · by_cases hl : keyword = "dependencies" ∧ ∃ items, t = .list items
      · obtain ⟨rfl, items, rfl⟩ := hl
        exact .inr (.names hc ht)
      · exact .inl (.named hk hd hc ht fun he items hi => hl ⟨he, items, hi⟩)
  | listed hk hi ht => exact .inl (.listed hk hi ht)
  | item ht hl => exact .inl (.item ht hl)
  | items hi ht => exact .inl (.items hi ht)

namespace Draft07

/-- A part of the grammar finds nothing in a tree up to some depth. -/
def Accepts (n : Nat) (part t : Tree) : Prop := inspect n ⟨schema, part⟩ t = []

variable {part : Entries}

theorem Accepts.keyword (keyword : String) {v : Tree} (h : Accepts (n + 1) (.mapping part) t)
    (hr : (Tree.mapping part).reference? = none) (hk : Entries.get? part keyword = some v) :
    checkKeyword (fun s => inspect n ⟨schema, s⟩) part keyword v t = [] :=
  (inspect_eq_nil hr).1 h (keyword, v) (Entries.mem_of_get? hk)

theorem accepts_whole : Accepts (n + 1) whole t ↔ Accepts n schema t := by
  have hr : (Tree.mapping [("$ref", .string "#")]).reference? = some "#" := rfl
  have ht : target? schema "#" = some ⟨schema, schema⟩ := rfl
  rw [Accepts, whole, refer, inspect_reference hr, ht]
  rfl

theorem accepts_named {name : String} {v : Tree} (hn : target? schema ("#/definitions/" ++ name) =
    some ⟨schema, v⟩) : Accepts (n + 1) (named name) t ↔ Accepts n v t := by
  have hr : (Tree.mapping [("$ref", .string ("#/definitions/" ++ name))]).reference? =
    some ("#/definitions/" ++ name) := rfl
  rw [Accepts, named, refer, inspect_reference hr, hn]
  rfl

theorem Accepts.hasType {name : String} (h : Accepts (n + 1) (.mapping part) t)
    (hr : (Tree.mapping part).reference? = none)
    (hk : Entries.get? part "type" = some (.string name)) : t.hasType name :=
  demand_eq_nil.1 (h.keyword "type" hr hk)

/-- What a schema has under one of its names is held against what the grammar has under it. -/
theorem Accepts.property {name : String} {v : Tree} (h : Accepts (n + 1) schema (.mapping es))
    (hp : Entries.get? properties name = some v) (hu : Entries.get? es name = some u) :
    Accepts n v u := by
  have hk := List.flatMap_eq_nil_iff.1 (h.keyword "properties" rfl rfl) (name, v)
    (Entries.mem_of_get? hp)
  rw [show (Tree.mapping es).get? (name, v).1 = some u from hu, Option.map_some,
    Option.getD_some, checkEntry_eq_nil] at hk
  exact hk

theorem Accepts.entry {children v : Entries} {name : String}
    (h : Accepts (n + 1) (.mapping part) (.mapping children))
    (hr : (Tree.mapping part).reference? = none)
    (hk : Entries.get? part "additionalProperties" = some (.mapping v))
    (hp : propertiesOf part = []) (hq : patternsOf part = [])
    (hu : (name, u) ∈ children) : Accepts n (.mapping v) u := by
  have hk := List.flatMap_eq_nil_iff.1 (h.keyword "additionalProperties" hr hk) (name, u)
  refine checkEntry_eq_nil.1 (hk (List.mem_filter.2 ⟨hu, ?_⟩))
  simp [isExtra, hp, hq, Entries.get?]

theorem Accepts.anyOf {parts : List Tree} (h : Accepts (n + 1) (.mapping part) t)
    (hr : (Tree.mapping part).reference? = none)
    (hk : Entries.get? part "anyOf" = some (.list parts)) : ∃ v ∈ parts, Accepts n v t := by
  simpa [Accepts] using demand_eq_nil.1 (h.keyword "anyOf" hr hk)

def schemaArray : Entries :=
  [("type", .string "array"), ("minItems", .int 1), ("items", whole)]

def stringArray : Entries :=
  [("type", .string "array"), ("items", typed "string"), ("uniqueItems", .bool true),
    ("default", .list [])]

theorem accepts_schemaArray :
    Accepts (n + 1) (named "schemaArray") t ↔ Accepts n (.mapping schemaArray) t :=
  accepts_named (by cbv)

theorem accepts_stringArray :
    Accepts (n + 1) (named "stringArray") t ↔ Accepts n (.mapping stringArray) t :=
  accepts_named (by cbv)

theorem Accepts.item {ts : List Tree} (h : Accepts (n + 1) (.mapping schemaArray) (.list ts))
    (hu : u ∈ ts) : Accepts n whole u := by
  obtain ⟨i, hi, rfl⟩ := List.mem_iff_getElem.1 hu
  have hk : checkItems _ (fun _ => some whole) ts = [] :=
    h.keyword "items" rfl rfl
  exact checkItems_eq_nil.1 hk _ i whole (by simp [List.mk_mem_zipIdx_iff_getElem?, hi]) rfl

theorem exists_list (h : t.hasType "array") : ∃ ts, t = .list ts := by
  cases t with
  | list ts => exact ⟨ts, rfl⟩
  | _ => simp [Tree.hasType] at h

theorem not_accepts_list {ts : List Tree} : ¬ Accepts (n + 1) schema (.list ts) := by
  intro h
  have hk : checkType (strings ["object", "boolean"]) (.list ts) = [] :=
    h.keyword "type" rfl rfl
  simp [checkType, strings, demand_eq_nil, stringsOf, Tree.items?, Tree.string?,
    Tree.hasType] at hk

/-- A schema inside a schema is accepted up to a depth that is a few steps less. -/
theorem accepts_of_knows (hk : Knows es u) (h : Accepts (n + 5) schema (.mapping es)) :
    Accepts n schema u := by
  have less {m : Nat} (hm : n ≤ m) (h : Accepts m schema u) : Accepts n schema u :=
    inspect_antitone hm h
  cases hk with
  | single hk ht =>
    have hp : ∀ keyword ∈ Keyword.single, Entries.get? properties keyword = some whole := by
      decide +kernel
    exact less (by omega) (accepts_whole.1 (h.property (hp _ hk) ht))
  | @named keyword children name _ hk hd hc ht hl =>
    simp only [Keyword.named, List.mem_cons, List.not_mem_nil, or_false] at hk
    rcases hk with rfl | rfl | rfl | rfl | rfl
    · have := (h.property rfl hc).entry rfl rfl rfl rfl ht
      exact less (by omega) (accepts_whole.1 this)
    · have := (h.property rfl hc).entry rfl rfl rfl rfl ht
      exact less (by omega) (accepts_whole.1 this)
    · exact absurd rfl hd
    · have := (h.property rfl hc).entry rfl rfl rfl rfl ht
      exact less (by omega) (accepts_whole.1 this)
    · have := (h.property rfl hc).entry rfl rfl rfl rfl ht
      obtain ⟨v, hv, hu⟩ := this.anyOf rfl rfl
      obtain rfl | rfl : v = whole ∨ v = named "stringArray" := by simpa using hv
      · exact less (by omega) (accepts_whole.1 hu)
      · obtain ⟨items, rfl⟩ := exists_list
          ((accepts_stringArray.1 hu).hasType rfl rfl)
        exact absurd rfl (hl rfl items)
  | listed hk hi ht =>
    have hp : ∀ keyword ∈ Keyword.listed,
        Entries.get? properties keyword = some (named "schemaArray") := by decide +kernel
    have := (accepts_schemaArray.1 (h.property (hp _ hk) hi)).item ht
    exact less (by omega) (accepts_whole.1 this)
  | item ht hl =>
    obtain ⟨v, hv, hu⟩ := (h.property rfl ht).anyOf rfl rfl
    obtain rfl | rfl : v = whole ∨ v = named "schemaArray" := by simpa using hv
    · exact less (by omega) (accepts_whole.1 hu)
    · obtain ⟨items, rfl⟩ := exists_list
        ((accepts_schemaArray.1 hu).hasType rfl rfl)
      exact absurd rfl (hl items)
  | items hi ht =>
    obtain ⟨v, hv, hu⟩ := (h.property rfl hi).anyOf rfl rfl
    obtain rfl | rfl : v = whole ∨ v = named "schemaArray" := by simpa using hv
    · exact absurd (accepts_whole.1 hu) not_accepts_list
    · have := (accepts_schemaArray.1 hu).item ht
      exact less (by omega) (accepts_whole.1 this)

end Draft07

end Grammar

open Grammar

theorem draft07_eq_nil {t : Tree} :
    draft07 t = [] ↔ Draft07.Accepts (depthFor Draft07.schema t) Draft07.schema t :=
  List.map_eq_nil_iff

/-- A schema inside an accepted schema is accepted if the grammar knows of it. -/
theorem draft07_of_knows {es : Entries} {u : Tree} (hk : Knows es u)
    (h : draft07 (.mapping es) = []) : draft07 u = [] := by
  obtain ⟨p, hp, rfl⟩ := Position.exists_mem_all.2 hk.inside
  have hsize := Position.size_lt hp
  have hfive : 5 ≤ Draft07.schema.size := by decide +kernel
  have hdepth : depthFor Draft07.schema p.2 + 5 ≤ depthFor Draft07.schema (.mapping es) := by
    have := Nat.mul_le_mul_left (Draft07.schema.size + Draft07.schema.size + 1)
      (show (p.2.size + 1).succ ≤ (Tree.mapping es).size + 1 by omega)
    rw [Nat.mul_succ] at this
    unfold depthFor
    omega
  exact draft07_eq_nil.2
    (Draft07.accepts_of_knows hk (Draft07.inspect_antitone hdepth (draft07_eq_nil.1 h)))

namespace Tree

/-- A schema and those that stand in it, beneath no reference, where the grammar knows of them. -/
inductive Covers : Tree → Tree → Prop
  | here (t) : Covers t t
  | inside {es t u} (hr : (mapping es).reference? = none) (ht : Knows es t) (hu : Covers t u) :
    Covers (mapping es) u

variable {t u : Tree}

theorem Covers.draft07 (hu : t.Covers u) (h : draft07 t = []) : draft07 u = [] := by
  induction hu with
  | here => exact h
  | inside _ ht _ ih => exact ih (draft07_of_knows ht h)

/-- The grammar knows of a schema in a tree unless the way to it leads through a place that it
ignores. -/
theorem covers_or_ignores (h : t.Holds u) :
    t.Covers u ∨ ∃ es v, t.Covers (mapping es) ∧ Ignores es v ∧ v.Holds u := by
  induction h with
  | here t => exact .inl (.here t)
  | @inside es t u hr ht hu ih =>
    rcases knows_or_ignores ht with hk | hi
    · rcases ih with hc | ⟨es', v, hc, hi, hv⟩
      · exact .inl (.inside hr hk hc)
      · exact .inr ⟨es', v, .inside hr hk hc, hi, hv⟩
    · exact .inr ⟨es, t, .here _, hi, hu⟩

end Tree

variable {d : Disk} {r : Resolver} {s : Schema} {a : Target}

/-- A document without violations, and what it comes to, is made of schemas that the grammar
accepts, but for those in places that it ignores. -/
theorem Schema.draft07_of_validate (hd : d.WellFormed)
    (h : (s.validate draft07 d r).1 = .ok []) (ha : s.Reaches d r a) :
    (∀ u, a.value.Covers u → draft07 u = []) ∧
    ∀ u, a.value.Holds u → a.value.Covers u ∨
      ∃ es v, a.value.Covers (.mapping es) ∧ Ignores es v ∧ v.Holds u := by
  obtain ⟨all, hall, hmem, -, hv⟩ := exists_settled hd h
  have hclean := hv.1 rfl a (hall.mem_of_reaches hmem ha)
  exact ⟨fun u hu => hu.draft07 hclean.1, fun u hu => Tree.covers_or_ignores hu⟩

def Plain.disk : Disk :=
  ⟨[(["b.json"], .file (.text "\x7b\"items\":[\x7b\"type\":\"string\"\x7d]\x7d"))], []⟩

/-- A document that refers to that one, and has such a list itself. -/
def Plain.schema : Schema :=
  .ofTree ⟨"/a.json"⟩ ⟨"/"⟩ (.mapping [("not", .mapping [("$ref", .string "b.json")]),
    ("definitions", .mapping [("x", .mapping [("items", .list [Draft07.typed "string"])])])])

theorem Plain.accepted : disk.WellFormed ∧ (schema.validate draft07 disk .empty).1 = .ok [] ∧
    schema.Reaches disk .empty (schema.target disk) ∧
    schema.root.Covers (Draft07.typed "string") ∧ draft07 (Draft07.typed "string") = [] := by
  have hd : disk.WellFormed := by decide +kernel
  have h : (schema.validate draft07 disk .empty).1 = .ok [] := by decide +kernel
  have ha : schema.Reaches disk .empty (schema.target disk) := .refl
  have hc : schema.root.Covers (Draft07.typed "string") :=
    .inside rfl (.named (show "definitions" ∈ Keyword.named by decide) (by decide) rfl (.head _)
      fun h => absurd h (by decide)) (.inside rfl (.items rfl (.head _)) (.here _))
  exact ⟨hd, h, ha, hc, (Schema.draft07_of_validate hd h ha).1 _ hc⟩

/-- A document with a definition of no known type and a list of names, in places that the grammar
ignores. -/
def Odd.schema : Schema :=
  .ofTree ⟨"/a.json"⟩ ⟨"/"⟩ (.mapping [("$defs", .mapping [("a", Draft07.typed "bogus")]),
    ("dependencies", .mapping [("a", Draft07.strings ["b"])])])

/-- A walk takes both for schemas, and the grammar neither, but nothing is reported. -/
theorem Odd.not_accepted : (schema.validate draft07 ⟨[], []⟩ .empty).1 = .ok [] ∧
    schema.root.Holds (Draft07.typed "bogus") ∧ draft07 (Draft07.typed "bogus") ≠ [] ∧
    schema.root.Holds (Draft07.strings ["b"]) ∧ draft07 (Draft07.strings ["b"]) ≠ [] := by
  have hdefs : Inside [("$defs", .mapping [("a", Draft07.typed "bogus")]),
      ("dependencies", .mapping [("a", Draft07.strings ["b"])])] (Draft07.typed "bogus") :=
    .named (show "$defs" ∈ Keyword.named by decide) rfl (.head _)
  have hnames : Inside [("$defs", .mapping [("a", Draft07.typed "bogus")]),
      ("dependencies", .mapping [("a", Draft07.strings ["b"])])] (Draft07.strings ["b"]) :=
    .named (show "dependencies" ∈ Keyword.named by decide) rfl (.head _)
  exact ⟨by decide +kernel, .inside rfl hdefs (.here _), by decide +kernel,
    .inside rfl hnames (.here _), by decide +kernel⟩

end Schemata
