import Schemata.Grammar.Check
import Schemata.Reference.Reach

/-!
# How deep a grammar looks

A schema that asks for nothing to fail finds no less in a tree the deeper it looks: what is not
found at some depth is not found at a smaller one. The schemas that the grammar of schema documents
is made of are such schemas.
-/

namespace Schemata

namespace Grammar

def ownKeywords : List String :=
  ["items", "additionalItems", "contains", "additionalProperties", "propertyNames"]

def listKeywords : List String := ["items", "allOf", "anyOf"]

def nameKeywords : List String := ["properties", "patternProperties", "dependencies"]

/-- Keywords for which it counts that a value fails a schema. -/
def contraryKeywords : List String := ["not", "oneOf", "if"]

def inner (keyword : String) (v : Tree) : List Tree :=
  (if keyword ∈ ownKeywords then [v] else []) ++
    (if keyword ∈ listKeywords then v.items?.getD [] else []) ++
      if keyword ∈ nameKeywords then (v.entries?.getD []).map (·.2) else []

/-- All that a schema refers to or holds values against is among the schemas, and it says nothing
about failing. -/
def confined (root : Tree) (schemas : List Tree) (schema : Tree) : Bool :=
  match schema with
  | .mapping es =>
    match (Tree.mapping es).reference? with
    | some raw => (target? root raw).all fun p => p.root = root && p.schema ∈ schemas
    | none => es.all fun e => e.1 ∉ contraryKeywords && (inner e.1 e.2).all (· ∈ schemas)
  | _ => true

theorem demand_eq_nil {holds : Bool} {b : Breach} {t : Tree} :
    demand holds b t = [] ↔ holds = true := by
  cases holds <;> simp [demand]

theorem checkEntry_eq_nil {f : Inspect} {s t : Tree} {name : String} :
    checkEntry f s name t = [] ↔ f s t = [] :=
  List.map_eq_nil_iff

/-- One way of looking finds nothing with a schema where the other one finds nothing. -/
def Milder (f g : Inspect) (schema : Tree) : Prop := ∀ u, f schema u = [] → g schema u = []

variable {f g : Inspect} {es : Entries} {keyword : String} {v t : Tree}

theorem checkItems_eq_nil {schema : Nat → Option Tree} {ts : List Tree} :
    checkItems f schema ts = [] ↔ ∀ u i s, (u, i) ∈ ts.zipIdx → schema i = some s → f s u = [] := by
  simp only [checkItems, List.flatMap_eq_nil_iff, Prod.forall]
  refine forall_congr' fun u => forall_congr' fun i => ?_
  cases schema i <;> simp

theorem checkItems_milder {schema : Nat → Option Tree} {ts : List Tree}
    (hfg : ∀ i s, schema i = some s → Milder f g s) (h : checkItems f schema ts = []) :
    checkItems g schema ts = [] :=
  checkItems_eq_nil.2 fun u i s hu hs => hfg i s hs u (checkItems_eq_nil.1 h u i s hu hs)

theorem checkExtraItems_milder (hfg : Milder f g v) (h : checkExtraItems f es v t = []) :
    checkExtraItems g es v t = [] := by
  unfold checkExtraItems at h ⊢
  split at h <;> rename_i hitems <;> try rfl
  split at h
  · exact h
  · refine checkItems_milder (fun i s hs => ?_) h
    split at hs
    · cases hs
    · exact Option.some.inj hs ▸ hfg

theorem checkExtraEntries_milder (hfg : Milder f g v) (h : checkExtraEntries f es v t = []) :
    checkExtraEntries g es v t = [] := by
  unfold checkExtraEntries at h ⊢
  split at h
  · exact h
  · rw [List.flatMap_eq_nil_iff] at h ⊢
    exact fun e he => checkEntry_eq_nil.2 (hfg _ (checkEntry_eq_nil.1 (h e he)))

theorem checkNames_milder (hfg : Milder f g v) (h : checkNames f v t = []) :
    checkNames g v t = [] := by
  unfold checkNames at h ⊢
  split at h
  · exact h
  · rw [List.flatMap_eq_nil_iff] at h ⊢
    exact fun e he => List.map_eq_nil_iff.2 (hfg _ (List.map_eq_nil_iff.1 (h e he)))
  · rfl

theorem checkDependency_milder {name : String} (hfg : Milder f g v)
    (h : checkDependency f t name v = []) : checkDependency g t name v = [] := by
  unfold checkDependency at h ⊢
  split
  · rfl
  · rename_i hn
    rw [if_neg hn] at h
    split at h
    · exact h
    · exact hfg t h

theorem any_milder {α : Type} {xs : List α} {p q : α → List Finding}
    (hpq : ∀ x ∈ xs, p x = [] → q x = []) (h : xs.any fun x => (p x).isEmpty) :
    xs.any fun x => (q x).isEmpty := by
  simp only [List.any_eq_true, List.isEmpty_iff] at h ⊢
  obtain ⟨x, hx, hp⟩ := h
  exact ⟨x, hx, hpq x hx hp⟩

theorem checkKeyword_milder (hk : keyword ∉ contraryKeywords)
    (hfg : ∀ s ∈ inner keyword v, Milder f g s) (h : checkKeyword f es keyword v t = []) :
    checkKeyword g es keyword v t = [] := by
  have own (hs : keyword ∈ ownKeywords) : Milder f g v := hfg v (by simp [inner, hs])
  have ofList {ss s} (hl : keyword ∈ listKeywords) (hv : v = .list ss) (hs : s ∈ ss) :
      Milder f g s :=
    hfg s (by simp [inner, hl, hv, Tree.items?, hs])
  have ofNames {ps p} (hn : keyword ∈ nameKeywords) (hv : v = .mapping ps) (hp : p ∈ ps) :
      Milder f g p.2 :=
    hfg p.2 (List.mem_append_right _ (by
      rw [if_pos hn, hv]
      exact List.mem_map_of_mem hp))
  revert h
  unfold checkKeyword
  split
  -- most keywords hold values against no schema
  all_goals first | exact id | skip
  -- `items`, with a list and with one schema
  · exact checkItems_milder fun i s hs => ofList (by decide) rfl (List.mem_of_getElem? hs)
  · exact checkItems_milder fun i s hs => Option.some.inj hs ▸ own (by decide)
  -- `additionalItems`
  · exact checkExtraItems_milder (own (by decide))
  -- `contains`
  · cases t.items? with
    | none => exact id
    | some ts =>
      simp only [Option.map_some, Option.getD_some, demand_eq_nil]
      exact any_milder fun u _ => own (by decide) u
  -- `properties`
  · simp only [List.flatMap_eq_nil_iff]
    intro h p hp
    specialize h p hp
    cases hu : t.get? p.1 with
    | none => rfl
    | some u =>
      rw [hu] at h
      exact checkEntry_eq_nil.2 (ofNames (by decide) rfl hp _ (checkEntry_eq_nil.1 h))
  -- `patternProperties`
  · simp only [List.flatMap_eq_nil_iff]
    intro h p hp e he
    specialize h p hp e he
    split at h
    · exact (if_pos ‹_›).trans
        (checkEntry_eq_nil.2 (ofNames (by decide) rfl hp _ (checkEntry_eq_nil.1 h)))
    · exact if_neg ‹_›
  -- `additionalProperties` and `propertyNames`
  · exact checkExtraEntries_milder (own (by decide))
  · exact checkNames_milder (own (by decide))
  -- `dependencies`
  · simp only [List.flatMap_eq_nil_iff]
    exact fun h p hp => checkDependency_milder (ofNames (by decide) rfl hp) (h p hp)
  -- `allOf` and `anyOf`
  · simp only [List.flatMap_eq_nil_iff]
    exact fun h s hs => ofList (by decide) rfl hs t (h s hs)
  · simp only [demand_eq_nil]
    exact any_milder fun s hs => ofList (by decide) rfl hs t
  all_goals exact absurd (by decide) hk

variable {root s : Tree} {schemas : List Tree} {n : Nat}

theorem inspect_reference {raw : String} (h : (Tree.mapping es).reference? = some raw) :
    inspect (n + 1) ⟨root, .mapping es⟩ t =
      ((target? root raw).map (inspect n · t)).getD [] := by
  obtain ⟨u, hu, hs⟩ := Option.bind_eq_some_iff.1 h
  cases u <;> cases hs
  change Entries.get? es "$ref" = some (.string raw) at hu
  simp only [inspect, hu]

theorem inspect_eq_nil (h : (Tree.mapping es).reference? = none) :
    inspect (n + 1) ⟨root, .mapping es⟩ t = [] ↔
      ∀ e ∈ es, checkKeyword (fun s => inspect n ⟨root, s⟩) es e.1 e.2 t = [] := by
  simp only [inspect]
  split
  · rename_i raw hr
    simp [Tree.reference?, Tree.get?, Tree.entries?, hr, Tree.string?] at h
  · exact List.flatMap_eq_nil_iff

/-- A confined schema that finds nothing at some depth finds nothing at the one before. -/
theorem inspect_of_succ (hc : ∀ s ∈ schemas, confined root schemas s) (hs : s ∈ schemas)
    (h : inspect (n + 1) ⟨root, s⟩ t = []) : inspect n ⟨root, s⟩ t = [] := by
  induction n generalizing s t with
  | zero => rfl
  | succ n ih =>
    have hs := hc s hs
    cases s with
    | mapping es =>
      rw [confined] at hs
      cases hr : (Tree.mapping es).reference? with
      | some raw =>
        rw [inspect_reference hr] at h ⊢
        cases hp : target? root raw with
        | none => rfl
        | some p =>
          obtain ⟨root', s'⟩ := p
          obtain ⟨rfl, hm⟩ : root' = root ∧ s' ∈ schemas := by simpa [hr, hp] using hs
          rw [hp] at h
          exact ih hm h
      | none =>
        have hs : ∀ e ∈ es, e.1 ∉ contraryKeywords ∧ ∀ s ∈ inner e.1 e.2, s ∈ schemas := by
          simpa only [hr, List.all_eq_true, Bool.and_eq_true, decide_eq_true_iff] using hs
        rw [inspect_eq_nil hr] at h ⊢
        intro e he
        obtain ⟨hk, hi⟩ := hs e he
        exact checkKeyword_milder hk (fun s hs u => ih (hi s hs)) (h e he)
    | bool b => cases b <;> exact h
    | _ => exact h

theorem inspect_antitone (hc : ∀ s ∈ schemas, confined root schemas s) (hs : s ∈ schemas)
    {m n : Nat} (hmn : m ≤ n) (h : inspect n ⟨root, s⟩ t = []) : inspect m ⟨root, s⟩ t = [] := by
  induction hmn with
  | refl => exact h
  | step _ ih => exact ih (inspect_of_succ hc hs h)

end Grammar

namespace Grammar.Draft07

def schemas : List Tree :=
  schema :: definitions.map (·.2) ++ properties.map (·.2) ++
    [whole, named "schemaArray", named "nonNegativeInteger", named "simpleTypes",
      named "stringArray", typed "string", .bool true, .mapping [("default", .int 0)],
      .mapping [("format", .string "regex")],
      .mapping [("anyOf", .list [whole, named "stringArray"])],
      .mapping [("type", .string "array"), ("items", named "simpleTypes"), ("minItems", .int 1),
        ("uniqueItems", .bool true)]]

theorem confined_schemas : ∀ s ∈ schemas, confined schema schemas s := by decide +kernel

/-- The less deep the grammar looks, the less it finds. -/
theorem inspect_antitone {t : Tree} {m n : Nat} (hmn : m ≤ n)
    (h : inspect n ⟨schema, schema⟩ t = []) :
    inspect m ⟨schema, schema⟩ t = [] :=
  Grammar.inspect_antitone confined_schemas (by simp [schemas]) hmn h

end Grammar.Draft07

end Schemata
