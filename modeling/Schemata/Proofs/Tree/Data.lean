import Schemata.Proofs.Tree.Reordering
import Schemata.Proofs.Tree.Writing
import Schemata.Validation.Positions

/-!
# The data in a schema

Under some keywords a schema holds data: examples, defaults and the values that are admitted. Two
schemas differ only in their data if they are the same once the data is erased, in the schema itself
and in those that stand in it. What a validation looks at in a node is left by the erasure: whether
it is a reference, what it requires without declaring it, the schemas inside it, and where pointers
to the root and to the definitions lead.
-/

namespace Schemata

namespace Keyword

def data : List String := ["examples", "default", "const", "enum"]

/-- Keywords that may have a list whose items are schemas. A pointer can lead to the items of a list
of definitions. -/
def itemized : List String := "items" :: "definitions" :: listed

theorem notMem_data_of_named : ∀ keyword ∈ named, keyword ∉ data := by decide

theorem notMem_data_of_itemized : ∀ keyword ∈ itemized, keyword ∉ data := by decide

end Keyword

namespace Tree

mutual
/-- A schema with null for the data in it. -/
def withoutData : Tree → Tree
  | .mapping es => .mapping (schemaWithoutData es)
  | t => t
termination_by structural t => t

def schemaWithoutData : List (String × Tree) → List (String × Tree)
  | [] => []
  | (k, t) :: es => (k, valueWithoutData t k) :: schemaWithoutData es
termination_by structural es => es

/-- What a schema has under a keyword, without the data. -/
def valueWithoutData : Tree → String → Tree
  | .mapping es, k =>
    if k ∈ Keyword.data then .null
    else if k ∈ Keyword.named then .mapping (namedWithoutData es)
    else if k ∈ "items" :: Keyword.single then .mapping (schemaWithoutData es)
    else .mapping es
  | .list ts, k =>
    if k ∈ Keyword.data then .null
    else if k ∈ Keyword.itemized then .list (itemsWithoutData ts)
    else .list ts
  | t, k => if k ∈ Keyword.data then .null else t
termination_by structural t => t

def namedWithoutData : List (String × Tree) → List (String × Tree)
  | [] => []
  | (k, t) :: es => (k, t.withoutData) :: namedWithoutData es
termination_by structural es => es

def itemsWithoutData : List Tree → List Tree
  | [] => []
  | t :: ts => t.withoutData :: itemsWithoutData ts
termination_by structural ts => ts
end

variable {es fs : Entries} {t u : Tree} {key : String}

theorem schemaWithoutData_eq (es : Entries) :
    schemaWithoutData es = es.map fun e => (e.1, valueWithoutData e.2 e.1) := by
  induction es with
  | nil => rfl
  | cons e es ih => rw [schemaWithoutData, ih, List.map_cons]

theorem namedWithoutData_eq (es : Entries) :
    namedWithoutData es = es.map fun e => (e.1, e.2.withoutData) := by
  induction es with
  | nil => rfl
  | cons e es ih => rw [namedWithoutData, ih, List.map_cons]

theorem itemsWithoutData_eq (ts : List Tree) : itemsWithoutData ts = ts.map withoutData := by
  induction ts with
  | nil => rfl
  | cons t ts ih => rw [itemsWithoutData, ih, List.map_cons]

theorem get?_map (f : String → Tree → Tree) (es : Entries) (key : String) :
    Entries.get? (es.map fun e => (e.1, f e.1 e.2)) key = (Entries.get? es key).map (f key) := by
  induction es with
  | nil => rfl
  | cons e es ih =>
    rw [List.map_cons, Reorders.get?_cons, Reorders.get?_cons, ih]
    by_cases h : key = e.1
    · simp [h]
    · simp [h]

theorem get?_schemaWithoutData (es : Entries) (key : String) :
    Entries.get? (schemaWithoutData es) key =
      (Entries.get? es key).map fun t => valueWithoutData t key := by
  rw [schemaWithoutData_eq]
  exact get?_map (fun k t => valueWithoutData t k) es key

theorem get?_namedWithoutData (es : Entries) (key : String) :
    Entries.get? (namedWithoutData es) key = (Entries.get? es key).map withoutData := by
  rw [namedWithoutData_eq]
  exact get?_map (fun _ t => t.withoutData) es key

theorem valueWithoutData_plain (h : key ∉ Keyword.data ++ Keyword.named ++
      "items" :: Keyword.single ++ Keyword.itemized) (t : Tree) : valueWithoutData t key = t := by
  simp only [List.mem_append, not_or] at h
  obtain ⟨⟨⟨hd, hn⟩, hs⟩, hi⟩ := h
  cases t with
  | mapping es => rw [valueWithoutData, if_neg hd, if_neg hn, if_neg hs]
  | list ts => rw [valueWithoutData, if_neg hd, if_neg hi]
  | _ => exact if_neg hd

theorem valueWithoutData_single (h : key ∈ Keyword.single) (t : Tree) :
    valueWithoutData t key = t.withoutData := by
  have apart : ∀ k ∈ Keyword.single, k ∉ Keyword.data ∧ k ∉ Keyword.named ∧
      k ∉ Keyword.itemized := by decide
  obtain ⟨hd, hn, hi⟩ := apart key h
  cases t with
  | mapping es =>
    rw [valueWithoutData, if_neg hd, if_neg hn, if_pos (List.mem_cons_of_mem _ h), withoutData]
  | list ts =>
    rw [valueWithoutData, if_neg hd, if_neg hi]
    rfl
  | _ => exact if_neg hd

theorem valueWithoutData_named (h : key ∈ Keyword.named) (es : Entries) :
    valueWithoutData (mapping es) key = mapping (namedWithoutData es) := by
  rw [valueWithoutData, if_neg (Keyword.notMem_data_of_named key h), if_pos h]

theorem valueWithoutData_itemized (h : key ∈ Keyword.itemized) (ts : List Tree) :
    valueWithoutData (list ts) key = list (ts.map withoutData) := by
  rw [valueWithoutData, if_neg (Keyword.notMem_data_of_itemized key h), if_pos h,
    itemsWithoutData_eq]

theorem valueWithoutData_items (es : Entries) :
    valueWithoutData (mapping es) "items" = mapping (schemaWithoutData es) := by
  rw [valueWithoutData, if_neg (by decide), if_neg (by decide), if_pos (by decide)]

theorem exists_mapping_withoutData (h : key ∉ Keyword.data) (es : Entries) :
    ∃ fs, valueWithoutData (mapping es) key = mapping fs := by
  rw [valueWithoutData, if_neg h]
  split
  · exact ⟨_, rfl⟩
  split
  · exact ⟨_, rfl⟩
  · exact ⟨es, rfl⟩

theorem exists_list_withoutData (h : key ∉ Keyword.data) (ts : List Tree) :
    ∃ us, valueWithoutData (list ts) key = list us := by
  rw [valueWithoutData, if_neg h]
  split
  · exact ⟨_, rfl⟩
  · exact ⟨ts, rfl⟩

theorem valueWithoutData_scalar (h : key ∉ Keyword.data) (hm : t.entries? = none)
    (hl : t.items? = none) : valueWithoutData t key = t := by
  cases t with
  | mapping es => cases hm
  | list ts => cases hl
  | _ => exact if_neg h

theorem exists_of_withoutData_eq (h : (mapping es).withoutData = u.withoutData) :
    ∃ fs, u = mapping fs ∧ schemaWithoutData es = schemaWithoutData fs := by
  cases u with
  | mapping fs => exact ⟨fs, rfl, mapping.inj h⟩
  | _ => cases h

theorem reference?_withoutData (t : Tree) : t.withoutData.reference? = t.reference? := by
  cases t with
  | mapping es =>
    have hplain (t : Tree) : valueWithoutData t "$ref" = t :=
      valueWithoutData_plain (by decide) t
    simp only [withoutData, reference?, get?, entries?, Option.bind_some, get?_schemaWithoutData,
      hplain, Option.map_id']
  | _ => rfl

theorem reference?_congr (h : t.withoutData = u.withoutData) : t.reference? = u.reference? := by
  rw [← reference?_withoutData, h, reference?_withoutData]

theorem declares_schemaWithoutData (es : Entries) (name : String) :
    declares (schemaWithoutData es) name = declares es name := by
  unfold declares
  rw [get?_schemaWithoutData]
  cases h : Entries.get? es "properties" with
  | none => rfl
  | some t =>
    cases t with
    | mapping ps =>
      rw [Option.map_some, valueWithoutData_named (by decide)]
      simp only [get?_namedWithoutData, Option.isSome_map]
    | list ts =>
      have hlist : ∃ us, valueWithoutData (list ts) "properties" = list us :=
        exists_list_withoutData (by decide) ts
      obtain ⟨us, hus⟩ := hlist
      rw [Option.map_some, hus]
    | _ => rw [Option.map_some, valueWithoutData_scalar (by decide) rfl rfl]

theorem undeclared_schemaWithoutData (es : Entries) :
    undeclared (schemaWithoutData es) = undeclared es := by
  have hplain (t : Tree) : valueWithoutData t "required" = t :=
    valueWithoutData_plain (by decide) t
  unfold undeclared
  simp only [get?_schemaWithoutData, hplain, Option.map_id', declares_schemaWithoutData]

end Tree

namespace Position

def withoutData (p : Position) : Position := (p.1, p.2.withoutData)

variable {es : Entries} {keyword : String}

theorem ofKeyword_withoutData (h : keyword ∈ Keyword.single) (es : Entries) :
    ofKeyword (Tree.schemaWithoutData es) keyword = (ofKeyword es keyword).map withoutData := by
  unfold ofKeyword
  rw [Tree.get?_schemaWithoutData]
  cases Entries.get? es keyword with
  | none => rfl
  | some t => simp [Tree.valueWithoutData_single h, withoutData]

theorem ofNames_withoutData (h : keyword ∈ Keyword.named) (es : Entries) :
    ofNames (Tree.schemaWithoutData es) keyword = (ofNames es keyword).map withoutData := by
  have hdata := Keyword.notMem_data_of_named keyword h
  unfold ofNames
  rw [Tree.get?_schemaWithoutData]
  cases Entries.get? es keyword with
  | none => rfl
  | some t =>
    cases t with
    | mapping cs =>
      rw [Option.map_some, Tree.valueWithoutData_named h, Tree.namedWithoutData_eq]
      simp [Function.comp_def, withoutData]
    | list ts =>
      obtain ⟨us, hus⟩ := Tree.exists_list_withoutData hdata ts
      rw [Option.map_some, hus]
      rfl
    | _ =>
      rw [Option.map_some, Tree.valueWithoutData_scalar hdata rfl rfl]
      rfl

theorem ofItems_withoutData (keyword : String) (ts : List Tree) :
    ofItems keyword (ts.map Tree.withoutData) = (ofItems keyword ts).map withoutData := by
  simp [ofItems, List.zipIdx_map, Function.comp_def, withoutData]

theorem ofList_withoutData (h : keyword ∈ Keyword.listed) (es : Entries) :
    ofList (Tree.schemaWithoutData es) keyword = (ofList es keyword).map withoutData := by
  have hitemized : keyword ∈ Keyword.itemized :=
    List.mem_cons_of_mem _ (List.mem_cons_of_mem _ h)
  have hdata := Keyword.notMem_data_of_itemized keyword hitemized
  unfold ofList
  rw [Tree.get?_schemaWithoutData]
  cases Entries.get? es keyword with
  | none => rfl
  | some t =>
    cases t with
    | mapping cs =>
      obtain ⟨fs, hfs⟩ := Tree.exists_mapping_withoutData hdata cs
      rw [Option.map_some, hfs]
      rfl
    | list ts =>
      rw [Option.map_some, Tree.valueWithoutData_itemized hitemized]
      exact ofItems_withoutData keyword ts
    | _ =>
      rw [Option.map_some, Tree.valueWithoutData_scalar hdata rfl rfl]
      rfl

theorem ofEither_withoutData (es : Entries) :
    ofEither (Tree.schemaWithoutData es) "items" = (ofEither es "items").map withoutData := by
  have hdata : "items" ∉ Keyword.data := by decide
  unfold ofEither
  rw [Tree.get?_schemaWithoutData]
  cases Entries.get? es "items" with
  | none => rfl
  | some t =>
    cases t with
    | mapping cs =>
      rw [Option.map_some, Tree.valueWithoutData_items]
      rfl
    | list ts =>
      rw [Option.map_some, Tree.valueWithoutData_itemized List.mem_cons_self]
      exact ofItems_withoutData "items" ts
    | _ =>
      rw [Option.map_some, Tree.valueWithoutData_scalar hdata rfl rfl]
      rfl

/-- The schemas inside a schema without data are those inside it, without their data. -/
theorem all_withoutData (es : Entries) :
    all (Tree.schemaWithoutData es) = (all es).map withoutData := by
  simp only [all, List.map_append, List.map_flatMap]
  rw [List.flatMap_congr fun k hk => ofKeyword_withoutData hk es,
    List.flatMap_congr fun k hk => ofNames_withoutData hk es,
    List.flatMap_congr fun k hk => ofList_withoutData hk es, ofEither_withoutData es]

end Position

namespace Pointer

/-- The pointer names the root, or what stands under a name in the definitions of the root. -/
def IsLocal (pointer : String) : Prop :=
  pointer = "" ∨ ∃ name : String, '/' ∉ name.toList ∧ pointer = "/definitions/" ++ name

theorem tokens_definitions {name : String} (h : '/' ∉ name.toList) :
    tokens ("/definitions/" ++ name) = ["definitions", unescape name] := by
  have hspelled : "/definitions/" ++ name = ofSpelled ["definitions", name] := by
    simp [ofSpelled, ← String.toList_inj]
  have hunescape : unescape "definitions" = "definitions" := by decide
  rw [tokens_eq, hspelled, spelled_ofSpelled, List.map_cons, List.map_cons, List.map_nil, hunescape]
  intro s hs
  simp only [List.mem_cons, List.not_mem_nil, or_false] at hs
  rcases hs with rfl | rfl
  · decide
  · exact h

theorem descend_definitions (token : String) (t : Tree) :
    descend (Tree.valueWithoutData t "definitions") [token] =
      (descend t [token]).map Tree.withoutData := by
  cases t with
  | mapping cs =>
    rw [Tree.valueWithoutData_named (by decide)]
    simp only [descend, Tree.get?_namedWithoutData]
    cases Entries.get? cs token <;> rfl
  | list ts =>
    rw [Tree.valueWithoutData_itemized (by decide)]
    simp only [descend]
    cases index? token with
    | none => rfl
    | some i =>
      simp only [Option.bind_some, List.getElem?_map]
      cases ts[i]? <;> rfl
  | _ =>
    rw [Tree.valueWithoutData_scalar (by decide) rfl rfl]
    rfl

theorem resolve_withoutData {pointer : String} (h : IsLocal pointer) (t : Tree) :
    resolve t.withoutData pointer = (resolve t pointer).map Tree.withoutData := by
  rcases h with rfl | ⟨name, hname, rfl⟩
  · rfl
  · have hne : "/definitions/" ++ name ≠ "" := by
      intro he
      have hlist := congrArg String.toList he
      simp at hlist
    have hslash : ("/definitions/" ++ name).startsWith "/" := by
      rw [String.startsWith_string_iff]
      simp
    rw [resolve, resolve, if_neg hne, if_neg hne, if_pos hslash, if_pos hslash,
      tokens_definitions hname]
    cases t with
    | mapping es =>
      rw [Tree.withoutData, descend, descend, Tree.get?_schemaWithoutData]
      cases Entries.get? es "definitions" with
      | none => rfl
      | some u => exact descend_definitions (unescape name) u
    | list ts =>
      have hplain : (Tree.list ts).withoutData = .list ts := rfl
      have hindex : index? "definitions" = none := by decide
      rw [hplain, descend, hindex]
      rfl
    | _ => rfl

end Pointer

end Schemata
