import Schemata.Page.Sections
import Schemata.Proofs.Schema.Labels

/-!
# What a page takes from a document

A page shows eleven keys of a document, and five keys of the definition of each property and of the
definitions of items inside it. A document without any other key there has the same page, and so has
one with the keys of its root in another order.
-/

namespace Schemata

namespace Keyword

def ofPage : List String :=
  ["title", "$id", "description", "properties", "required", "examples", "minimum", "maximum",
    "minLength", "maxLength", "pattern"]

def ofDefinition : List String := ["type", "enum", "$ref", "items", "description"]

end Keyword

namespace Entries

variable {es fs : Entries} {keywords : List String} {inner key : String} {f : Tree → Tree}

/-- The entries under some keywords, with what is made of the values under one of these. -/
def restrict (keywords : List String) (inner : String) (f : Tree → Tree) (es : Entries) : Entries :=
  (es.filter fun e => e.1 ∈ keywords).map fun e => (e.1, if e.1 = inner then f e.2 else e.2)

theorem get?_restrict (es : Entries) (hk : key ∈ keywords) :
    get? (restrict keywords inner f es) key =
      (get? es key).map fun t => if key = inner then f t else t := by
  rw [restrict]
  induction es with
  | nil => rfl
  | cons e es ih =>
    rw [List.filter_cons, Tree.Reorders.get?_cons]
    by_cases he : key = e.1
    · have hd : decide (e.1 ∈ keywords) = true := decide_eq_true (he ▸ hk)
      rw [if_pos hd, List.map_cons, Tree.Reorders.get?_cons, if_pos he, if_pos he, he,
        Option.map_some]
    · rw [if_neg he]
      split
      · rw [List.map_cons, Tree.Reorders.get?_cons, if_neg he, ih]
      · exact ih

theorem get?_perm (h : es.Perm fs) (hn : (keys es).Nodup) (key : String) :
    get? fs key = get? es key := by
  induction h with
  | nil => rfl
  | cons e _ ih =>
    rw [Tree.Reorders.get?_cons, Tree.Reorders.get?_cons, ih (List.nodup_cons.1 hn).2]
  | swap e f es =>
    have hne : f.1 ≠ e.1 := fun he => (List.nodup_cons.1 hn).1 (by simp [he])
    simp only [Tree.Reorders.get?_cons]
    by_cases he : key = e.1
    · rw [if_pos he, if_neg (he ▸ hne.symm), if_pos he]
    · rw [if_neg he, if_neg he]
  | trans h _ ih ih' =>
    have hn' : (keys _).Nodup := (h.map Prod.fst).nodup_iff.1 hn
    rw [ih' hn', ih hn]

end Entries

namespace Tree

mutual
/-- A definition with the keys that its row shows and no other one, and its items likewise. -/
def definitionShown : Tree → Tree
  | .mapping es => .mapping (entriesShown es)
  | t => t
termination_by structural t => t

def entriesShown : List (String × Tree) → List (String × Tree)
  | [] => []
  | (k, t) :: es =>
    if k ∈ Keyword.ofDefinition then
      (k, if k = "items" then t.definitionShown else t) :: entriesShown es
    else entriesShown es
termination_by structural es => es
end

def propertiesShown : Tree → Tree
  | .mapping ps => .mapping (ps.map fun p => (p.1, p.2.definitionShown))
  | t => t

def documentShown : Tree → Tree
  | .mapping es => .mapping (Entries.restrict Keyword.ofPage "properties" propertiesShown es)
  | t => t

/-- The keys of the mapping may have changed places. -/
inductive Rearranges : Tree → Tree → Prop
  | refl (t) : Rearranges t t
  | entries {es fs} (hn : (Entries.keys es).Nodup) (h : es.Perm fs) :
    Rearranges (mapping es) (mapping fs)

variable {t u : Tree} {key : String}

theorem Rearranges.get?_eq (h : t.Rearranges u) (key : String) : u.get? key = t.get? key := by
  cases h with
  | refl => rfl
  | entries hn h => exact Entries.get?_perm h hn key

theorem entriesShown_eq (es : Entries) :
    entriesShown es = Entries.restrict Keyword.ofDefinition "items" definitionShown es := by
  induction es with
  | nil => rfl
  | cons e es ih =>
    rw [entriesShown, ih, Entries.restrict, Entries.restrict, List.filter_cons]
    by_cases hk : e.1 ∈ Keyword.ofDefinition
    · have hd : decide (e.1 ∈ Keyword.ofDefinition) = true := decide_eq_true hk
      rw [if_pos hk, if_pos hd, List.map_cons]
    · have hd : ¬ decide (e.1 ∈ Keyword.ofDefinition) = true := by simpa using hk
      rw [if_neg hk, if_neg hd]

theorem get?_definitionShown (t : Tree) (hk : key ∈ Keyword.ofDefinition) :
    t.definitionShown.get? key =
      (t.get? key).map fun u => if key = "items" then u.definitionShown else u := by
  cases t with
  | mapping es =>
    rw [definitionShown, entriesShown_eq]
    exact Entries.get?_restrict es hk
  | _ => rfl

theorem get?_documentShown (t : Tree) (hk : key ∈ Keyword.ofPage) :
    t.documentShown.get? key =
      (t.get? key).map fun u => if key = "properties" then u.propertiesShown else u := by
  cases t with
  | mapping es => exact Entries.get?_restrict es hk
  | _ => rfl

theorem get?_items_definitionShown (t : Tree) :
    t.definitionShown.get? "items" = (t.get? "items").map definitionShown := by
  rw [get?_definitionShown t (by decide)]
  simp only [if_true]

theorem get?_properties_documentShown (t : Tree) :
    t.documentShown.get? "properties" = (t.get? "properties").map propertiesShown := by
  rw [get?_documentShown t (by decide)]
  simp only [if_true]

theorem get?_definitionShown_of_ne (t : Tree) (hk : key ∈ Keyword.ofDefinition)
    (hi : key ≠ "items") : t.definitionShown.get? key = t.get? key := by
  simp only [get?_definitionShown t hk, if_neg hi, Option.map_id']

theorem get?_documentShown_of_ne (t : Tree) (hk : key ∈ Keyword.ofPage)
    (hp : key ≠ "properties") : t.documentShown.get? key = t.get? key := by
  simp only [get?_documentShown t hk, if_neg hp, Option.map_id']

end Tree

theorem Shape.ofTree_definitionShown (t : Tree) : ofTree t.definitionShown = ofTree t := by
  induction hn : t.size using Nat.strongRecOn generalizing t with
  | ind n ih =>
    subst hn
    have hitems : (t.definitionShown.get? "items").bind ofItem = (t.get? "items").bind ofItem := by
      rw [Tree.get?_items_definitionShown, Option.bind_map]
      refine Option.bind_congr fun u hu => ?_
      cases u with
      | mapping es => exact congrArg some (ih _ (Tree.size_lt_of_get? hu) _ rfl)
      | _ => rfl
    rw [ofTree_eq, ofTree_eq t, hitems]
    rw [Tree.get?_definitionShown_of_ne t, Tree.get?_definitionShown_of_ne t,
      Tree.get?_definitionShown_of_ne t] <;> decide

namespace Schema

theorem propertyOf_definitionShown (required : List String) (name : String) (t : Tree) :
    propertyOf required name t.definitionShown = propertyOf required name t := by
  rw [propertyOf, propertyOf, Shape.ofTree_definitionShown,
    Tree.get?_definitionShown_of_ne t (by decide) (by decide)]

theorem map_propertyOf_propertiesShown (required : List String) (t : Tree) :
    (t.propertiesShown.entries?.getD []).map (fun e => propertyOf required e.1 e.2) =
      (t.entries?.getD []).map fun e => propertyOf required e.1 e.2 := by
  cases t with
  | mapping ps =>
    simp only [Tree.propertiesShown, Tree.entries?, Option.getD_some, List.map_map]
    exact List.map_congr_left fun e _ => propertyOf_definitionShown required e.1 e.2
  | _ => rfl

variable {s : Schema} {t : Tree}

/-- A page is told by what the document has under its keywords. -/
theorem page_congr (h : ∀ key ∈ Keyword.ofPage, key ≠ "properties" → t.get? key = s.root.get? key)
    (hp : t.get? "properties" = (s.root.get? "properties").map Tree.propertiesShown) :
    ({ s with root := t } : Schema).page = s.page := by
  have htext (key : String) (hk : key ∈ Keyword.ofPage) (hne : key ≠ "properties") :
      ({ s with root := t } : Schema).text? key = s.text? key := by
    rw [text?, text?, h key hk hne]
  have hid : ({ s with root := t } : Schema).id? = s.id? := htext "$id" (by decide) (by decide)
  have htitle : ({ s with root := t } : Schema).title = s.title := by
    rw [title, title, htext "title" (by decide) (by decide), hid]
  have hdescription : ({ s with root := t } : Schema).description? = s.description? :=
    htext "description" (by decide) (by decide)
  have hrequired : ({ s with root := t } : Schema).required = s.required := by
    rw [required, required, h "required" (by decide) (by decide)]
  have hproperties : ({ s with root := t } : Schema).properties? = s.properties? := by
    rw [properties?, properties?, hrequired, hp, Option.map_map]
    exact Option.map_congr fun u _ => map_propertyOf_propertiesShown s.required u
  have hexamples : ({ s with root := t } : Schema).examples? = s.examples? := by
    rw [examples?, examples?, h "examples" (by decide) (by decide)]
  have hconstraints : ({ s with root := t } : Schema).constraints = s.constraints := by
    rw [constraints, constraints]
    refine List.filterMap_congr fun kind _ => ?_
    rw [h kind.keyword (by cases kind <;> decide) (by cases kind <;> decide)]
  unfold page
  rw [htitle, hdescription, hid, hproperties, hexamples, hconstraints]

/-- Keys that are not recognized never reach the page. Without all other keys of the root, of the
definitions of properties and of the definitions of their items, a document has the same page, and
so it has with what is left at the root in any order. -/
theorem page_recognized (s : Schema) {t : Tree} (h : s.root.documentShown.Rearranges t) :
    ({ s with root := t } : Schema).page = s.page := by
  refine page_congr (fun key hk hne => ?_) ?_
  · rw [h.get?_eq, Tree.get?_documentShown_of_ne s.root hk hne]
  · rw [h.get?_eq, Tree.get?_properties_documentShown]

def Margin.schema : Schema :=
  .ofTree ⟨"o/c/a.json"⟩ ⟨"o"⟩ (.mapping
    [("$comment", .string "a"), ("pattern", .string "x"), ("type", .string "object"),
      ("properties", .mapping [("$comment", .mapping
        [("type", .string "array"), ("default", .list []), ("items", .mapping
          [("title", .string "b"), ("enum", .list [.mapping [("title", .null)]])])])]),
      ("title", .string "A")])

def Margin.shown : Tree :=
  .mapping
    [("title", .string "A"),
      ("properties", .mapping [("$comment", .mapping
        [("type", .string "array"), ("items", .mapping
          [("enum", .list [.mapping [("title", .null)]])])])]),
      ("pattern", .string "x")]

theorem Margin.same_page : schema.root.documentShown.Rearranges shown ∧ shown ≠ schema.root ∧
    ({ schema with root := shown } : Schema).page = schema.page := by
  have h : schema.root.documentShown.Rearranges shown :=
    .entries (by decide) (by decide)
  exact ⟨h, by decide, page_recognized schema h⟩

end Schema

end Schemata
