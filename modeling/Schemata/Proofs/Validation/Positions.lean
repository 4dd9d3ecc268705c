import Mathlib.Logic.Basic
import Schemata.Reference.Reach
import Schemata.Validation.Positions

/-!
# Where schemas stand, as a relation

A schema holds the schemas directly inside it and what these hold; a reference holds nothing, as
its siblings carry no meaning. Being clean of undeclared names means that every required name is a
key of the node's `properties`.
-/

namespace Schemata

/-- The schemas directly inside a schema. -/
inductive Inside (es : Entries) : Tree → Prop
  | single {keyword t} (hk : keyword ∈ Keyword.single) (ht : Entries.get? es keyword = some t) :
    Inside es t
  | named {keyword children name t} (hk : keyword ∈ Keyword.named)
    (hc : Entries.get? es keyword = some (.mapping children)) (ht : (name, t) ∈ children) :
    Inside es t
  | listed {keyword items t} (hk : keyword ∈ Keyword.listed)
    (hi : Entries.get? es keyword = some (.list items)) (ht : t ∈ items) : Inside es t
  | item {t} (ht : Entries.get? es "items" = some t) (hl : ∀ items, t ≠ .list items) : Inside es t
  | items {items t} (hi : Entries.get? es "items" = some (.list items)) (ht : t ∈ items) :
    Inside es t

namespace Position

theorem exists_mem_ofItems (keyword : String) {items : List Tree} {t : Tree} :
    (∃ p ∈ ofItems keyword items, p.2 = t) ↔ t ∈ items := by
  constructor
  · rintro ⟨p, hp, rfl⟩
    obtain ⟨c, hc, rfl⟩ := List.mem_map.1 hp
    obtain ⟨hi, he⟩ := List.mem_zipIdx' hc
    exact he ▸ List.getElem_mem hi
  · intro h
    obtain ⟨i, hi, rfl⟩ := List.mem_iff_getElem.1 h
    refine ⟨_, List.mem_map.2 ⟨(items[i], i), ?_, rfl⟩, rfl⟩
    simp [List.mk_mem_zipIdx_iff_getElem?, hi]

theorem exists_mem_all {es : Entries} {t : Tree} : (∃ p ∈ all es, p.2 = t) ↔ Inside es t := by
  constructor
  · rintro ⟨p, hp, rfl⟩
    simp only [all, List.mem_append, List.mem_flatMap] at hp
    rcases hp with ((⟨k, hk, hp⟩ | ⟨k, hk, hp⟩) | ⟨k, hk, hp⟩) | hp
    · unfold ofKeyword at hp
      split at hp
      · rename_i hg
        cases List.mem_singleton.1 hp
        exact .single hk hg
      · cases hp
    · unfold ofNames at hp
      split at hp
      · rename_i hg
        obtain ⟨c, hc, rfl⟩ := List.mem_map.1 hp
        exact .named hk hg hc
      · cases hp
    · unfold ofList at hp
      split at hp
      · rename_i hg
        exact .listed hk hg ((exists_mem_ofItems _).1 ⟨p, hp, rfl⟩)
      · cases hp
    · unfold ofEither at hp
      split at hp
      · rename_i hg
        exact .items hg ((exists_mem_ofItems _).1 ⟨p, hp, rfl⟩)
      · rename_i t hl hg
        cases List.mem_singleton.1 hp
        exact .item hg fun items he => hl items he
      · cases hp
  · intro h
    simp only [all, List.mem_append, List.mem_flatMap]
    cases h with
    | @single keyword _ hk ht =>
      refine ⟨([.key keyword], t), .inl (.inl (.inl ⟨_, hk, ?_⟩)), rfl⟩
      rw [ofKeyword, ht]
      exact List.mem_singleton.2 rfl
    | @named keyword children name _ hk hc ht =>
      refine ⟨([.key keyword, .key name], t), .inl (.inl (.inr ⟨_, hk, ?_⟩)), rfl⟩
      rw [ofNames, hc]
      exact List.mem_map.2 ⟨_, ht, rfl⟩
    | @listed keyword items _ hk hi ht =>
      obtain ⟨p, hp, he⟩ := (exists_mem_ofItems keyword).2 ht
      refine ⟨p, .inl (.inr ⟨_, hk, ?_⟩), he⟩
      rw [ofList, hi]
      exact hp
    | item ht hl =>
      refine ⟨([.key "items"], t), .inr ?_, rfl⟩
      unfold ofEither
      split
      · rename_i items hi
        rw [ht] at hi
        exact absurd (Option.some.inj hi) (hl items)
      · rename_i u _ hu
        rw [ht] at hu
        cases hu
        exact List.mem_singleton.2 rfl
      · rename_i hn
        rw [ht] at hn
        cases hn
    | items hi ht =>
      obtain ⟨p, hp, he⟩ := (exists_mem_ofItems "items").2 ht
      refine ⟨p, .inr ?_, he⟩
      rw [ofEither, hi]
      exact hp

end Position

namespace Tree

/-- A schema and those that stand in it, beneath no reference. -/
inductive Holds : Tree → Tree → Prop
  | here (t) : Holds t t
  | inside {es t u} (hr : (mapping es).reference? = none) (ht : Inside es t) (hu : Holds t u) :
    Holds (mapping es) u

/-- A reference is written at a schema position of the tree. -/
def Refers (t : Tree) (raw : String) : Prop := ∃ u, t.Holds u ∧ u.reference? = some raw

def DeclaresRequired (u : Tree) : Prop :=
  ∀ names name, u.get? "required" = some (.list names) → .string name ∈ names →
    ∃ ps, u.get? "properties" = some (.mapping ps) ∧ name ∈ Entries.keys ps

def AllDeclared (t : Tree) : Prop := ∀ u, t.Holds u → u.reference? = none → u.DeclaresRequired

/-- Nothing is wrong with the tree itself: the grammar finds no violation, and every schema in it
declares what it requires. -/
def Clean (grammar : Tree → List Violation) (t : Tree) : Prop := grammar t = [] ∧ t.AllDeclared

variable {t u v : Tree} {es : Entries} {raw raw' : String}

theorem Holds.trans (h : t.Holds u) (h' : u.Holds v) : t.Holds v := by
  induction h with
  | here => exact h'
  | inside hr ht _ ih => exact .inside hr ht (ih h')

theorem refers_of_reference? (h : (mapping es).reference? = some raw) :
    (mapping es).Refers raw' ↔ raw' = raw := by
  constructor
  · rintro ⟨u, hu, hr⟩
    cases hu with
    | here =>
      rw [h] at hr
      exact (Option.some.inj hr).symm
    | inside hn =>
      rw [h] at hn
      cases hn
  · rintro rfl
    exact ⟨_, .here _, h⟩

theorem refers_of_inside (h : (mapping es).reference? = none) :
    (mapping es).Refers raw ↔ ∃ t, Inside es t ∧ t.Refers raw := by
  constructor
  · rintro ⟨u, hu, hr⟩
    cases hu with
    | here =>
      rw [h] at hr
      cases hr
    | inside _ ht hu => exact ⟨_, ht, u, hu, hr⟩
  · rintro ⟨t, ht, u, hu, hr⟩
    exact ⟨u, .inside h ht hu, hr⟩

theorem allDeclared_of_reference? (h : (mapping es).reference? = some raw) :
    (mapping es).AllDeclared := by
  intro u hu hr
  cases hu with
  | here =>
    rw [h] at hr
    cases hr
  | inside hn =>
    rw [h] at hn
    cases hn

theorem allDeclared_of_inside (h : (mapping es).reference? = none) : (mapping es).AllDeclared ↔
    (mapping es).DeclaresRequired ∧ ∀ t, Inside es t → t.AllDeclared := by
  constructor
  · intro ha
    exact ⟨ha _ (.here _) h, fun t ht u hu => ha u (.inside h ht hu)⟩
  · rintro ⟨hd, ha⟩ u hu hr
    cases hu with
    | here => exact hd
    | inside _ ht hu => exact ha _ ht u hu hr

theorem eq_of_holds_scalar (h : ∀ es, t ≠ mapping es) (hu : t.Holds u) : u = t := by
  cases hu with
  | here => rfl
  | inside => exact absurd rfl (h _)

theorem get?_of_scalar (h : ∀ es, t ≠ mapping es) (key : String) : t.get? key = none := by
  cases t with
  | mapping es => exact absurd rfl (h es)
  | _ => rfl

theorem not_refers (h : ∀ es, t ≠ mapping es) : ¬ t.Refers raw := by
  rintro ⟨u, hu, hr⟩
  rw [eq_of_holds_scalar h hu, reference?, get?_of_scalar h] at hr
  cases hr

theorem allDeclared_of_scalar (h : ∀ es, t ≠ mapping es) : t.AllDeclared := by
  intro u hu _ names name hn
  rw [eq_of_holds_scalar h hu, get?_of_scalar h] at hn
  cases hn

end Tree

theorem Entries.isSome_get? {es : Entries} {key : String} :
    (Entries.get? es key).isSome ↔ key ∈ Entries.keys es := by
  induction es with
  | nil => simp [Entries.get?, Entries.keys]
  | cons e es ih =>
    obtain ⟨k, u⟩ := e
    rw [Entries.get?, List.lookup_cons]
    by_cases hk : key = k
    · subst hk
      simp [Entries.keys]
    · have hne : (key == k) = false := by simpa using hk
      rw [hne]
      simp only [Entries.keys, List.map_cons, List.mem_cons, hk, false_or]
      exact ih

theorem declares_iff {es : Entries} {name : String} : declares es name ↔
    ∃ ps, Entries.get? es "properties" = some (.mapping ps) ∧ name ∈ Entries.keys ps := by
  unfold declares
  split
  · rename_i ps hp
    simp [hp, Entries.isSome_get?]
  · rename_i hp
    simp only [Bool.false_eq_true, false_iff]
    rintro ⟨ps, h, -⟩
    exact hp ps h

theorem undeclared_eq_nil {es : Entries} :
    undeclared es = [] ↔ (Tree.mapping es).DeclaresRequired := by
  have hget (key : String) : (Tree.mapping es).get? key = Entries.get? es key := rfl
  unfold undeclared
  split
  · rename_i names hn
    simp only [List.filterMap_eq_nil_iff, Tree.DeclaresRequired, hget, hn]
    constructor
    · intro h names' name he hm
      cases he
      obtain ⟨i, hi, hs⟩ := List.mem_iff_getElem.1 hm
      have := h (.string name, i) (by simp [List.mk_mem_zipIdx_iff_getElem?, hi, hs])
      simp only [ite_eq_left_iff, reduceCtorEq, imp_false, Bool.not_eq_true,
        Bool.not_eq_false] at this
      exact declares_iff.1 this
    · rintro h ⟨t, i⟩ hm
      cases t with
      | string name =>
        obtain ⟨hi, he⟩ := List.mem_zipIdx' hm
        have hd := declares_iff.2 (h names name rfl (he ▸ List.getElem_mem hi))
        simp [hd]
      | _ => rfl
  · rename_i hn
    simp only [Tree.DeclaresRequired, hget, true_iff]
    intro names name he
    exact absurd he (hn names)

end Schemata
