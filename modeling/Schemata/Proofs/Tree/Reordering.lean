import Mathlib.Data.List.Basic
import Schemata.Proofs.Validation.Positions

/-!
# Other orders of the entries of a tree

Two trees differ by the order of entries if neighbours with different keys have changed places,
anywhere in the tree and any number of times. Looking up keys and indices leads to trees that
differ by the order of entries again, and so do pointers and the ways to the schemas in a tree.
-/

namespace Schemata

namespace Tree

/-- The second tree is the first one with the entries of mappings in another order. -/
inductive Reorders : Tree → Tree → Prop
  | refl (t) : Reorders t t
  | swap {before after k l t u} (h : k ≠ l) :
    Reorders (mapping (before ++ (k, t) :: (l, u) :: after))
      (mapping (before ++ (l, u) :: (k, t) :: after))
  | entry {before after k t u} (h : Reorders t u) :
    Reorders (mapping (before ++ (k, t) :: after)) (mapping (before ++ (k, u) :: after))
  | item {before after t u} (h : Reorders t u) :
    Reorders (list (before ++ t :: after)) (list (before ++ u :: after))
  | trans {t u v} (h : Reorders t u) (h' : Reorders u v) : Reorders t v

namespace Reorders

variable {t u v : Tree} {es fs : Entries} {ts us : List Tree} {key : String}

theorem symm (h : t.Reorders u) : u.Reorders t := by
  induction h with
  | refl t => exact .refl t
  | swap h => exact .swap h.symm
  | entry _ ih => exact .entry ih
  | item _ ih => exact .item ih
  | trans _ _ ih ih' => exact .trans ih' ih

/-- Any other order of entries with different keys is one. -/
theorem of_perm (h : es.Perm fs) (hn : (Entries.keys es).Nodup) :
    (mapping es).Reorders (mapping fs) := by
  suffices ∀ before : Entries, (mapping (before ++ es)).Reorders (mapping (before ++ fs)) from
    this []
  induction h with
  | nil => exact fun before => .refl _
  | cons e _ ih =>
    intro before
    simpa using ih (List.nodup_cons.1 hn).2 (before ++ [e])
  | swap e f es =>
    intro before
    have : f.1 ≠ e.1 := fun he => (List.nodup_cons.1 hn).1 (by simp [he])
    exact .swap this
  | trans h _ ih ih' =>
    intro before
    have hn' : (Entries.keys _).Nodup := (h.map Prod.fst).nodup_iff.1 hn
    exact .trans (ih hn before) (ih' hn' before)

theorem get?_append (es fs : Entries) (key : String) :
    Entries.get? (es ++ fs) key = (Entries.get? es key).or (Entries.get? fs key) :=
  List.lookup_append

theorem get?_cons {e : String × Tree} (es : Entries) (key : String) :
    Entries.get? (e :: es) key = if key = e.1 then some e.2 else Entries.get? es key := by
  rw [Entries.get?, List.lookup_cons]
  by_cases h : key = e.1
  · simp [h]
  · have hne : (key == e.1) = false := by simpa using h
    simp [hne, h, Entries.get?]

theorem get? (h : t.Reorders u) (ht : t.get? key = some v) :
    ∃ v', u.get? key = some v' ∧ v.Reorders v' := by
  induction h generalizing v with
  | refl => exact ⟨v, ht, .refl v⟩
  | @swap before after k l t u hne =>
    refine ⟨v, ?_, .refl v⟩
    rw [← ht]
    simp only [Tree.get?, entries?, Option.bind_some, get?_append, get?_cons]
    by_cases hk : key = k
    · have hl : key ≠ l := hk ▸ hne
      simp [hk, hne]
    · simp [hk]
  | @entry before after k t u h =>
    simp only [Tree.get?, entries?, Option.bind_some, get?_append, get?_cons] at ht ⊢
    cases hb : Entries.get? before key with
    | some w =>
      rw [hb] at ht
      exact ⟨v, ht, .refl v⟩
    | none =>
      rw [hb, Option.none_or] at ht
      rw [Option.none_or]
      by_cases hk : key = k
      · rw [if_pos hk, Option.some.injEq] at ht
        exact ⟨u, if_pos hk, ht ▸ h⟩
      · rw [if_neg hk] at ht
        exact ⟨v, (if_neg hk).trans ht, .refl v⟩
  | item => cases ht
  | trans _ _ ih ih' =>
    obtain ⟨w, hw, hvw⟩ := ih ht
    obtain ⟨w', hw', hww'⟩ := ih' hw
    exact ⟨w', hw', hvw.trans hww'⟩

theorem exists_entries (h : (mapping es).Reorders u) : ∃ fs, u = mapping fs ∧
    ∀ k v, (k, v) ∈ es → ∃ v', (k, v') ∈ fs ∧ v.Reorders v' := by
  generalize he : mapping es = t at h
  induction h generalizing es with
  | refl => exact ⟨es, he.symm, fun k v hv => ⟨v, hv, .refl v⟩⟩
  | swap =>
    cases he
    refine ⟨_, rfl, fun k v hv => ⟨v, ?_, .refl v⟩⟩
    simp only [List.mem_append, List.mem_cons] at hv ⊢
    tauto
  | @entry before after k t u h =>
    cases he
    refine ⟨_, rfl, fun l v hv => ?_⟩
    simp only [List.mem_append, List.mem_cons] at hv ⊢
    rcases hv with hv | hv | hv
    · exact ⟨v, .inl hv, .refl v⟩
    · cases hv
      exact ⟨u, .inr (.inl rfl), h⟩
    · exact ⟨v, .inr (.inr hv), .refl v⟩
  | item => cases he
  | trans _ _ ih ih' =>
    obtain ⟨fs, rfl, hfs⟩ := ih he
    obtain ⟨gs, rfl, hgs⟩ := ih' rfl
    refine ⟨gs, rfl, fun k v hv => ?_⟩
    obtain ⟨w, hw, hvw⟩ := hfs k v hv
    obtain ⟨w', hw', hww'⟩ := hgs k w hw
    exact ⟨w', hw', hvw.trans hww'⟩

theorem exists_items (h : (list ts).Reorders u) : ∃ us, u = list us ∧
    ∀ (i : Nat) (v : Tree), ts[i]? = some v → ∃ v', us[i]? = some v' ∧ v.Reorders v' := by
  generalize he : list ts = t at h
  induction h generalizing ts with
  | refl => exact ⟨ts, he.symm, fun i v hv => ⟨v, hv, .refl v⟩⟩
  | swap | entry => cases he
  | @item before after t u h =>
    cases he
    refine ⟨_, rfl, fun i v hv => ?_⟩
    rcases Nat.lt_trichotomy i before.length with hi | rfl | hi
    · rw [List.getElem?_append_left hi] at hv ⊢
      exact ⟨v, hv, .refl v⟩
    · simp only [List.getElem?_append_right (Nat.le_refl _), Nat.sub_self,
        List.getElem?_cons_zero, Option.some.injEq] at hv ⊢
      exact ⟨u, rfl, hv ▸ h⟩
    · rw [List.getElem?_append_right (Nat.le_of_lt hi)] at hv ⊢
      obtain ⟨j, hj⟩ : ∃ j, i - before.length = j + 1 := ⟨i - before.length - 1, by omega⟩
      rw [hj, List.getElem?_cons_succ] at hv ⊢
      exact ⟨v, hv, .refl v⟩
  | trans _ _ ih ih' =>
    obtain ⟨us, rfl, hus⟩ := ih he
    obtain ⟨vs, rfl, hvs⟩ := ih' rfl
    refine ⟨vs, rfl, fun i v hv => ?_⟩
    obtain ⟨w, hw, hvw⟩ := hus i v hv
    obtain ⟨w', hw', hww'⟩ := hvs i w hw
    exact ⟨w', hw', hvw.trans hww'⟩

theorem mem_items (h : (list ts).Reorders (list us)) (hv : v ∈ ts) : ∃ v' ∈ us, v.Reorders v' := by
  obtain ⟨_, he, hi⟩ := h.exists_items
  cases he
  obtain ⟨i, hv⟩ := List.mem_iff_getElem?.1 hv
  obtain ⟨v', hv', hvv'⟩ := hi i v hv
  exact ⟨v', List.mem_of_getElem? hv', hvv'⟩

theorem string?_eq (h : t.Reorders u) : u.string? = t.string? := by
  induction h with
  | trans _ _ ih ih' => exact ih'.trans ih
  | _ => rfl

theorem eq_string {s : String} (h : (string s).Reorders u) : u = string s := by
  have := h.string?_eq
  cases u <;> cases this
  rfl

theorem reference?_eq (h : t.Reorders u) : u.reference? = t.reference? := by
  have keep {t u : Tree} {raw : String} (h : t.Reorders u) (ht : t.reference? = some raw) :
      u.reference? = some raw := by
    obtain ⟨v, hv, hs⟩ := Option.bind_eq_some_iff.1 ht
    obtain ⟨v', hv', hvv'⟩ := h.get? hv
    exact Option.bind_eq_some_iff.2 ⟨v', hv', hvv'.string?_eq.trans hs⟩
  cases ht : t.reference? with
  | some raw => exact keep h ht
  | none =>
    cases hu : u.reference? with
    | none => rfl
    | some raw =>
      rw [keep h.symm hu] at ht
      cases ht

theorem not_list (h : t.Reorders u) (ht : ∀ ts, t ≠ list ts) (ts : List Tree) : u ≠ list ts := by
  rintro rfl
  obtain ⟨us, rfl, -⟩ := h.symm.exists_items
  exact ht us rfl

theorem inside (h : (mapping es).Reorders (mapping fs)) (ht : Inside es t) :
    ∃ u, Inside fs u ∧ t.Reorders u := by
  cases ht with
  | single hk ht =>
    obtain ⟨u, hu, htu⟩ := h.get? ht
    exact ⟨u, .single hk hu, htu⟩
  | named hk hc ht =>
    obtain ⟨w, hw, hcw⟩ := h.get? hc
    obtain ⟨children, rfl, hchildren⟩ := hcw.exists_entries
    obtain ⟨u, hu, htu⟩ := hchildren _ _ ht
    exact ⟨u, .named hk hw hu, htu⟩
  | listed hk hi ht =>
    obtain ⟨w, hw, hiw⟩ := h.get? hi
    obtain ⟨us, rfl, -⟩ := hiw.exists_items
    obtain ⟨u, hu, htu⟩ := hiw.mem_items ht
    exact ⟨u, .listed hk hw hu, htu⟩
  | item ht hl =>
    obtain ⟨u, hu, htu⟩ := h.get? ht
    exact ⟨u, .item hu (htu.not_list hl), htu⟩
  | items hi ht =>
    obtain ⟨w, hw, hiw⟩ := h.get? hi
    obtain ⟨us, rfl, -⟩ := hiw.exists_items
    obtain ⟨u, hu, htu⟩ := hiw.mem_items ht
    exact ⟨u, .items hw hu, htu⟩

theorem holds (h : t.Reorders u) (hv : t.Holds v) : ∃ v', u.Holds v' ∧ v.Reorders v' := by
  induction hv generalizing u with
  | here => exact ⟨u, .here u, h⟩
  | inside hr ht _ ih =>
    obtain ⟨fs, rfl, -⟩ := h.exists_entries
    obtain ⟨w, hw, htw⟩ := h.inside ht
    obtain ⟨v', hv', hvv'⟩ := ih htw
    exact ⟨v', .inside (h.reference?_eq.trans hr) hw hv', hvv'⟩

theorem refers {raw : String} (h : t.Reorders u) (ht : t.Refers raw) : u.Refers raw := by
  obtain ⟨v, hv, hr⟩ := ht
  obtain ⟨v', hv', hvv'⟩ := h.holds hv
  exact ⟨v', hv', hvv'.reference?_eq.trans hr⟩

theorem declaresRequired (h : t.Reorders u) (ht : t.DeclaresRequired) : u.DeclaresRequired := by
  intro names name hr hn
  obtain ⟨w, hw, hrw⟩ := h.symm.get? hr
  obtain ⟨names', rfl, -⟩ := hrw.exists_items
  obtain ⟨n, hn', hnn⟩ := hrw.mem_items hn
  rw [hnn.eq_string] at hn'
  obtain ⟨ps, hp, hk⟩ := ht names' name hw hn'
  obtain ⟨w, hw, hpw⟩ := h.get? hp
  obtain ⟨ps', rfl, hps⟩ := hpw.exists_entries
  obtain ⟨e, he, rfl⟩ := List.mem_map.1 hk
  obtain ⟨v', hv', -⟩ := hps e.1 e.2 he
  exact ⟨ps', hw, List.mem_map.2 ⟨(e.1, v'), hv', rfl⟩⟩

theorem allDeclared (h : t.Reorders u) (ht : t.AllDeclared) : u.AllDeclared := by
  intro v hv hr
  obtain ⟨v', hv', hvv'⟩ := h.symm.holds hv
  exact hvv'.symm.declaresRequired (ht v' hv' (hvv'.reference?_eq.trans hr))

theorem descend {tokens : List String} (h : t.Reorders u) (ht : Pointer.descend t tokens = .ok v) :
    ∃ v', Pointer.descend u tokens = .ok v' ∧ v.Reorders v' := by
  induction tokens generalizing t u with
  | nil =>
    have : t = v := by cases t <;> exact Except.ok.inj ht
    refine ⟨u, ?_, this ▸ h⟩
    cases u <;> rfl
  | cons token rest ih =>
    cases t with
    | mapping es =>
      obtain ⟨fs, rfl, -⟩ := h.exists_entries
      rw [Pointer.descend] at ht ⊢
      cases hw : Entries.get? es token with
      | none =>
        rw [hw] at ht
        cases ht
      | some w =>
        obtain ⟨w', hw', hww'⟩ := h.get? hw
        rw [hw] at ht
        rw [show Entries.get? fs token = some w' from hw']
        exact ih hww' ht
    | list ts =>
      obtain ⟨us, rfl, hus⟩ := h.exists_items
      rw [Pointer.descend] at ht ⊢
      cases hw : (index? token).bind (ts[·]?) with
      | none =>
        rw [hw] at ht
        cases ht
      | some w =>
        obtain ⟨i, hi, hw'⟩ := Option.bind_eq_some_iff.1 hw
        obtain ⟨w', hu, hww'⟩ := hus i w hw'
        rw [hw] at ht
        rw [show (index? token).bind (us[·]?) = some w' by rw [hi]; exact hu]
        exact ih hww' ht
    | _ => cases ht

theorem resolve {pointer : String} (h : t.Reorders u) (ht : Pointer.resolve t pointer = .ok v) :
    ∃ v', Pointer.resolve u pointer = .ok v' ∧ v.Reorders v' := by
  unfold Pointer.resolve at ht ⊢
  split at ht
  · rename_i he
    exact ⟨u, if_pos he, Except.ok.inj ht ▸ h⟩
  · rename_i he
    rw [if_neg he]
    split at ht
    · rename_i hs
      rw [if_pos hs]
      exact h.descend ht
    · cases ht

end Reorders

end Tree

end Schemata
