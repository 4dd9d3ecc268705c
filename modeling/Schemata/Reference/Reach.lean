import Schemata.Reference.Basic

/-!
# What a chain of references can reach

The nodes that a chain of references can visit are finitely many: its files are the file that it
starts in and the places of the disk, and its references are the first one and those written in the
documents at hand. Two chains of lemmas say that looking up a file ends at a place of the disk, and
that a node found by a pointer holds no reference that its document does not hold.
-/

namespace Schemata

def Tree.reference? (t : Tree) : Option String := (t.get? "$ref").bind Tree.string?

namespace Tree

mutual
/-- All references written in a tree. -/
def references : Tree → List String
  | list ts => referencesOfItems ts
  | mapping es => ((mapping es).reference?).toList ++ referencesOfEntries es
  | _ => []
termination_by structural t => t

def referencesOfItems : List Tree → List String
  | [] => []
  | t :: ts => t.references ++ referencesOfItems ts
termination_by structural ts => ts

def referencesOfEntries : List (String × Tree) → List String
  | [] => []
  | (_, t) :: es => t.references ++ referencesOfEntries es
termination_by structural es => es
end

theorem references_subset_items {t : Tree} {ts : List Tree} (h : t ∈ ts) :
    t.references ⊆ referencesOfItems ts := by
  induction ts with
  | nil => cases h
  | cons u us ih =>
    intro r hr
    rw [referencesOfItems, List.mem_append]
    cases h with
    | head => exact .inl hr
    | tail _ h => exact .inr (ih h hr)

theorem references_subset_entries {t : Tree} {key : String} {es : Entries} (h : (key, t) ∈ es) :
    t.references ⊆ referencesOfEntries es := by
  induction es with
  | nil => cases h
  | cons e es ih =>
    intro r hr
    obtain ⟨k, u⟩ := e
    rw [referencesOfEntries, List.mem_append]
    cases h with
    | head => exact .inl hr
    | tail _ h => exact .inr (ih h hr)

theorem mem_references_of_reference? {t : Tree} {raw : String} (h : t.reference? = some raw) :
    raw ∈ t.references := by
  cases t with
  | mapping es => simp [references, h]
  | _ => simp [reference?, get?, entries?] at h

end Tree

namespace Pointer

theorem references_descend {tokens : List String} :
    ∀ {t u : Tree}, descend t tokens = .ok u → u.references ⊆ t.references := by
  induction tokens with
  | nil =>
    intro t u h
    cases t <;> (simp only [descend] at h; cases h; exact fun _ h => h)
  | cons token rest ih =>
    intro t u h
    cases t with
    | list items =>
      simp only [descend] at h
      split at h
      · rename_i v hv
        obtain ⟨i, _, hi⟩ := Option.bind_eq_some_iff.1 hv
        exact List.Subset.trans (ih h) (Tree.references_subset_items (List.mem_of_getElem? hi))
      · cases h
    | mapping es =>
      simp only [descend] at h
      split at h
      · rename_i v hv
        intro r hr
        rw [Tree.references, List.mem_append]
        exact .inr (Tree.references_subset_entries (Entries.mem_of_get? hv) (ih h hr))
      · cases h
    | _ => simp [descend] at h

theorem references_resolve {t u : Tree} {pointer : String} (h : resolve t pointer = .ok u) :
    u.references ⊆ t.references := by
  unfold resolve at h
  split at h
  · cases h; exact fun _ h => h
  · split at h
    · exact references_descend h
    · cases h

end Pointer

namespace Disk

def beginnings : DiskName → List DiskName
  | [] => [[]]
  | x :: xs => [] :: (beginnings xs).map (x :: ·)

theorem mem_beginnings {p l : DiskName} : p ∈ beginnings l ↔ p <+: l := by
  induction l generalizing p with
  | nil => simp [beginnings]
  | cons x xs ih =>
    cases p with
    | nil => simp [beginnings]
    | cons y ys =>
      simp only [beginnings, List.mem_cons, List.mem_map, reduceCtorEq, false_or, ih,
        List.cons_prefix_cons, List.cons.injEq]
      exact ⟨fun ⟨_, hp, hx, hy⟩ => ⟨hx.symm, hy ▸ hp⟩, fun ⟨hx, hp⟩ => ⟨ys, hp, hx.symm, rfl⟩⟩

/-- The names that a lookup can end at: those of the items and of the current directory, and the
directories above them. -/
def places (d : Disk) : List DiskName := (d.current :: d.items.map (·.1)).flatMap beginnings

theorem mem_places {d : Disk} {name : DiskName} :
    name ∈ d.places ↔ ∃ full ∈ d.current :: d.items.map (·.1), name <+: full := by
  simp only [places, List.mem_flatMap, mem_beginnings]

theorem dropLast_mem_places {d : Disk} {name : DiskName} (h : name ∈ d.places) :
    name.dropLast ∈ d.places := by
  obtain ⟨full, hf, hp⟩ := mem_places.1 h
  exact mem_places.2 ⟨full, hf, (List.dropLast_prefix name).trans hp⟩

theorem nil_mem_places (d : Disk) : [] ∈ d.places :=
  mem_places.2 ⟨d.current, List.mem_cons_self, List.nil_prefix⟩

theorem current_mem_places (d : Disk) : d.current ∈ d.places :=
  mem_places.2 ⟨d.current, List.mem_cons_self, List.prefix_refl _⟩

theorem mem_places_of_item? {d : Disk} {name : DiskName} {item : DiskItem}
    (h : d.item? name = some item) : name ∈ d.places := by
  by_cases hn : name = []
  · subst hn
    exact d.nil_mem_places
  · exact mem_places.2 ⟨name, List.mem_cons_of_mem _
      (List.mem_map.2 ⟨_, mem_items_of_item? h hn, rfl⟩), List.prefix_refl _⟩

theorem walk_mem_places {d : Disk} {followLast : Bool} {links : Nat} {dir : DiskName}
    {todo : List String} {r : DiskName × DiskItem} (hd : dir ∈ d.places)
    (h : d.walk followLast links dir todo = .ok r) : r.1 ∈ d.places := by
  fun_induction walk d followLast links dir todo <;>
    grind [dropLast_mem_places, mem_places_of_item?, nil_mem_places]

theorem canonical_mem_places {d : Disk} {p q : FilePath} (h : d.canonical p = .ok q) :
    q ∈ d.places.map absolutePath := by
  unfold canonical at h
  split at h
  · cases h
  split at h
  · cases h
  split at h
  · rename_i name item hw
    split at h
    · cases h
    · cases h
      refine List.mem_map.2 ⟨name, walk_mem_places ?_ hw, rfl⟩
      split
      · exact d.nil_mem_places
      · exact d.current_mem_places
  · cases h

end Disk

end Schemata
