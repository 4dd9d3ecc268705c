import Mathlib.Data.List.Forall2
import Schemata.Proofs.File.Loading
import Schemata.Proofs.Tree.Reordering

/-!
# Files with the entries of their documents in another order

Two disks differ by the order of entries if they have the same directories, links and files, and
what the files hold, read in the formats of their names, differs by the order of entries. Paths lead
to the same places of both, and the documents there differ by the order of entries.
-/

namespace Schemata

/-- A document that can be read can be read in the other order. -/
def Tree.Reread {ε ε' : Type} (o : Except ε Tree) (o' : Except ε' Tree) : Prop :=
  ∀ t, o = .ok t → ∃ u, o' = .ok u ∧ t.Reorders u

/-- What stands under a name may hold a document with its entries in another order. -/
inductive DiskItem.Reorders (name : DiskName) : DiskItem → DiskItem → Prop
  | same (item : DiskItem) : Reorders name item item
  | text {s s' : String}
    (h : ∀ f, Format.ofPath (Disk.absolutePath name) = .ok f →
      Tree.Reread (f.parse s) (f.parse s') ∧ Tree.Reread (f.parse s') (f.parse s)) :
    Reorders name (.file (.text s)) (.file (.text s'))

namespace DiskItem.Reorders

variable {name : DiskName} {a b : DiskItem}

theorem symm (h : a.Reorders name b) : b.Reorders name a := by
  cases h with
  | same => exact .same _
  | text h => exact .text fun f hf => (h f hf).symm

end DiskItem.Reorders

structure Disk.Reorders (d d' : Disk) : Prop where
  current : d'.current = d.current
  items : d.items.Forall₂ (fun e e' => e'.1 = e.1 ∧ e.2.Reorders e.1 e'.2) d'.items

namespace Disk.Reorders

variable {d d' : Disk} {name dir : DiskName} {item : DiskItem} {p q : FilePath}

theorem symm (h : d.Reorders d') : d'.Reorders d :=
  ⟨h.current.symm, (h.items.imp fun _ _ ⟨hn, hi⟩ => ⟨hn.symm, hn ▸ hi.symm⟩).flip⟩

theorem item? (h : d.Reorders d') (hi : d.item? name = some item) :
    ∃ item', d'.item? name = some item' ∧ item.Reorders name item' := by
  unfold Disk.item? at hi ⊢
  split at hi
  · rename_i hn
    exact ⟨item, by rw [if_pos hn, hi], .same item⟩
  · rename_i hn
    rw [if_neg hn]
    clear hn
    have hitems := h.items
    revert hi
    generalize d.items = es at hitems
    generalize d'.items = fs at hitems
    induction hitems with
    | nil => simp
    | @cons e f es fs hef _ ih =>
      intro hi
      obtain ⟨k, a⟩ := e
      obtain ⟨l, b⟩ := f
      obtain ⟨hk, hab⟩ := hef
      have hk : l = k := hk
      subst hk
      rw [List.lookup_cons] at hi ⊢
      cases hn : name == l with
      | true =>
        rw [hn] at hi
        have hn : name = l := by simpa using hn
        exact ⟨b, rfl, hn ▸ Option.some.inj hi ▸ hab⟩
      | false =>
        rw [hn] at hi
        exact ih hi

theorem directory (h : d.Reorders d') (hi : d.item? name = some .directory) :
    d'.item? name = some .directory := by
  obtain ⟨item', hi', hr⟩ := h.item? hi
  cases hr
  exact hi'

theorem link (h : d.Reorders d') {target : String} (hi : d.item? name = some (.link target)) :
    d'.item? name = some (.link target) := by
  obtain ⟨item', hi', hr⟩ := h.item? hi
  cases hr
  exact hi'

theorem wellFormed (h : d.Reorders d') (hd : d.WellFormed) : d'.WellFormed where
  names e he := by
    obtain ⟨i, hi, rfl⟩ := List.mem_iff_getElem.1 he
    have hlen := h.items.length_eq
    have hn := (h.items.get (by omega) hi).1
    simp only [List.get_eq_getElem] at hn
    rw [hn]
    exact hd.names _ (List.getElem_mem _)
  current above ha := by
    rw [h.current] at ha
    exact h.directory (hd.current above ha)

/-- A walk comes to the same place. -/
theorem walk (h : d.Reorders d') {links : Nat} {todo : List String}
    (hw : d.walk true links dir todo = .ok (name, item)) :
    ∃ item', d'.walk true links dir todo = .ok (name, item') ∧ item.Reorders name item' := by
  fun_induction Disk.walk d true links dir todo with
  | case1 dir =>
    cases hw
    exact ⟨.directory, by rw [Disk.walk], .same _⟩
  | case2 links dir s rest hb ih =>
    rw [walk_blank (by simpa using hb)]
    exact ih hw
  | case3 links dir rest hb ih =>
    rw [walk_up]
    exact ih hw
  | case6 links dir s rest hb hu hl hi ih =>
    rw [walk_directory ⟨hb, hu, hl⟩ (h.directory hi)]
    exact ih hw
  | case7 links dir s rest hb hu hl content hi hr =>
    cases hw
    obtain ⟨item', hi', hr'⟩ := h.item? hi
    rw [List.isEmpty_iff.1 hr]
    have hfile : ∃ content', item' = .file content' := by
      cases hr' with
      | same => exact ⟨_, rfl⟩
      | text => exact ⟨_, rfl⟩
    obtain ⟨content', rfl⟩ := hfile
    exact ⟨_, walk_file ⟨hb, hu, hl⟩ hi', hr'⟩
  | case12 dir s rest hb hu hl target hi _ links hn ih =>
    rw [walk_link ⟨hb, hu, hl⟩ (h.link hi) (by simp) hn]
    exact ih hw
  | case9 links dir s rest _ _ _ target hi hl =>
    simp at hl
  | case4 | case5 | case8 | case10 | case11 => cases hw

theorem walk_start (h : d.Reorders d')
    (hw : d.walk true maxLinks (d.start p) (steps p.text) = .ok (name, item)) :
    ∃ item', d'.walk true maxLinks (d'.start p) (steps p.text) = .ok (name, item') ∧
      item.Reorders name item' := by
  have hs : d'.start p = d.start p := by rw [start, start, h.current]
  rw [hs]
  exact h.walk hw

theorem canonical (h : d.Reorders d') (hc : d.canonical p = .ok q) : d'.canonical p = .ok q := by
  obtain ⟨hz, he, name, item, hw, hb, rfl⟩ := canonical_eq_ok.1 hc
  obtain ⟨item', hw', -⟩ := h.walk_start hw
  exact canonical_eq_ok.2 ⟨hz, he, name, item', hw', hb, rfl⟩

theorem canonicalOrGiven (h : d.Reorders d') (p : FilePath) :
    d'.canonicalOrGiven p = d.canonicalOrGiven p := by
  unfold Disk.canonicalOrGiven
  cases hc : d.canonical p with
  | ok q => rw [h.canonical hc]
  | error e =>
    cases hc' : d'.canonical p with
    | error e => rfl
    | ok q =>
      rw [h.symm.canonical hc'] at hc
      cases hc

/-- The documents of canonical paths differ by the order of entries. -/
theorem load (h : d.Reorders d') (hd : d.WellFormed) (hc : d.canonical p = .ok q) :
    Tree.Reread (Tree.load d q) (Tree.load d' q) := by
  intro t ht
  obtain ⟨name, item, hw, hf, hq⟩ := find_canonical hd hc
  obtain ⟨name', item', hw', hf', -⟩ := find_canonical (h.wellFormed hd) (h.canonical hc)
  obtain ⟨item'', hw'', hr⟩ := h.walk_start hw
  rw [hw'] at hw''
  cases hw''
  obtain ⟨f, _, text, hfmt, hn, hparse⟩ := load_eq_ok.1 ht
  rw [hf] at hn
  cases hn
  cases hr with
  | same => exact ⟨t, load_eq_ok.2 ⟨f, _, text, hfmt, hf', hparse⟩, .refl t⟩
  | @text _ s' hs =>
    obtain ⟨u, hu, htu⟩ := (hs f (hq ▸ hfmt)).1 t hparse
    exact ⟨u, load_eq_ok.2 ⟨f, _, s', hfmt, hf', hu⟩, htu⟩

end Disk.Reorders

end Schemata
