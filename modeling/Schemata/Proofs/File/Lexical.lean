import Schemata.Proofs.File.Joining

/-!
# Disks without links

Where no link is met, a path leads where its text says: a name goes one directory down, two points
go one up. Steps that at no time have more ups behind them than downs stay beneath the directory
that they start from.
-/

namespace Schemata.Disk

open FilePath

variable {d : Disk} {dir way name : DiskName} {item : DiskItem} {followLast : Bool} {links : Nat}
  {todo : List String} {p q : FilePath}

def Linkless (d : Disk) : Prop := ∀ e ∈ d.items, ∀ target, e.2 ≠ .link target

theorem Linkless.item?_ne (hl : d.Linkless) (target : String) :
    d.item? name ≠ some (.link target) := by
  intro hi
  by_cases hn : name = []
  · rw [hn] at hi
    cases hi
  · exact hl _ (mem_items_of_item? hi hn) target rfl

/-- Where steps lead from a directory by what they say. -/
def climb : DiskName → List String → DiskName
  | dir, [] => dir
  | dir, s :: rest =>
    if s = "." || s = "" then climb dir rest
    else if s = ".." then climb dir.dropLast rest
    else climb (dir ++ [s]) rest

/-- The steps, taken so many directories beneath another one, never lead above that one. -/
def inward : Nat → List String → Bool
  | _, [] => true
  | depth, s :: rest =>
    if s = "." || s = "" then inward depth rest
    else if s = ".." then depth ≠ 0 && inward (depth - 1) rest
    else inward (depth + 1) rest

theorem climb_append (dir : DiskName) (before rest : List String) :
    climb dir (before ++ rest) = climb (climb dir before) rest := by
  fun_induction climb dir before with
  | case1 => rfl
  | case2 dir s before hb ih => rw [List.cons_append, climb, if_pos hb, ih]
  | case3 dir before hb ih => rw [List.cons_append, climb, if_neg hb, if_pos rfl, ih]
  | case4 dir s before hb hu ih => rw [List.cons_append, climb, if_neg hb, if_neg hu, ih]

/-- The name that a path spells, as if no link stood on its way. -/
def nameOf (d : Disk) (p : FilePath) : DiskName := climb (d.start p) (steps p.text)

theorem nameOf_join_absolute (p : FilePath) (h : q.isAbsolute) :
    d.nameOf (p.join q) = climb [] (steps q.text) := by
  rw [nameOf, join, if_pos h, start, if_pos h]

theorem nameOf_join_relative (p : FilePath) (h : ¬ q.isAbsolute) :
    d.nameOf (p.join q) = climb (d.nameOf p) (steps q.text) := by
  -- a slash at the end makes no difference here
  have slash : climb (d.start p) (steps p.text) = climb (d.start p) (stepsOf p.text.toList) := by
    rw [steps_eq, climb_append]
    split <;> rfl
  rw [nameOf, nameOf, start_join h, steps_join h, climb_append, slash]

theorem prefix_climb (h : inward way.length todo) : dir <+: climb (dir ++ way) todo := by
  induction todo generalizing way with
  | nil => exact List.prefix_append dir way
  | cons s rest ih =>
    rw [inward] at h
    rw [climb]
    split
    · rename_i hb
      rw [if_pos hb] at h
      exact ih h
    rename_i hb
    rw [if_neg hb] at h
    split
    · rename_i hu
      rw [if_pos hu, Bool.and_eq_true, decide_eq_true_iff] at h
      -- a step up takes back a step down that was made before
      have hn : way ≠ [] := fun hn => h.1 (by rw [hn]; rfl)
      rw [List.dropLast_append_of_ne_nil hn]
      exact ih (by rw [List.length_dropLast]; exact h.2)
    · rename_i hu
      rw [if_neg hu] at h
      rw [List.append_assoc]
      exact ih (by rwa [List.length_append])

/-- Without links, a walk that finds something ends where the steps say. -/
theorem eq_climb_of_walk (hl : d.Linkless)
    (h : d.walk followLast links dir todo = .ok (name, item)) : name = climb dir todo := by
  fun_induction walk d followLast links dir todo with
  | case1 dir =>
    cases h
    rfl
  | case2 links dir s rest hb ih =>
    rw [climb, if_pos hb]
    exact ih h
  | case3 links dir rest hb ih =>
    rw [climb, if_neg hb, if_pos rfl]
    exact ih h
  | case6 links dir s rest hb hu _ _ ih =>
    rw [climb, if_neg hb, if_neg hu]
    exact ih h
  | case7 links dir s rest hb hu _ content hi hr =>
    cases h
    rw [climb, if_neg hb, if_neg hu, List.isEmpty_iff.1 hr, climb]
  | case9 links dir s rest _ _ _ target hi => exact absurd hi (hl.item?_ne target)
  | case12 dir s rest _ _ _ target hi => exact absurd hi (hl.item?_ne target)
  | case4 | case5 | case8 | case10 | case11 => cases h

/-- Without links, a canonical path has the name that the path spells. -/
theorem canonical_linkless (hd : d.WellFormed) (hl : d.Linkless) (h : d.canonical p = .ok q) :
    q = absolutePath (d.nameOf p) ∧ ∀ s ∈ d.nameOf p, IsName s := by
  obtain ⟨-, -, name, item, hw, -, rfl⟩ := canonical_eq_ok.1 h
  have he : name = d.nameOf p := eq_climb_of_walk hl hw
  rw [← he]
  exact ⟨rfl, hd.isName_of_item? (reaches_of_start hd hw).item_eq⟩

theorem parts_absolutePath_prefix_iff (hd : ∀ s ∈ dir, IsName s) (hn : ∀ s ∈ name, IsName s) :
    (absolutePath dir).parts <+: (absolutePath name).parts ↔ dir <+: name := by
  rw [parts_absolutePath hd, parts_absolutePath hn, List.cons_prefix_cons]
  simp only [true_and]
  exact List.prefix_map_iff_of_injective fun _ _ h => PathPart.name.inj h

end Schemata.Disk
