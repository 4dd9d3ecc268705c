import Mathlib.Data.List.Nodup
import Schemata.Proofs.File.Beneath
import Schemata.Proofs.File.Loading
import Schemata.Proofs.File.Writing

/-!
# Writing to a disk once more

What has been made and written can be made and written again: directories that are there are left
alone, a path goes on leading to the file written under it, and a file that is there keeps its place
among the entries.
-/

namespace Schemata.Disk

open FilePath

variable {d d' : Disk} {dir name : DiskName} {names : List DiskName} {item : DiskItem}
  {content : Content} {followLast : Bool} {links fuel : Nat} {p : FilePath} {s : String}
  {todo before rest : List String}

def Distinct (d : Disk) : Prop := (d.items.map (·.1)).Nodup

theorem keys_setItem (known : d.items.any (·.1 = name)) :
    (d.setItem name item).items.map (·.1) = d.items.map (·.1) := by
  rw [setItem, if_pos known, List.map_map]
  refine List.map_congr_left fun e _ => ?_
  rw [Function.comp_apply]
  split
  · rename_i he
    exact he.symm
  · rfl

theorem distinct_setItem (h : d.Distinct) : (d.setItem name item).Distinct := by
  unfold Distinct at *
  by_cases known : d.items.any (·.1 = name)
  · rwa [keys_setItem known]
  · have hnew : name ∉ d.items.map (·.1) := by
      intro hm
      obtain ⟨e, he, hname⟩ := List.mem_map.1 hm
      exact known (List.any_eq_true.2 ⟨e, he, by simpa using hname⟩)
    rw [setItem, if_neg known, List.map_append, List.map_singleton, ← List.concat_eq_append]
    exact h.concat hnew

theorem items_eq {xs ys : List (DiskName × DiskItem)} (hk : xs.map (·.1) = ys.map (·.1))
    (hn : (xs.map (·.1)).Nodup) (hl : ∀ name, xs.lookup name = ys.lookup name) : xs = ys := by
  induction xs generalizing ys with
  | nil => exact (List.map_eq_nil_iff.1 hk.symm).symm
  | cons x xs ih =>
    obtain ⟨y, ys, rfl, hxy, hrest⟩ := List.map_eq_cons_iff.1 hk.symm
    obtain ⟨k, v⟩ := x
    obtain ⟨l, w⟩ := y
    cases hxy
    obtain ⟨hnew, hn⟩ := List.nodup_cons.1 hn
    have hv := hl k
    simp only [List.lookup_cons_self, Option.some.injEq] at hv
    subst hv
    refine congrArg _ (ih hrest.symm hn fun name => ?_)
    by_cases hname : name = k
    · have hnone {zs : List (DiskName × DiskItem)} (hz : k ∉ zs.map (·.1)) :
          zs.lookup k = none := by
        rw [List.lookup_eq_none_iff]
        intro e he
        rw [bne_iff_ne]
        rintro rfl
        exact hz (List.mem_map_of_mem he)
      rw [hname, hnone hnew, hnone (hrest.symm ▸ hnew)]
    · have hne : (name == k) = false := beq_eq_false_iff_ne.2 hname
      have htail := hl name
      rwa [List.lookup_cons, List.lookup_cons, hne] at htail

theorem isDirectory_grows (h : d.isDirectory p) (hg : d.Grows names d') : d'.isDirectory p := by
  obtain ⟨dir, hdir⟩ := isDirectory_iff.1 h
  obtain ⟨hz, he, hb, hw⟩ := find_eq_ok.1 hdir
  refine isDirectory_iff.2 ⟨dir, find_eq_ok.2 ⟨hz, he, hb, ?_⟩⟩
  rw [hg.start]
  exact hg.walk hw

theorem walk_blanks (h : ∀ s ∈ rest, s = "") :
    d.walk followLast links dir rest = .ok (dir, .directory) := by
  induction rest with
  | nil => rw [walk]
  | cons s rest ih =>
    rw [walk_blank (.inr (h s List.mem_cons_self))]
    exact ih fun t ht => h t (List.mem_cons_of_mem s ht)

theorem isDirectory_of_makeDirectory (h : d.makeDirectory p = .ok d') (he : p.text ≠ "") :
    d'.isDirectory p := by
  obtain ⟨hfind, before, last, blanks, dir, hsteps, hblanks, hempty, hpoint, hpoints, hwalk, hfree,
    hset⟩ := makeDirectory_eq_ok h
  have hg : d.Grows [] d' := grows_makeDirectory h
  unfold find at hfind
  split at hfind
  · cases hfind
  rename_i hz
  split at hfind
  · cases hfind
  rename_i hb
  -- the name is not too long, or else looking the path up would have said so
  have hstep : IsStep last := by
    refine ⟨by simp [hpoint, hempty], hpoints, fun hlong => ?_⟩
    obtain ⟨links, hgo⟩ := walk_append false hwalk rfl (List.cons_ne_nil last blanks)
    rw [hsteps] at hfind
    change d.walk false maxLinks (d.start p) (before ++ last :: blanks) = _ at hfind
    rw [hgo, walk_cons (by simp [hpoint, hempty]) hpoints, if_pos hlong] at hfind
    cases hfind
  have hitem : d'.item? (dir ++ [last]) = some .directory := by
    rw [hset, item?_setItem (by simp), if_pos rfl]
  obtain ⟨links, hgo⟩ := walk_append true (hg.walk hwalk) rfl (List.cons_ne_nil last blanks)
  refine isDirectory_iff.2 ⟨dir ++ [last], find_eq_ok.2 ⟨by simpa using hz, he, by omega, ?_⟩⟩
  rw [hg.start, hsteps, hgo, walk_directory hstep hitem]
  exact walk_blanks hblanks

theorem isDirectory_of_makeDirectoriesAt (h : makeDirectoriesAt fuel d p = (.ok (), d')) :
    p.text = "" ∨ d'.isDirectory p := by
  have found {e : DiskError} {d₁ : Disk}
      (hd : (if d₁.isDirectory p then .ok () else .error e, d₁) = (Except.ok (), d')) :
      d'.isDirectory p := by
    by_cases hdir : d₁.isDirectory p
    · rw [if_pos hdir] at hd
      cases hd
      exact hdir
    · rw [if_neg hdir] at hd
      cases hd
  unfold makeDirectoriesAt at h
  split at h
  · rename_i he
    exact .inl he
  rename_i he
  split at h
  · rename_i hm
    cases h
    exact .inr (isDirectory_of_makeDirectory hm he)
  · split at h
    · split at h
      · cases h
      · split at h
        · rename_i hm
          cases h
          exact .inr (isDirectory_of_makeDirectory hm he)
        · exact .inr (found h)
    · cases h
  · exact .inr (found h)

theorem makeDirectoriesAt_of_isDirectory (h : p.text = "" ∨ d.isDirectory p) :
    makeDirectoriesAt fuel d p = (.ok (), d) := by
  unfold makeDirectoriesAt
  split
  · rfl
  · rename_i he
    have hdir := h.resolve_left he
    obtain ⟨dir, hfind⟩ := isDirectory_iff.1 hdir
    obtain ⟨hz, -, hb, hw⟩ := find_eq_ok.1 hfind
    have hmake : d.makeDirectory p = .error .exists := by
      have hthere : ∃ x, d.find p false = .ok x := by
        obtain hw' | ⟨name, target, hw'⟩ := walk_not_followed hw
        · exact ⟨_, find_eq_ok.2 ⟨hz, he, hb, hw'⟩⟩
        · exact ⟨_, find_eq_ok.2 ⟨hz, he, hb, hw'⟩⟩
      obtain ⟨x, hx⟩ := hthere
      unfold makeDirectory
      rw [hx]
    rw [hmake]
    exact congrArg (·, d) (if_pos hdir)

/-- A path leads to the place where a file was written, whatever was written since. -/
theorem place_again (h : d.place links dir todo = .ok name) (hg : d.Grows names d')
    (hi : d'.item? name = some (.file content)) : d'.place links dir todo = .ok name := by
  fun_induction place d links dir todo with
  | case2 links dir s rest hb ih =>
    rw [place_blank (by simpa using hb)]
    exact ih h
  | case3 links dir rest hb ih =>
    rw [place_up]
    exact ih h
  | case6 links dir s rest hb hu hs hl _ hr =>
    cases h
    rw [place_cons hb hu, if_neg hs, if_neg hl, hi]
    exact if_pos hr
  | case8 links dir s rest hb hu hs hl hdir ih =>
    rw [place_cons hb hu, if_neg hs, if_neg hl, hg.directory hdir]
    exact ih h
  | case9 links dir s rest hb hu hs hl _ _ hr =>
    cases h
    rw [place_cons hb hu, if_neg hs, if_neg hl, hi]
    exact if_pos hr
  | case13 dir s rest hb hu hs hl target ht links hn ih =>
    rw [place_cons hb hu, if_neg hs, if_neg hl, hg.link_iff.2 ht]
    simp only [hn, if_false]
    exact ih h
  | case1 | case4 | case5 | case7 | case10 | case11 | case12 => cases h

theorem distinct_makeDirectory (hd : d.Distinct) (h : d.makeDirectory p = .ok d') :
    d'.Distinct := by
  obtain ⟨-, before, last, blanks, dir, -, -, -, -, -, -, -, rfl⟩ := makeDirectory_eq_ok h
  exact distinct_setItem hd

theorem distinct_makeDirectoriesAt (hd : d.Distinct) : (makeDirectoriesAt fuel d p).2.Distinct :=
  of_makeDirectoriesAt distinct_makeDirectory hd

end Schemata.Disk
