import Schemata.Proofs.File.Joining
import Schemata.Schema.Discovery

/-!
# What discovery finds

The path of a file beneath a directory tells its way from there, so that no file is found twice.
-/

namespace Schemata.Disk

open FilePath

variable {d : Disk} {root : FilePath} {suffix : String} {way way' dir name : DiskName}
  {ps : List FilePath}

theorem IsName.isPiece {s : String} (h : IsName s) : IsPiece s :=
  ⟨h.ne_empty, h.ne_point, h.ne_points, h.slash_notMem⟩

theorem stepsOf_pathBeneath (h : ∀ s ∈ way, IsPiece s) :
    stepsOf (pathBeneath root way).text.toList = stepsOf root.text.toList ++ way := by
  unfold pathBeneath
  induction way generalizing root with
  | nil => simp
  | cons s way ih =>
    have piece := h s List.mem_cons_self
    rw [List.foldl_cons, ih fun t ht => h t (List.mem_cons_of_mem s ht),
      stepsOf_join (not_isAbsolute_piece piece), stepsOf_piece piece, List.append_assoc,
      List.singleton_append]

theorem pathBeneath_inj (h : ∀ s ∈ way, IsPiece s) (h' : ∀ s ∈ way', IsPiece s)
    (he : pathBeneath root way = pathBeneath root way') : way = way' := by
  have hs : stepsOf (pathBeneath root way).text.toList = stepsOf root.text.toList ++ way :=
    stepsOf_pathBeneath h
  rw [he, stepsOf_pathBeneath h'] at hs
  exact (List.append_cancel_left hs).symm

theorem eq_append_of_beneath? (h : beneath? dir name = some way) : name = dir ++ way := by
  unfold beneath? at h
  split at h
  · rename_i hb
    rw [Bool.and_eq_true, List.isPrefixOf_iff_prefix] at hb
    cases h
    exact (List.prefix_iff_eq_append.1 hb.1).symm
  · cases h

theorem nodup_of_discover (hd : d.WellFormed) (hn : (d.items.map (·.1)).Nodup)
    (h : d.discover root suffix = .ok ps) : ps.Nodup := by
  unfold discover at h
  split at h
  · cases h
  · rename_i dir _
    cases h
    rw [(List.mergeSort_perm _ _).nodup_iff, List.Nodup, List.pairwise_map, List.pairwise_filterMap]
    refine (List.pairwise_map.1 hn).imp_of_mem fun {e e'} he he' hne way hw way' hw' hp => hne ?_
    have hw := eq_append_of_beneath? (Option.filter_eq_some_iff.1 hw).1
    have hw' := eq_append_of_beneath? (Option.filter_eq_some_iff.1 hw').1
    have piece (s : String) (hs : s ∈ way) : IsPiece s :=
      (hd.names e he s (by simp [hw, hs])).isPiece
    have piece' (s : String) (hs : s ∈ way') : IsPiece s :=
      (hd.names e' he' s (by simp [hw', hs])).isPiece
    rw [hw, hw', pathBeneath_inj piece piece' hp]
  · cases h

/-- Files that lie on the disk in the order of their paths are found in that order. -/
theorem discover_of_sorted (hf : d.find root true = .ok (dir, .directory))
    (hw : ps = (d.items.filterMap fun e => (beneath? dir e.1).filter fun way =>
      isFile e.2 && (way.getLast?.any fun name => suffix.toList.isSuffixOf name.toList)).map
        (pathBeneath root))
    (hs : ps.Pairwise fun p q => (p.compare q).isLE) : d.discover root suffix = .ok ps := by
  unfold discover
  rw [hf]
  dsimp only
  rw [← hw, List.mergeSort_of_pairwise hs]

end Schemata.Disk
