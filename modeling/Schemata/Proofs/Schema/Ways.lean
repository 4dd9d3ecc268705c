import Schemata.Proofs.File.Beneath
import Schemata.Proofs.File.Loading
import Schemata.Proofs.Schema.Discovery

/-!
# What is beneath a directory

Discovery goes by the files beneath a directory alone: their ways, put in order, tell the paths that
are found. So two directories with the same files beneath them have the same ways, and the documents
of these are the same.
-/

namespace Schemata.Disk

open FilePath

variable {d d' : Disk} {root root' : FilePath} {suffix : String} {way dir : DiskName}
  {ways ways' : List DiskName} {ps : List FilePath} {content : Content} {item : DiskItem}

/-- What also holds of the files of every machine: nothing is there twice, and whatever is there
lies in directories that are. -/
structure Grounded (d : Disk) : Prop extends d.WellFormed where
  distinct : (d.items.map (·.1)).Nodup
  stands : ∀ e ∈ d.items, d.Stands e.1.dropLast

instance (d : Disk) : Decidable d.Grounded :=
  decidable_of_iff (d.WellFormed ∧ (d.items.map (·.1)).Nodup ∧ ∀ e ∈ d.items, d.Stands e.1.dropLast)
    ⟨fun ⟨h₁, h₂, h₃⟩ => ⟨h₁, h₂, h₃⟩, fun h => ⟨h.toWellFormed, h.distinct, h.stands⟩⟩

theorem Grounded.reaches {name : DiskName} (hd : d.Grounded) (hi : d.item? name = some item) :
    d.Reaches (name, item) := by
  by_cases hn : name = []
  · subst hn
    exact ⟨hi, stands_nil d⟩
  · exact ⟨hi, hd.stands _ (mem_items_of_item? hi hn)⟩

/-- The file is at the end of the way from the directory. -/
def HasBeneath (d : Disk) (root : FilePath) (way : DiskName) (content : Content) : Prop :=
  ∃ dir, d.find root true = .ok (dir, .directory) ∧ d.item? (dir ++ way) = some (.file content)

theorem hasBeneath_iff (hroot : d.find root true = .ok (dir, .directory)) :
    d.HasBeneath root way content ↔ d.item? (dir ++ way) = some (.file content) := by
  refine ⟨?_, fun hi => ⟨dir, hroot, hi⟩⟩
  rintro ⟨dir', hroot', hi⟩
  rw [hroot] at hroot'
  cases hroot'
  exact hi

def EndsIn (suffix : String) (way : DiskName) : Prop :=
  (way.getLast?.any fun name => suffix.toList.isSuffixOf name.toList) = true

instance (suffix : String) (way : DiskName) : Decidable (EndsIn suffix way) :=
  inferInstanceAs (Decidable (_ = true))

theorem EndsIn.ne_nil (h : EndsIn suffix way) : way ≠ [] := by
  rintro rfl
  cases h

theorem HasBeneath.isName (hd : d.Grounded) (h : d.HasBeneath root way content) :
    ∀ s ∈ way, IsName s := by
  obtain ⟨dir, -, hi⟩ := h
  exact fun s hs => hd.isName_of_item? hi s (List.mem_append_right dir hs)

theorem HasBeneath.isWay (hd : d.Grounded) (h : d.HasBeneath root way content) (hn : way ≠ []) :
    IsWay way :=
  ⟨hn, fun s hs => (h.isName hd s hs).isPiece⟩

/-- The ways to the files that are found, in order. -/
structure Finds (d : Disk) (root : FilePath) (suffix : String) (ways : List DiskName) : Prop where
  mem_iff : ∀ way, way ∈ ways ↔ EndsIn suffix way ∧ ∃ content, d.HasBeneath root way content
  nodup : ways.Nodup
  sorted : ways.Pairwise fun way way' => (Ord.compare way way').isLE

/-- The ways are told by the files that there are. -/
theorem Finds.unique (h : d.Finds root suffix ways) (h' : d'.Finds root' suffix ways')
    (hsame : ∀ way, EndsIn suffix way →
      ((∃ content, d.HasBeneath root way content) ↔ ∃ content, d'.HasBeneath root' way content)) :
    ways = ways' := by
  have hperm : ways.Perm ways' := by
    rw [List.perm_ext_iff_of_nodup h.nodup h'.nodup]
    intro way
    rw [h.mem_iff, h'.mem_iff]
    exact and_congr_right (hsame way)
  refine hperm.eq_of_pairwise (fun way way' _ _ hle hge => ?_) h.sorted h'.sorted
  exact Std.LawfulEqCmp.eq_of_compare (Std.OrientedCmp.isLE_antisymm hle hge)

theorem beneath?_eq_some {name : DiskName} :
    beneath? dir name = some way ↔ name = dir ++ way ∧ way ≠ [] := by
  unfold beneath?
  rw [Option.ite_none_right_eq_some, Bool.and_eq_true, List.isPrefixOf_iff_prefix,
    decide_eq_true_iff, Option.some.injEq]
  constructor
  · rintro ⟨⟨⟨rest, rfl⟩, hl⟩, rfl⟩
    rw [List.drop_left]
    refine ⟨rfl, ?_⟩
    rintro rfl
    simp at hl
  · rintro ⟨rfl, hn⟩
    have hpos := List.length_pos_iff.2 hn
    refine ⟨⟨List.prefix_append dir way, ?_⟩, List.drop_left⟩
    rw [List.length_append]
    omega

theorem isFile_iff : isFile item = true ↔ ∃ content, item = .file content := by
  cases item <;> simp [isFile]

theorem item?_of_mem {e : DiskName × DiskItem} (hd : (d.items.map (·.1)).Nodup) (he : e ∈ d.items)
    (hn : e.1 ≠ []) : d.item? e.1 = some e.2 := by
  rw [item?, if_neg hn]
  generalize d.items = items at hd he
  induction items with
  | nil => cases he
  | cons e' items ih =>
    obtain ⟨name, item⟩ := e'
    obtain ⟨hnew, hrest⟩ := List.nodup_cons.1 hd
    rcases List.mem_cons.1 he with rfl | he
    · simp
    · have hne : (e.1 == name) = false := by
        rw [beq_eq_false_iff_ne]
        exact fun h => hnew (List.mem_map.2 ⟨e, he, h⟩)
      rw [List.lookup_cons, hne]
      exact ih hrest he

theorem item?_eq_some_iff {name : DiskName} (hd : (d.items.map (·.1)).Nodup) (hn : name ≠ []) :
    d.item? name = some item ↔ (name, item) ∈ d.items :=
  ⟨fun hi => mem_items_of_item? hi hn, fun he => item?_of_mem hd he hn⟩

theorem exists_root_of_discover (h : d.discover root suffix = .ok ps) :
    ∃ dir, d.find root true = .ok (dir, .directory) := by
  unfold discover at h
  split at h
  · cases h
  · rename_i dir hroot
    exact ⟨dir, hroot⟩
  · cases h

def waysFrom (d : Disk) (dir : DiskName) (suffix : String) : List DiskName :=
  d.items.filterMap fun e => (beneath? dir e.1).filter fun way =>
    isFile e.2 && (way.getLast?.any fun name => suffix.toList.isSuffixOf name.toList)

theorem mem_waysFrom (hd : (d.items.map (·.1)).Nodup) : way ∈ d.waysFrom dir suffix ↔
    EndsIn suffix way ∧ ∃ content, d.item? (dir ++ way) = some (.file content) := by
  simp only [waysFrom, List.mem_filterMap, Option.filter_eq_some_iff, beneath?_eq_some,
    Bool.and_eq_true, isFile_iff]
  constructor
  · rintro ⟨e, he, ⟨hname, hn⟩, ⟨content, hc⟩, hends⟩
    have hi := item?_of_mem hd he (by simp [hname, hn])
    exact ⟨hends, content, by rw [← hname, hi, hc]⟩
  · rintro ⟨hends, content, hi⟩
    have hn := hends.ne_nil
    exact ⟨_, mem_items_of_item? hi (by simp [hn]), ⟨rfl, hn⟩, ⟨content, rfl⟩, hends⟩

theorem nodup_waysFrom (hd : (d.items.map (·.1)).Nodup) : (d.waysFrom dir suffix).Nodup := by
  rw [waysFrom, List.Nodup, List.pairwise_filterMap]
  refine (List.pairwise_map.1 hd).imp fun {e e'} hne way hw way' hw' he => hne ?_
  rw [(beneath?_eq_some.1 (Option.filter_eq_some_iff.1 hw).1).1,
    (beneath?_eq_some.1 (Option.filter_eq_some_iff.1 hw').1).1, he]

theorem isLE_or_isLE_swap (way way' : DiskName) :
    ((Ord.compare way way').isLE || (Ord.compare way' way).isLE) = true := by
  have hswap : Ord.compare way' way = (Ord.compare way way').swap := Std.OrientedCmp.eq_swap
  rw [hswap]
  cases Ord.compare way way' <;> rfl

/-- Discovery follows the ways to the files beneath the directory, if there are such ways. -/
theorem discover_eq_of_isWay (hd : (d.items.map (·.1)).Nodup)
    (hroot : d.find root true = .ok (dir, .directory))
    (hway : ∀ way content, EndsIn suffix way → d.HasBeneath root way content → IsWay way) :
    ∃ ways, d.Finds root suffix ways ∧
      d.discover root suffix = .ok (ways.map (pathBeneath root)) := by
  have hmem (way : DiskName) : way ∈ d.waysFrom dir suffix ↔
      EndsIn suffix way ∧ ∃ content, d.HasBeneath root way content := by
    simp only [mem_waysFrom hd, hasBeneath_iff hroot]
  refine ⟨(d.waysFrom dir suffix).mergeSort fun way way' => (Ord.compare way way').isLE,
    ⟨fun way => by rw [List.mem_mergeSort, hmem], ?_, ?_⟩, ?_⟩
  · exact (List.mergeSort_perm _ _).nodup_iff.2 (nodup_waysFrom hd)
  · exact List.pairwise_mergeSort (fun _ _ _ => Std.TransCmp.isLE_trans)
      (fun way way' => isLE_or_isLE_swap way way') _
  · have hr := (find_eq_ok.1 hroot).2.1
    have isWay (way : DiskName) (hw : way ∈ d.waysFrom dir suffix) : IsWay way := by
      obtain ⟨hends, content, hfile⟩ := (hmem way).1 hw
      exact hway way content hends hfile
    unfold discover
    rw [hroot]
    refine congrArg _ (List.map_mergeSort fun way hw way' hw' => ?_).symm
    rw [compare_pathBeneath hr (isWay way hw) (isWay way' hw')]

theorem Grounded.discover_eq (hd : d.Grounded) (hroot : d.find root true = .ok (dir, .directory))
    (suffix : String) : ∃ ways, d.Finds root suffix ways ∧
      d.discover root suffix = .ok (ways.map (pathBeneath root)) :=
  discover_eq_of_isWay hd.distinct hroot fun _ _ hends hfile => hfile.isWay hd hends.ne_nil

theorem exists_finds (hd : d.Grounded) (h : d.discover root suffix = .ok ps) :
    ∃ ways, d.Finds root suffix ways ∧ ps = ways.map (pathBeneath root) := by
  obtain ⟨dir, hroot⟩ := exists_root_of_discover h
  obtain ⟨ways, hways, hfound⟩ := hd.discover_eq hroot suffix
  rw [h] at hfound
  exact ⟨ways, hways, Except.ok.inj hfound⟩

/-- The document of a file beneath a directory is that of its text, by the last name on the way. -/
theorem load_pathBeneath {t : Tree} (hd : d.Grounded) (h : d.HasBeneath root way content)
    (hn : way ≠ []) (hload : Tree.load d (pathBeneath root way) = .ok t) :
    ∃ f text, Format.ofPath (wayPath way) = .ok f ∧ content = .text text ∧ f.parse text = .ok t := by
  have hway := h.isWay hd hn
  have hnames := h.isName hd
  obtain ⟨dir, hroot, hi⟩ := h
  have hr := (find_eq_ok.1 hroot).2.1
  obtain ⟨f, name, text, hf, hfind, ht⟩ := load_eq_ok.1 hload
  rw [find_pathBeneath hroot hway hnames (hd.reaches hi)] at hfind
  split at hfind
  · cases hfind
  cases hfind
  refine ⟨f, text, ofPath_congr ?_ hf, rfl, ht⟩
  rw [getLast?_parts_pathBeneath hr hway, parts_wayPath hway, List.getLast?_map]

/-- Files of one content at the end of one way hold one document if they hold any. -/
theorem load_unique {t t' : Tree} (hd : d.Grounded) (hd' : d'.Grounded)
    (h : d.HasBeneath root way content) (h' : d'.HasBeneath root' way content) (hn : way ≠ [])
    (hload : Tree.load d (pathBeneath root way) = .ok t)
    (hload' : Tree.load d' (pathBeneath root' way) = .ok t') : t = t' := by
  obtain ⟨f, text, hf, hc, ht⟩ := load_pathBeneath hd h hn hload
  obtain ⟨f', text', hf', hc', ht'⟩ := load_pathBeneath hd' h' hn hload'
  rw [hf] at hf'
  cases hf'
  rw [hc] at hc'
  cases hc'
  rw [ht] at ht'
  exact Except.ok.inj ht'

end Schemata.Disk
