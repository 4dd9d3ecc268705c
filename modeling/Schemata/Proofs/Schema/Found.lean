import Schemata.Proofs.Schema.Ways

/-!
# Exactly the files beneath a directory

Discovery goes through real directories only, to real files whose names have the ending, and misses
none of them. The paths it finds stand in strict order, part by part, and so none is found twice. A
root that is not there, or that is no directory, is told apart from one without such files.
-/

namespace Schemata.Disk

open FilePath

/-- Each name is that of a directory, not of a link, in the directory before. -/
inductive Descends (d : Disk) : DiskName → List String → Prop
  | nil {dir} : Descends d dir []
  | cons {dir name ds} (hi : d.item? (dir ++ [name]) = some .directory)
    (h : Descends d (dir ++ [name]) ds) : Descends d dir (name :: ds)

/-- A file with the ending at the end of directories that lie in one another. -/
def LiesBeneath (d : Disk) (root : FilePath) (dir : DiskName) (suffix : String) (p : FilePath) :
    Prop :=
  ∃ ds name content, d.Descends dir ds ∧ d.item? (dir ++ ds ++ [name]) = some (.file content) ∧
    suffix.toList <:+ name.toList ∧ p = pathBeneath root (ds ++ [name])

variable {d : Disk} {root p : FilePath} {suffix : String} {dir ds way way' : DiskName}
  {ways : List DiskName}

theorem Stands.descends (h : d.Stands (dir ++ ds)) : d.Descends dir ds := by
  induction ds generalizing dir with
  | nil => exact .nil
  | cons name ds ih =>
    rw [List.append_cons] at h
    exact .cons (h.of_prefix (List.prefix_append _ _)).item_eq (ih h)

theorem endsIn_concat {name : String} :
    EndsIn suffix (ds ++ [name]) ↔ suffix.toList <:+ name.toList := by
  rw [EndsIn, List.getLast?_concat, Option.any_some, List.isSuffixOf_iff_suffix]

theorem Finds.mem_map_iff (hd : d.Grounded) (hroot : d.find root true = .ok (dir, .directory))
    (h : d.Finds root suffix ways) :
    p ∈ ways.map (pathBeneath root) ↔ d.LiesBeneath root dir suffix p := by
  rw [List.mem_map]
  constructor
  · rintro ⟨way, hway, rfl⟩
    obtain ⟨hends, content, hfile⟩ := (h.mem_iff way).1 hway
    obtain ⟨ds, name, rfl⟩ := (List.eq_nil_or_concat' way).resolve_left hends.ne_nil
    rw [hasBeneath_iff hroot, ← List.append_assoc] at hfile
    have hstands := (hd.reaches hfile).stands
    rw [List.dropLast_concat] at hstands
    exact ⟨ds, name, content, hstands.descends, hfile, endsIn_concat.1 hends, rfl⟩
  · rintro ⟨ds, name, content, -, hfile, hends, rfl⟩
    rw [List.append_assoc] at hfile
    exact ⟨_, (h.mem_iff _).2 ⟨endsIn_concat.2 hends, content, (hasBeneath_iff hroot).2 hfile⟩, rfl⟩

theorem compare_lt_of_ne (hne : way ≠ way') (hle : (Ord.compare way way').isLE) :
    Ord.compare way way' = .lt := by
  cases hc : Ord.compare way way' with
  | lt => rfl
  | eq => exact absurd (Std.LawfulEqCmp.eq_of_compare hc) hne
  | gt =>
    rw [hc] at hle
    cases hle

theorem Finds.pairwise_map (hd : d.Grounded) (hr : root.text ≠ "") (h : d.Finds root suffix ways) :
    (ways.map (pathBeneath root)).Pairwise fun p q => p.compare q = .lt := by
  have isWay (way : DiskName) (hw : way ∈ ways) : IsWay way := by
    obtain ⟨hends, content, hfile⟩ := (h.mem_iff way).1 hw
    exact hfile.isWay hd hends.ne_nil
  rw [List.pairwise_map]
  refine (h.nodup.and h.sorted).imp_of_mem fun {way way'} hw hw' hlt => ?_
  rw [compare_pathBeneath hr (isWay way hw) (isWay way' hw')]
  exact compare_lt_of_ne hlt.1 hlt.2

/-- Discovery is exact. Where the root is a directory, or a link to one, it finds the files with the
ending that real directories lead to from there, these and no others, in the strict order of their
paths. Otherwise it says that the root is not there, or that it is no directory. -/
theorem discover_found (hd : d.Grounded) (root : FilePath) (suffix : String) :
    (∀ e, d.find root true = .error e → d.discover root suffix = .error (.notFound root)) ∧
    (∀ dir item, d.find root true = .ok (dir, item) → item ≠ .directory →
      d.discover root suffix = .error (.notADirectory root)) ∧
    ∀ dir, d.find root true = .ok (dir, .directory) → ∃ ps, d.discover root suffix = .ok ps ∧
      ps.Nodup ∧ ps.Pairwise (fun p q => p.compare q = .lt) ∧
      ∀ p, p ∈ ps ↔ d.LiesBeneath root dir suffix p := by
  refine ⟨fun e hroot => ?_, fun dir item hroot hitem => ?_, fun dir hroot => ?_⟩
  · rw [discover, hroot]
  · rw [discover, hroot]
    cases item with
    | directory => exact absurd rfl hitem
    | _ => rfl
  · obtain ⟨ways, hways, hfound⟩ := hd.discover_eq hroot suffix
    exact ⟨_, hfound, nodup_of_discover hd.toWellFormed hd.distinct hfound,
      hways.pairwise_map hd (find_eq_ok.1 hroot).2.1, fun p => hways.mem_map_iff hd hroot⟩

def Thicket.disk : Disk :=
  ⟨[(["r"], .link "o"), (["o"], .directory), (["o", "a"], .directory),
    (["o", "a", "x.json"], .directory), (["o", "a", "x.json", "b.json"], .file (.text "")),
    (["o", "a", "c.yaml"], .file (.text "")), (["o", "a", "loop"], .link ".."),
    (["o", "a.json"], .file .binary), (["o", "k.json"], .link "a.json"),
    (["o", "l.json"], .link "a")], []⟩

theorem Thicket.discovered : disk.Grounded ∧
    disk.discover ⟨"q"⟩ ".json" = .error (.notFound ⟨"q"⟩) ∧
    disk.discover ⟨"o/k.json"⟩ ".json" = .error (.notADirectory ⟨"o/k.json"⟩) ∧
    disk.discover ⟨"r"⟩ ".json" = .ok [⟨"r/a/x.json/b.json"⟩, ⟨"r/a.json"⟩] ∧
    disk.LiesBeneath ⟨"r"⟩ ["o"] ".json" ⟨"r/a/x.json/b.json"⟩ ∧
    ¬ disk.LiesBeneath ⟨"r"⟩ ["o"] ".json" ⟨"r/k.json"⟩ := by
  have hd : disk.Grounded := by decide +kernel
  have hmissing : disk.find ⟨"q"⟩ true = .error .notFound := by decide +kernel
  have hfile : disk.find ⟨"o/k.json"⟩ true = .ok (["o", "a.json"], .file .binary) := by
    decide +kernel
  have hroot : disk.find ⟨"r"⟩ true = .ok (["o"], .directory) := by decide +kernel
  obtain ⟨hmiss, -, -⟩ := discover_found hd ⟨"q"⟩ ".json"
  obtain ⟨-, hno, -⟩ := discover_found hd ⟨"o/k.json"⟩ ".json"
  obtain ⟨-, -, hexact⟩ := discover_found hd ⟨"r"⟩ ".json"
  obtain ⟨ps, hps, -, hsorted, hmem⟩ := hexact ["o"] hroot
  have hfound : disk.discover ⟨"r"⟩ ".json" = .ok [⟨"r/a/x.json/b.json"⟩, ⟨"r/a.json"⟩] :=
    discover_of_sorted hroot (by decide +kernel) (by decide +kernel)
  rw [hfound] at hps
  cases hps
  exact ⟨hd, hmiss _ hmissing, hno _ _ hfile (by decide), hfound, (hmem _).1 (by decide),
    (hmem _).not.1 (by decide)⟩

end Schemata.Disk
