import Schemata.Proofs.Command.Docs
import Schemata.Proofs.Schema.Ways

/-!
# Moving an input directory

Nothing in a site tells where its input directory lies. What documentation takes from the path of a
schema is the way from the directory, and of the path of the directory its last name. Two
directories of one name with the same files therefore have the same site, or collide in the same
page.
-/

namespace Schemata

open FilePath Disk

variable {root root' : FilePath} {e e' : DiskName × Tree} {es : List (DiskName × Tree)}

def Schema.beneath (root : FilePath) (e : DiskName × Tree) : Schema :=
  .ofTree (pathBeneath root e.1) root e.2

/-- Two directories that are there under one name. -/
structure Namesakes (root root' : FilePath) : Prop where
  left : root.text ≠ ""
  right : root'.text ≠ ""
  fileName_eq : root.fileName? = root'.fileName?

theorem shownPathOf_pathBeneath {way : DiskName} (hr : root.text ≠ "") (hw : IsWay way) :
    Schema.shownPathOf (pathBeneath root way) root =
      match root.fileName? with
      | some name => FilePath.join ⟨name⟩ (wayPath way)
      | none => wayPath way := by
  rw [Schema.shownPathOf, stripStart?_pathBeneath hr hw]
  cases root.fileName? with
  | none => rfl
  | some name => exact if_neg (not_same_wayPath hr hw)

namespace Namesakes

theorem shownPath_eq (h : Namesakes root root') (hw : IsWay e.1) :
    (Schema.beneath root e).shownPath = (Schema.beneath root' e).shownPath := by
  unfold Schema.beneath Schema.ofTree
  rw [shownPathOf_pathBeneath h.left hw, shownPathOf_pathBeneath h.right hw, h.fileName_eq]

theorem category_eq (h : Namesakes root root') (hw : IsWay e.1) :
    (Schema.beneath root e).category = (Schema.beneath root' e).category := by
  unfold Schema.beneath Schema.ofTree Category.ofPath
  rw [directoryName_pathBeneath h.left hw, directoryName_pathBeneath h.right hw, h.fileName_eq]

theorem stem_eq (h : Namesakes root root') (hw : IsWay e.1) :
    (Schema.beneath root e).stem = (Schema.beneath root' e).stem := by
  unfold Schema.beneath Schema.ofTree Schema.stem stem?
  rw [fileName?_pathBeneath h.left hw, fileName?_pathBeneath h.right hw]

theorem pagePath_eq (h : Namesakes root root') (hw : IsWay e.1) :
    (Schema.beneath root e).pagePath = (Schema.beneath root' e).pagePath := by
  rw [Schema.pagePath, Schema.pagePath, h.category_eq hw, h.stem_eq hw]

/-- A page shows where its schema lies beneath the directory and nothing above. -/
theorem page_eq (h : Namesakes root root') (hw : IsWay e.1) :
    (Schema.beneath root e).page = (Schema.beneath root' e).page := by
  have hshown := h.shownPath_eq hw
  have hcategory := h.category_eq hw
  unfold Schema.page
  rw [hshown, hcategory]
  rfl

theorem entry_eq (h : Namesakes root root') (hw : IsWay e.1) (o : CatalogOptions) :
    Catalog.entry o (Schema.beneath root e) = Catalog.entry o (Schema.beneath root' e) := by
  unfold Catalog.entry
  rw [h.pagePath_eq hw]
  rfl

end Namesakes

theorem members_beneath (hr : root.text ≠ "") (hw : ∀ e ∈ es, IsWay e.1) (c : Category) :
    Catalog.members (es.map (Schema.beneath root)) c =
      ((es.filter fun e => (Schema.beneath root e).category = c).mergeSort fun e e' =>
        (Ord.compare e.1 e'.1).isLE).map (Schema.beneath root) := by
  rw [Catalog.members, List.filter_map]
  refine (List.map_mergeSort fun e he e' he' => ?_).symm
  have hway := hw e (List.mem_filter.1 he).1
  have hway' := hw e' (List.mem_filter.1 he').1
  exact congrArg Ordering.isLE (compare_pathBeneath hr hway hway').symm

namespace Namesakes

theorem group_eq (h : Namesakes root root') (hw : ∀ e ∈ es, IsWay e.1) (o : CatalogOptions)
    (c : Category) : Catalog.group o (es.map (Schema.beneath root)) c =
      Catalog.group o (es.map (Schema.beneath root')) c := by
  have hfilter : es.filter (fun e => (Schema.beneath root e).category = c) =
      es.filter fun e => (Schema.beneath root' e).category = c :=
    List.filter_congr fun e he => by rw [h.category_eq (hw e he)]
  have hentries : ∀ sub ⊆ es, (sub.map (Schema.beneath root)).map (Catalog.entry o) =
      (sub.map (Schema.beneath root')).map (Catalog.entry o) := by
    intro sub hsub
    rw [List.map_map, List.map_map]
    refine List.map_congr_left fun e he => ?_
    rw [Function.comp_apply, Function.comp_apply, h.entry_eq (hw e (hsub he))]
  unfold Catalog.group
  rw [members_beneath h.left hw, members_beneath h.right hw, hfilter]
  dsimp only
  rw [hentries, List.length_map, List.length_map]
  intro e he
  rw [List.mem_mergeSort] at he
  exact (List.mem_filter.1 he).1

theorem catalog_eq (h : Namesakes root root') (hw : ∀ e ∈ es, IsWay e.1) (o : CatalogOptions) :
    catalog o (es.map (Schema.beneath root)) = catalog o (es.map (Schema.beneath root')) := by
  have hcategories : (es.map (Schema.beneath root)).map (·.category) =
      (es.map (Schema.beneath root')).map (·.category) := by
    rw [List.map_map, List.map_map]
    refine List.map_congr_left fun e he => ?_
    rw [Function.comp_apply, Function.comp_apply, h.category_eq (hw e he)]
  unfold catalog Catalog.categories
  rw [hcategories, List.map_congr_left fun c _ => h.group_eq hw o c, List.length_map,
    List.length_map]

theorem pages_eq (h : Namesakes root root') (hw : ∀ e ∈ es, IsWay e.1) :
    (es.map (Schema.beneath root)).map (fun s => (s.pagePath, s.page)) =
      (es.map (Schema.beneath root')).map fun s => (s.pagePath, s.page) := by
  rw [List.map_map, List.map_map]
  refine List.map_congr_left fun e he => ?_
  exact congrArg₂ Prod.mk (h.pagePath_eq (hw e he)) (h.page_eq (hw e he))

theorem length_sharing_eq (h : Namesakes root root') (hw : ∀ e ∈ es, IsWay e.1) (page : FilePath) :
    (Site.sharing (es.map (Schema.beneath root)) page).length =
      (Site.sharing (es.map (Schema.beneath root')) page).length := by
  rw [Site.sharing, Site.sharing, List.filter_map, List.filter_map, List.length_map,
    List.length_map]
  refine congrArg List.length (List.filter_congr fun e he => ?_)
  rw [Function.comp_apply, Function.comp_apply, h.pagePath_eq (hw e he)]

/-- The same page is the first one to collide, if any is. -/
theorem collision_eq (h : Namesakes root root') (hw : ∀ e ∈ es, IsWay e.1) :
    Site.collision? (es.map (Schema.beneath root)) = none ∧
      Site.collision? (es.map (Schema.beneath root')) = none ∨
    ∃ page sources sources',
      Site.collision? (es.map (Schema.beneath root)) = some (.collision page sources) ∧
      Site.collision? (es.map (Schema.beneath root')) = some (.collision page sources') := by
  have hpaths : (es.map (Schema.beneath root)).map (·.pagePath) =
      (es.map (Schema.beneath root')).map (·.pagePath) := by
    rw [List.map_map, List.map_map]
    refine List.map_congr_left fun e he => ?_
    rw [Function.comp_apply, Function.comp_apply, h.pagePath_eq (hw e he)]
  unfold Site.collision?
  simp only [hpaths, h.length_sharing_eq hw]
  cases List.find? _ _ with
  | none => exact .inl ⟨rfl, rfl⟩
  | some page => exact .inr ⟨page, _, _, rfl, rfl⟩

end Namesakes

namespace Docs

theorem exists_beneath {d d' : Disk} {ways : List DiskName}
    (h : ∀ way ∈ ways, ∃ t, Tree.load d (pathBeneath root way) = .ok t ∧
      Tree.load d' (pathBeneath root' way) = .ok t) :
    ∃ es : List (DiskName × Tree), es.map (·.1) = ways ∧
      loadAll d root (ways.map (pathBeneath root)) = (es.map (Schema.beneath root), []) ∧
      loadAll d' root' (ways.map (pathBeneath root')) = (es.map (Schema.beneath root'), []) := by
  induction ways with
  | nil => exact ⟨[], rfl, rfl, rfl⟩
  | cons way ways ih =>
    obtain ⟨⟨t, ht, ht'⟩, hrest⟩ := List.forall_mem_cons.1 h
    obtain ⟨es, hes, hload, hload'⟩ := ih hrest
    refine ⟨(way, t) :: es, by rw [List.map_cons, hes], ?_, ?_⟩
    · rw [List.map_cons, loadAll_cons, Schema.load, ht, hload]
      rfl
    · rw [List.map_cons, loadAll_cons, Schema.load, ht', hload']
      rfl

end Docs

/-- Sites with the same catalog and the same pages are written alike. -/
theorem writeSite_congr {o : SiteOptions} {out : FilePath} {ss ss' : List Schema} {d : Disk}
    (hpages : ss.map (fun s => (s.pagePath, s.page)) = ss'.map fun s => (s.pagePath, s.page))
    (hcatalog : catalog o.catalog ss = catalog o.catalog ss') (h : Site.collision? ss = none)
    (h' : Site.collision? ss' = none) : writeSite o out ss d = writeSite o out ss' d := by
  have files (ss : List Schema) : Site.files o out ss =
      (out.join ⟨o.catalogFile⟩, catalog o.catalog ss) ::
        (ss.map fun s => (s.pagePath, s.page)).map fun f => (out.join f.1, f.2) := by
    simp only [Site.files, List.map_map, Function.comp_def]
  have paths (ss : List Schema) : ss.map (out.join ·.pagePath) =
      (ss.map fun s => (s.pagePath, s.page)).map fun f => out.join f.1 := by
    simp only [List.map_map, Function.comp_def]
  unfold writeSite
  rw [h, h', files, files, hcatalog, hpages, paths, paths, hpages]

/-- A site does not depend on where its input directory lies. For two directories with the same last
name and the same files to find beneath them, all of which can be loaded, the same files are found;
the pages have the same paths in the output directory and the same texts, as the catalog has; and
writing the two sites ends alike, or in the collision of the same page. -/
theorem Docs.site_relocates {d d' : Disk} {suffix : String} (hd : d.Grounded) (hd' : d'.Grounded)
    (hroot : d.isDirectory root) (hroot' : d'.isDirectory root')
    (hname : root.fileName? = root'.fileName?)
    (hsame : ∀ way content, EndsIn suffix way →
      (d.HasBeneath root way content ↔ d'.HasBeneath root' way content))
    (hload : ∀ way content, EndsIn suffix way → d.HasBeneath root way content →
      (∃ t, Tree.load d (pathBeneath root way) = .ok t) ∧
      ∃ t, Tree.load d' (pathBeneath root' way) = .ok t)
    (o : SiteOptions) (out : FilePath) (disk : Disk) :
    ∃ (ways : List DiskName) (ss ss' : List Schema),
      d.discover root suffix = .ok (ways.map (pathBeneath root)) ∧
      d'.discover root' suffix = .ok (ways.map (pathBeneath root')) ∧
      Docs.loadAll d root (ways.map (pathBeneath root)) = (ss, []) ∧
      Docs.loadAll d' root' (ways.map (pathBeneath root')) = (ss', []) ∧
      ss.map (fun s => (s.pagePath, s.page)) = ss'.map (fun s => (s.pagePath, s.page)) ∧
      catalog o.catalog ss = catalog o.catalog ss' ∧
      (writeSite o out ss disk = writeSite o out ss' disk ∨
        ∃ page sources sources',
          writeSite o out ss disk = (.error (.collision page sources), disk) ∧
          writeSite o out ss' disk = (.error (.collision page sources'), disk)) := by
  obtain ⟨dir, hroot⟩ := isDirectory_iff.1 hroot
  obtain ⟨dir', hroot'⟩ := isDirectory_iff.1 hroot'
  obtain ⟨ways, hways, hfound⟩ := hd.discover_eq hroot suffix
  obtain ⟨ways', hways', hfound'⟩ := hd'.discover_eq hroot' suffix
  cases hways.unique hways' fun way hends => exists_congr fun content => hsame way content hends
  have hloads : ∀ way ∈ ways, ∃ t, Tree.load d (pathBeneath root way) = .ok t ∧
      Tree.load d' (pathBeneath root' way) = .ok t := by
    intro way hw
    obtain ⟨hends, content, hfile⟩ := (hways.mem_iff way).1 hw
    obtain ⟨⟨t, ht⟩, t', ht'⟩ := hload way content hends hfile
    cases load_unique hd hd' hfile ((hsame way content hends).1 hfile) hends.ne_nil ht ht'
    exact ⟨t, ht, ht'⟩
  obtain ⟨es, hes, hss, hss'⟩ := exists_beneath hloads
  have hway : ∀ e ∈ es, IsWay e.1 := by
    intro e he
    obtain ⟨hends, content, hfile⟩ := (hways.mem_iff e.1).1 (hes ▸ List.mem_map_of_mem he)
    exact hfile.isWay hd hends.ne_nil
  have h : Namesakes root root' := ⟨(find_eq_ok.1 hroot).2.1, (find_eq_ok.1 hroot').2.1, hname⟩
  refine ⟨ways, _, _, hfound, hfound', hss, hss', h.pages_eq hway, h.catalog_eq hway o.catalog, ?_⟩
  rcases h.collision_eq hway with ⟨hc, hc'⟩ | ⟨page, sources, sources', hc, hc'⟩
  · exact .inl (writeSite_congr (h.pages_eq hway) (h.catalog_eq hway o.catalog) hc hc')
  · refine .inr ⟨page, sources, sources', ?_, ?_⟩
    · rw [writeSite, hc]
    · rw [writeSite, hc']

def Removal.disk : Disk :=
  ⟨[(["a"], .directory), (["a", "o"], .directory), (["a", "o", "m.json"], .file (.text "\x7b\x7d")),
    (["o"], .directory), (["o", "m.json"], .file (.text "\x7b\x7d"))], []⟩

theorem Removal.same_pages : disk.Grounded ∧
    (∀ way content, EndsIn ".json" way →
      (disk.HasBeneath ⟨"/a/o"⟩ way content ↔ disk.HasBeneath ⟨"o"⟩ way content)) ∧
    disk.discover ⟨"/a/o"⟩ ".json" = .ok [⟨"/a/o/m.json"⟩] ∧
    disk.discover ⟨"o"⟩ ".json" = .ok [⟨"o/m.json"⟩] ∧
    (Docs.loadAll disk ⟨"/a/o"⟩ [⟨"/a/o/m.json"⟩]).1.map (fun s => (s.pagePath, s.page)) =
      (Docs.loadAll disk ⟨"o"⟩ [⟨"o/m.json"⟩]).1.map fun s => (s.pagePath, s.page) := by
  have hd : disk.Grounded := by decide +kernel
  have hroot : disk.find ⟨"/a/o"⟩ true = .ok (["a", "o"], .directory) := by decide +kernel
  have hroot' : disk.find ⟨"o"⟩ true = .ok (["o"], .directory) := by decide +kernel
  have hway (way : DiskName) (content : Content) (hends : EndsIn ".json" way) :
      disk.HasBeneath ⟨"/a/o"⟩ way content ↔ way = ["m.json"] ∧ content = .text "\x7b\x7d" := by
    rw [hasBeneath_iff hroot, item?_eq_some_iff hd.distinct (by simp)]
    simp [disk]
  have hway' (way : DiskName) (content : Content) (hends : EndsIn ".json" way) :
      disk.HasBeneath ⟨"o"⟩ way content ↔ way = ["m.json"] ∧ content = .text "\x7b\x7d" := by
    rw [hasBeneath_iff hroot', item?_eq_some_iff hd.distinct (by simp)]
    simp [disk]
  have hsame (way : DiskName) (content : Content) (hends : EndsIn ".json" way) :
      disk.HasBeneath ⟨"/a/o"⟩ way content ↔ disk.HasBeneath ⟨"o"⟩ way content := by
    rw [hway way content hends, hway' way content hends]
  have hload (way : DiskName) (content : Content) (hends : EndsIn ".json" way)
      (hfile : disk.HasBeneath ⟨"/a/o"⟩ way content) :
      (∃ t, Tree.load disk (pathBeneath ⟨"/a/o"⟩ way) = .ok t) ∧
        ∃ t, Tree.load disk (pathBeneath ⟨"o"⟩ way) = .ok t := by
    obtain ⟨rfl, rfl⟩ := (hway way content hends).1 hfile
    exact ⟨⟨.mapping [], by decide +kernel⟩, .mapping [], by decide +kernel⟩
  have hfound : disk.discover ⟨"/a/o"⟩ ".json" = .ok [⟨"/a/o/m.json"⟩] :=
    discover_of_sorted hroot (by decide +kernel) (by decide +kernel)
  have hfound' : disk.discover ⟨"o"⟩ ".json" = .ok [⟨"o/m.json"⟩] :=
    discover_of_sorted hroot' (by decide +kernel) (by decide +kernel)
  obtain ⟨ways, ss, ss', hways, hways', hss, hss', hpages, -⟩ := Docs.site_relocates hd hd
    (by decide +kernel) (by decide +kernel) (by decide +kernel) hsame hload .standard ⟨"docs"⟩ disk
  rw [← Except.ok.inj (hfound.symm.trans hways)] at hss
  rw [← Except.ok.inj (hfound'.symm.trans hways')] at hss'
  rw [hss, hss']
  exact ⟨hd, hsame, hfound, hfound', hpages⟩

end Schemata
