import Schemata.Proofs.File.Directory
import Schemata.Proofs.Page.Entries
import Schemata.Proofs.Page.Site
import Schemata.Settings.File

/-!
# Where the links of the catalog lead

An entry of the catalog links to the page of its schema as seen from the output directory. The
catalog may be given a place of its own, in a directory that is made for it, and a reader follows
its links from there. They lead to the pages just when the catalog lies directly in the output
directory, as it does under a plain file name.
-/

namespace Schemata

open FilePath Disk Site

variable {o : CatalogOptions} {ss : List Schema} {s : Schema} {d : Disk} {p dir out : FilePath}
  {name : String}

namespace Catalog

/-- What the entry of a schema links to. -/
def link (s : Schema) : FilePath := fromHere s.pagePath

def entryStart (s : Schema) : String := "- **[" ++ s.title ++ "](" ++ (link s).text ++ ")** - "

theorem entryLine_eq (o : CatalogOptions) (s : Schema) : entryLine o s =
    entryStart s ++ summary (s.description?.getD Page.noDescription) o.summaryLength := by
  simp [entryLine, entryStart, link, fromHere, ← String.toList_inj]

def LinksTo (text : String) (s : Schema) : Prop :=
  ∃ before after, text = before ++ entryStart s ++ after

theorem linksTo_catalog (o : CatalogOptions) (hs : s ∈ ss) : LinksTo (catalog o ss) s := by
  have hcategory : s.category ∈ categories ss := mem_categories.2 ⟨s, hs, rfl⟩
  have hmember : s ∈ members ss s.category := by
    rw [members, List.mem_mergeSort, List.mem_filter]
    exact ⟨hs, decide_eq_true rfl⟩
  have hentry : entryLine o s ∈ groupLines s.category.title
      ((members ss s.category).map (entryLine o)) := by
    rw [groupLines]
    exact List.mem_append_left _ (List.mem_append_right _ (List.mem_map_of_mem hmember))
  have hrow : entryLine o s ∈ (categories ss).flatMap fun c =>
      groupLines c.title ((members ss c).map (entryLine o)) :=
    List.mem_flatMap.2 ⟨_, hcategory, hentry⟩
  obtain ⟨above, below, hrows⟩ := List.append_of_mem hrow
  rw [catalog_eq, hrows, entryLine_eq]
  simp only [unlines_append, unlines_cons, LinksTo, String.append_assoc]
  exact ⟨unlines (openingLines o) ++ unlines above, _, by rw [String.append_assoc]⟩

theorem nameOf_join_link (d : Disk) (dir : FilePath) (hs : IsPiece s.category.name) :
    d.nameOf (dir.join (link s)) = d.nameOf (dir.join s.pagePath) :=
  nameOf_join_fromHere dir (Schema.not_isAbsolute_pagePath hs)

theorem nameOf_join_pagePath (d : Disk) (dir : FilePath) (hs : IsPiece s.category.name) :
    d.nameOf (dir.join s.pagePath) = d.nameOf dir ++ [s.category.name, s.stem ++ ".md"] := by
  have hsteps := Schema.steps_pagePath hs
  rw [nameOf_join_pieces dir (Schema.not_isAbsolute_pagePath hs), hsteps]
  simp [hsteps, hs, s.isPiece_pageName]

theorem nameOf_link_iff (d : Disk) (dir out : FilePath) (hs : IsPiece s.category.name) :
    d.nameOf (dir.join (link s)) = d.nameOf (out.join s.pagePath) ↔ d.nameOf dir = d.nameOf out := by
  rw [nameOf_join_link d dir hs, nameOf_join_pagePath d dir hs, nameOf_join_pagePath d out hs,
    List.append_left_inj]

end Catalog

/-- A file put into a directory by its name alone lies in that directory. -/
theorem Disk.LiesIn.of_join_piece {q : String} (h : LiesIn (out.join ⟨q⟩) dir name)
    (hq : IsPiece q) : solid dir.text.toList = solid out.text.toList ∧ d.start dir = d.start out := by
  have hrel := not_isAbsolute_piece hq
  have hsolid := h.solid_eq
  rw [solid_join hrel, solid_piece hq] at hsolid
  exact ⟨(List.append_inj' hsolid rfl).1.symm, (start_congr h.lead_eq).trans (start_join hrel)⟩

/-- Each entry of a written catalog links to a page, and the link names this page, for a reader who
follows it from the directory of the catalog, just when that directory is the output directory. A
catalog that was given a plain file name lies there, and its links lead to the pages unless their
text is too long. All schemas that were read have one piece as their category. -/
theorem link_leads_iff {o : SiteOptions} {d' : Disk} {r : SiteReport}
    (hs : ∀ s ∈ ss, IsPiece s.category.name) (h : writeSite o out ss d = (.ok r, d')) :
    ∃ dir piece, r.catalog.parent? = some dir ∧ d'.nameOf r.catalog = d'.nameOf dir ++ [piece] ∧
      (IsPiece o.catalogFile → d'.nameOf dir = d'.nameOf out) ∧
      List.Forall₂ (fun s p => Catalog.LinksTo (catalog o.catalog ss) s ∧
        (d'.nameOf (dir.join (Catalog.link s)) = d'.nameOf p ↔ d'.nameOf dir = d'.nameOf out) ∧
        ∃ name content, d'.find p true = .ok (name, .file content) ∧
          (IsPiece o.catalogFile → d'.find (dir.join (Catalog.link s)) true =
            if (dir.join (Catalog.link s)).text.utf8ByteSize ≥ 4096 then .error .nameTooLong
            else .ok (name, .file content))) ss r.pages := by
  have hpages := shows_pages h
  obtain ⟨rfl, -, d₁, _, _, hcatalog, -⟩ := exists_of_writeSite h
  obtain ⟨_, -, -, hplace⟩ := hcatalog.exists_place
  obtain ⟨dir, piece, hdir⟩ := exists_liesIn hplace
  obtain ⟨-, hz, -⟩ := hcatalog
  have hnul : Char.ofNat 0 ∉ dir.text.toList := fun hm => hz (hdir.text_isPrefix.subset hm)
  refine ⟨dir, piece, hdir.parent?_eq, hdir.nameOf_eq d', fun hfile => ?_, ?_⟩
  · obtain ⟨hsolid, hstart⟩ := hdir.of_join_piece hfile (d := d')
    rw [nameOf_eq, nameOf_eq, hsolid, hstart]
  · refine List.forall₂_map_right_iff.2 (List.forall₂_same.2 fun s hm => ?_)
    obtain ⟨_, -, rfl, name, content, hshows⟩ :=
      exists_of_mem_right hpages.flip hm
    refine ⟨Catalog.linksTo_catalog o.catalog hm, Catalog.nameOf_link_iff d' dir out (hs s hm), name,
      content, hshows.find_eq, fun hfile => ?_⟩
    obtain ⟨hsolid, hstart⟩ := hdir.of_join_piece hfile (d := d')
    exact find_join_fromHere hnul hstart hsolid (Schema.not_isAbsolute_pagePath (hs s hm))
      hshows.find_eq

def Booklet.shelved : Disk := (writeSite .standard ⟨"out"⟩ [schema] disk).2

theorem Booklet.link_leads : (∀ s ∈ [schema], IsPiece s.category.name) ∧
    (writeSite .standard ⟨"out"⟩ [schema] disk).1 =
      .ok ⟨⟨"out/ontology-reference.md"⟩, [⟨"out/c/m.md"⟩]⟩ ∧
    shelved.nameOf (join ⟨"out"⟩ (Catalog.link schema)) = ["out", "c", "m.md"] ∧
    shelved.find (join ⟨"out"⟩ (Catalog.link schema)) true =
      .ok (["out", "c", "m.md"], .file (.text schema.page)) := by
  have hs : ∀ s ∈ [schema], IsPiece s.category.name :=
    List.forall_mem_singleton.2 (Schema.isPiece_category _ _ _)
  have hr : (writeSite .standard ⟨"out"⟩ [schema] disk).1 =
      .ok ⟨⟨"out/ontology-reference.md"⟩, [⟨"out/c/m.md"⟩]⟩ := by decide +kernel
  have hparent : FilePath.parent? ⟨"out/ontology-reference.md"⟩ = some ⟨"out"⟩ := by
    decide +kernel
  have hfile : IsPiece SiteOptions.standard.catalogFile :=
    ⟨by decide, by decide, by decide, by decide⟩
  have hname : shelved.nameOf ⟨"out/c/m.md"⟩ = ["out", "c", "m.md"] := by decide +kernel
  have hpage : shelved.find ⟨"out/c/m.md"⟩ true =
      .ok (["out", "c", "m.md"], .file (.text schema.page)) := by decide +kernel
  obtain ⟨dir, -, hdir, -, hout, hlinks⟩ := link_leads_iff hs (Prod.ext hr rfl)
  obtain rfl : ⟨"out"⟩ = dir := Option.some.inj (hparent.symm.trans hdir)
  obtain ⟨-, hnamed, name, content, hfound, hleads⟩ := (List.forall₂_cons.1 hlinks).1
  obtain ⟨rfl, rfl⟩ : name = ["out", "c", "m.md"] ∧ content = .text schema.page := by
    simpa using hfound.symm.trans hpage
  exact ⟨hs, hr, (hnamed.2 (hout hfile)).trans hname,
    (hleads hfile).trans (if_neg (by decide +kernel))⟩

/-- Settings that a run can use, with a directory for the catalog. -/
def Booklet.settings : Settings :=
  { Settings.standard with
    schemas := { SchemaSettings.standard with catalogFile := "reference/index.md" } }

/-- From the directory of the catalog, the link leads nowhere. -/
theorem Booklet.link_astray : settings.check = .ok settings ∧
    (writeSite settings.site ⟨"out"⟩ [schema] disk).1 =
      .ok ⟨⟨"out/reference/index.md"⟩, [⟨"out/c/m.md"⟩]⟩ ∧
    Catalog.LinksTo (catalog settings.site.catalog [schema]) schema ∧
    FilePath.parent? ⟨"out/reference/index.md"⟩ = some ⟨"out/reference"⟩ ∧
    (writeSite settings.site ⟨"out"⟩ [schema] disk).2.find
        (join ⟨"out/reference"⟩ (Catalog.link schema)) true = .error .notFound ∧
    disk.nameOf (join ⟨"out/reference"⟩ (Catalog.link schema)) ≠ disk.nameOf ⟨"out/c/m.md"⟩ := by
  refine ⟨rfl, ?_, Catalog.linksTo_catalog _ List.mem_cons_self, ?_⟩
  · decide +kernel
  · decide +kernel

end Schemata
