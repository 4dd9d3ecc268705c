import Mathlib.Data.List.Forall2
import Schemata.Proofs.File.Lexical
import Schemata.Proofs.File.Loading
import Schemata.Proofs.File.Writing
import Schemata.Proofs.Page.Collisions

/-!
# What is left of a site

The page of a schema lies in the directory of its category, and a site whose pages would collide is
not written at all. Therefore no page is written over another one, as long as no links lead from one
to the other. The catalog is not looked at for collisions: it is lost if a page is written where it
stands.
-/

namespace Schemata

open FilePath

theorem Category.isPiece_ofPath (p : FilePath) : IsPiece (Category.ofPath p).name := by
  unfold ofPath
  cases h : p.parent?.bind fileName? with
  | none => exact ⟨by decide, by decide, by decide, by decide⟩
  | some n =>
    obtain ⟨q, -, hn⟩ := Option.bind_eq_some_iff.1 h
    exact isPiece_of_fileName? hn

/-- A schema that was read has one piece as its category, as it is named after a directory. -/
theorem Schema.isPiece_category (path inputRoot : FilePath) (t : Tree) :
    IsPiece (ofTree path inputRoot t).category.name := Category.isPiece_ofPath path

theorem FilePath.slash_notMem_splitName {n : String} (h : '/' ∉ n.toList) :
    '/' ∉ (splitName n).1.toList := by
  unfold splitName
  split
  · exact h
  · simp only
    split
    · exact h
    · rename_i c back hb
      split
      · exact h
      · intro hm
        rw [String.toList_ofList, List.mem_reverse] at hm
        have hback : '/' ∈ n.toList.reverse :=
          List.mem_of_mem_drop (hb ▸ List.mem_cons_of_mem c hm)
        exact h (List.mem_reverse.1 hback)

namespace Schema

variable {s t : Schema}

theorem slash_notMem_stem (s : Schema) : '/' ∉ s.stem.toList := by
  unfold stem stem?
  cases h : s.path.fileName? with
  | none => decide
  | some n => exact slash_notMem_splitName (isPiece_of_fileName? h).slash_notMem

theorem isPiece_pageName (s : Schema) : IsPiece (s.stem ++ ".md") := by
  have long {text : String} (hl : text.length < 3) : s.stem ++ ".md" ≠ text := by
    rintro rfl
    have suffix : ".md".length = 3 := by decide
    rw [String.length_append, suffix] at hl
    omega
  exact ⟨long (by decide), long (by decide), long (by decide),
    by simpa using s.slash_notMem_stem⟩

theorem not_isAbsolute_pagePath (h : IsPiece s.category.name) : ¬ s.pagePath.isAbsolute := by
  rw [pagePath, isAbsolute_join (not_isAbsolute_piece s.isPiece_pageName)]
  exact not_isAbsolute_piece h

theorem steps_pagePath (h : IsPiece s.category.name) :
    Disk.steps s.pagePath.text = [s.category.name, s.stem ++ ".md"] := by
  rw [pagePath, steps_join (not_isAbsolute_piece s.isPiece_pageName), stepsOf_piece h,
    steps_piece s.isPiece_pageName]
  rfl

theorem same_pagePath
    (h : [s.category.name, s.stem ++ ".md"] = [t.category.name, t.stem ++ ".md"]) :
    s.pagePath.same t.pagePath := by
  obtain ⟨hc, hn, -⟩ := List.cons.inj h |>.imp_right List.cons.inj
  rw [pagePath, hc, hn, ← pagePath, same, decide_eq_true_eq]

end Schema

theorem Site.apart_of_collision? {ss : List Schema} (h : Site.collision? ss = none) :
    ss.Pairwise fun s t => ¬ s.pagePath.same t.pagePath := by
  rw [List.pairwise_iff_getElem]
  intro i j hi hj hij hsame
  exact collision?_eq_none.1 h ss[j].pagePath ⟨i, j, ss[i], ss[j], hij,
    List.getElem?_eq_getElem hi, List.getElem?_eq_getElem hj, hsame, same_self _⟩

namespace Disk

variable {d d' : Disk} {out p q : FilePath} {dir dir' : DiskName} {names : List DiskName}

/-- The path leads to the directory; the empty path leads to the current one. -/
def Leads (d : Disk) (p : FilePath) (dir : DiskName) : Prop :=
  d.walk true maxLinks (d.start p) (stepsOf p.text.toList) = .ok (dir, .directory)

/-- There are no links beneath the directory that the path leads to, now or once the directories
on its way have been made. -/
def LinkFree (d : Disk) (p : FilePath) : Prop :=
  ∀ ⦃names d' dir⦄, d.Grows names d' → d'.Leads p dir →
    ∀ way target, d.item? (dir ++ way) ≠ some (.link target)

/-- The two paths lead to one file or directory. -/
def Coincide (d : Disk) (p q : FilePath) : Prop :=
  ∃ x, d.find p true = .ok x ∧ d.find q true = .ok x

/-- The path leads to the file of the name, and the file has the content. -/
structure Shows (d : Disk) (p : FilePath) (name : DiskName) (content : Content) : Prop where
  item?_eq : d.item? name = some (.file content)
  find_eq : d.find p true = .ok (name, .file content)

theorem Shows.coincide {name : DiskName} {c c' : Content} (h : d.Shows p name c)
    (h' : d.Shows q name c') : d.Coincide p q := by
  have hi := h'.item?_eq
  rw [h.item?_eq] at hi
  cases hi
  exact ⟨_, h.find_eq, h'.find_eq⟩

theorem Coincide.eq {name name' : DiskName} {c c' : Content} (hpq : d.Coincide p q)
    (h : d.Shows p name c) (h' : d.Shows q name' c') : name = name' := by
  obtain ⟨x, hp, hq⟩ := hpq
  rw [h.find_eq] at hp
  rw [h'.find_eq] at hq
  cases hp
  cases hq
  rfl

theorem Leads.unique (h : d.Leads p dir) (h' : d.Leads p dir') : dir = dir' := by
  rw [Leads, h'] at h
  cases h
  rfl

theorem Leads.grows (h : d.Leads p dir) (hg : d.Grows names d') : d'.Leads p dir := by
  rw [Leads, hg.start]
  exact hg.walk h

theorem Linkless.linkFree (hl : d.Linkless) : d.LinkFree p :=
  fun _ _ _ _ _ _ target => hl.item?_ne target

theorem LinkFree.grows (h : d.LinkFree p) (hg : d.Grows names d') : d'.LinkFree p := by
  intro names' d'' dir hg' hdir way target
  rw [ne_eq, hg.link_iff]
  exact h (hg.trans hg') hdir way target

end Disk

namespace Site

open Disk

variable {d d₁ d₂ d' d'' : Disk} {p q out : FilePath} {text : String} {name : DiskName}
  {names : List DiskName} {files : List (FilePath × String)} {content : Content}

/-- The file was written under the name, after directories had been made. -/
inductive Wrote : Disk → FilePath → String → DiskName → Disk → Prop
  | intro {d d₁ : Disk} {p : FilePath} {text : String} {name : DiskName} (made : d.Grows [] d₁)
    (nul_notMem : Char.ofNat 0 ∉ p.text.toList) (ne_empty : p.text ≠ "")
    (size_lt : p.text.utf8ByteSize < 4096)
    (place_eq : d₁.place maxLinks (d₁.start p) (steps p.text) = .ok name) :
    Wrote d p text name (d₁.setItem name (.file (.text text)))

/-- A file is written once the directory that it lies in is made. -/
theorem writeFile_eq_ok : writeFile d p text = (.ok (), d') ↔
    ∃ d₁, p.parent?.elim (.ok (), d) d.makeDirectories = (.ok (), d₁) ∧
      d₁.writeText p text = .ok d' := by
  have written (d₁ : Disk) :
      writeFile.write p text d₁ = (.ok (), d') ↔ d₁.writeText p text = .ok d' := by
    unfold writeFile.write
    cases d₁.writeText p text <;> simp
  unfold writeFile
  cases p.parent? with
  | none => simp [written]
  | some parent => rcases hm : d.makeDirectories parent with ⟨e | _, d₁⟩ <;> simp [hm, written]

theorem exists_wrote (h : writeFile d p text = (.ok (), d')) : ∃ name, Wrote d p text name d' := by
  obtain ⟨d₁, hmade, hw⟩ := writeFile_eq_ok.1 h
  obtain ⟨hz, he, hb, name, hp, rfl⟩ := writeText_eq_ok.1 hw
  refine ⟨name, .intro ?_ hz he hb hp⟩
  cases hparent : p.parent? with
  | none =>
    rw [hparent] at hmade
    cases hmade
    exact .refl d
  | some parent =>
    rw [hparent] at hmade
    have hg : d.Grows [] (d.makeDirectories parent).2 := grows_makeDirectoriesAt
    rwa [show d.makeDirectories parent = (.ok (), d₁) from hmade] at hg

namespace Wrote

theorem item?_eq (h : Wrote d p text name d') : d'.item? name = some (.file (.text text)) := by
  obtain ⟨-, -, -, -, hp⟩ := h
  rw [item?_setItem (item?_of_place hp).1, if_pos rfl]

theorem exists_place (h : Wrote d p text name d') : ∃ d₁, d.Grows [] d₁ ∧ d₁.Grows [name] d' ∧
    d₁.place maxLinks (d₁.start p) (steps p.text) = .ok name := by
  obtain ⟨hg, -, -, -, hp⟩ := h
  exact ⟨_, hg, grows_of_place hp _, hp⟩

theorem grows (h : Wrote d p text name d') : d.Grows [name] d' := by
  obtain ⟨d₁, hg, hg', -⟩ := h.exists_place
  exact hg.trans hg'

theorem shows (h : Wrote d p text name d') (hg : d'.Grows names d'')
    (hi : d''.item? name = some (.file content)) : d''.Shows p name content := by
  obtain ⟨d₁, -, hg', hp⟩ := h.exists_place
  have hgrows := hg'.trans hg
  obtain ⟨-, hz, he, hb, -⟩ := h
  refine ⟨hi, find_eq_ok.2 ⟨hz, he, hb, ?_⟩⟩
  rw [hgrows.start]
  exact walk_of_place hp hgrows hi

/-- A file beneath a directory without links has the name that its path tells. -/
theorem eq_of_join (h : Wrote d (out.join q) text name d') (hl : d.LinkFree out)
    (hq : ¬ q.isAbsolute) (hn : steps q.text ≠ []) (hs : ∀ s ∈ steps q.text, IsPiece s) :
    ∃ dir, d'.Leads out dir ∧ name = dir ++ steps q.text := by
  obtain ⟨d₁, hg, hg', hp⟩ := h.exists_place
  have slash : steps q.text ≠ [""] := by
    intro he
    exact (hs "" (by simp [he])).ne_empty rfl
  rw [steps_join hq, start_join hq] at hp
  obtain ⟨links, dir, hw, hp⟩ := place_append hn slash hp
  have hdir : d₁.Leads out dir := hw
  refine ⟨dir, hdir.grows hg', eq_of_place hs (fun way target => ?_) hp⟩
  rw [ne_eq, hg.link_iff]
  exact hl hg hdir way target

end Wrote

theorem exists_of_mem_right {α β : Type} {R : α → β → Prop} {as : List α} {bs : List β} {b : β}
    (h : List.Forall₂ R as bs) (hb : b ∈ bs) : ∃ a ∈ as, R a b := by
  induction h with
  | nil => cases hb
  | cons hr _ ih =>
    rcases List.mem_cons.1 hb with rfl | hb
    · exact ⟨_, List.mem_cons_self, hr⟩
    · obtain ⟨a, ha, hab⟩ := ih hb
      exact ⟨a, List.mem_cons_of_mem _ ha, hab⟩

theorem pairwise_of_forall₂ {α β : Type} {R : α → β → Prop} {P : α → α → Prop} {Q : β → β → Prop}
    {as : List α} {bs : List β} (h : List.Forall₂ R as bs) (hp : as.Pairwise P)
    (hq : ∀ {a a' b b'}, R a b → R a' b' → P a a' → Q b b') : bs.Pairwise Q := by
  induction h with
  | nil => exact .nil
  | cons hr hrest ih =>
    obtain ⟨hfirst, hp⟩ := List.pairwise_cons.1 hp
    refine List.pairwise_cons.2 ⟨fun b hb => ?_, ih hp⟩
    obtain ⟨a, ha, hab⟩ := exists_of_mem_right hrest hb
    exact hq hr hab (hfirst a ha)

/-- The files were written in turn, each under its name. -/
inductive Writes : Disk → List (FilePath × String) → List DiskName → Disk → Prop
  | nil (d : Disk) : Writes d [] [] d
  | cons {d d₁ d' : Disk} {p : FilePath} {text : String} {name : DiskName}
    {files : List (FilePath × String)} {names : List DiskName} :
    Wrote d p text name d₁ → Writes d₁ files names d' →
      Writes d ((p, text) :: files) (name :: names) d'

theorem exists_writes (h : writeFiles d files = (.ok (), d')) :
    ∃ names, Writes d files names d' := by
  induction files generalizing d with
  | nil =>
    cases h
    exact ⟨[], .nil _⟩
  | cons f files ih =>
    obtain ⟨p, text⟩ := f
    unfold writeFiles at h
    split at h
    · rename_i d₁ hw
      obtain ⟨name, hname⟩ := exists_wrote hw
      obtain ⟨names, hnames⟩ := ih h
      exact ⟨name :: names, .cons hname hnames⟩
    · cases h

namespace Writes

theorem grows (h : Writes d files names d') : d.Grows names d' := by
  induction h with
  | nil => exact .refl _
  | cons hw _ ih => exact hw.grows.trans ih

theorem found (h : Writes d files names d') :
    List.Forall₂ (fun f name => ∃ content, d'.Shows f.1 name content) files names := by
  induction h with
  | nil => exact .nil
  | cons hw hws ih =>
    obtain ⟨content, hi⟩ := hws.grows.file hw.item?_eq
    exact .cons ⟨content, hw.shows hws.grows hi⟩ ih

/-- Files under different names keep their texts. -/
theorem kept (h : Writes d files names d') (hn : names.Nodup) :
    List.Forall₂ (fun f name => d'.Shows f.1 name (.text f.2)) files names := by
  induction h with
  | nil => exact .nil
  | cons hw hws ih =>
    obtain ⟨hnew, hrest⟩ := List.nodup_cons.1 hn
    exact .cons (hw.shows hws.grows (hws.grows.file_eq hnew hw.item?_eq)) (ih hrest)

theorem pages {ss : List Schema}
    (h : Writes d (ss.map fun s => (out.join s.pagePath, s.page)) names d') (hl : d.LinkFree out)
    (hs : ∀ s ∈ ss, IsPiece s.category.name) : List.Forall₂ (fun s name => ∃ dir,
      d'.Leads out dir ∧ name = dir ++ [s.category.name, s.stem ++ ".md"]) ss names := by
  induction ss generalizing d names with
  | nil =>
    cases h
    exact .nil
  | cons s ss ih =>
    cases h with
    | cons hw hws =>
      have piece := hs s List.mem_cons_self
      have hsteps := Schema.steps_pagePath piece
      obtain ⟨dir, hdir, hname⟩ := hw.eq_of_join hl (Schema.not_isAbsolute_pagePath piece)
        (by simp [hsteps]) (by simp [hsteps, piece, s.isPiece_pageName])
      refine .cons ⟨dir, hdir.grows hws.grows, hsteps ▸ hname⟩ ?_
      exact ih hws (hl.grows hw.grows) fun t ht => hs t (List.mem_cons_of_mem s ht)

end Writes

/-- What stands behind a written site: the catalog was written, then the pages of schemas that do
not collide. -/
theorem exists_of_writeSite {o : SiteOptions} {ss : List Schema} {r : SiteReport}
    (h : writeSite o out ss d = (.ok r, d')) :
    r = ⟨out.join ⟨o.catalogFile⟩, ss.map (out.join ·.pagePath)⟩ ∧
    (ss.Pairwise fun s t => ¬ s.pagePath.same t.pagePath) ∧
    ∃ d₁ name names, Wrote d r.catalog (catalog o.catalog ss) name d₁ ∧
      Writes d₁ (ss.map fun s => (out.join s.pagePath, s.page)) names d' := by
  unfold writeSite at h
  split at h
  · cases h
  rename_i hc
  split at h
  · rename_i d₂ hw
    cases h
    obtain ⟨_, hwrites⟩ := exists_writes hw
    cases hwrites with
    | cons hcatalog hpages => exact ⟨rfl, apart_of_collision? hc, _, _, _, hcatalog, hpages⟩
  · cases h

/-- Pages that do not collide lie in different files and keep their texts. -/
theorem Writes.pages_kept {ss : List Schema}
    (hapart : ss.Pairwise fun s t => ¬ s.pagePath.same t.pagePath)
    (hs : ∀ s ∈ ss, IsPiece s.category.name) (hl : d.LinkFree out)
    (h : Writes d (ss.map fun s => (out.join s.pagePath, s.page)) names d') :
    names.Nodup ∧
      List.Forall₂ (fun s name => d'.Shows (out.join s.pagePath) name (.text s.page)) ss names := by
  have hnodup : names.Nodup := by
    refine pairwise_of_forall₂ (h.pages hl hs) hapart ?_
    rintro s t _ _ ⟨dir, hdir, rfl⟩ ⟨dir', hdir', rfl⟩ hst he
    exact hst (Schema.same_pagePath (List.append_cancel_left (hdir.unique hdir' ▸ he)))
  exact ⟨hnodup, List.forall₂_map_left_iff.1 (h.kept hnodup)⟩

theorem shows_pages {o : SiteOptions} {ss : List Schema} {r : SiteReport}
    (h : writeSite o out ss d = (.ok r, d')) :
    List.Forall₂ (fun s p => p = out.join s.pagePath ∧ ∃ name content, d'.Shows p name content) ss
      r.pages := by
  obtain ⟨rfl, -, d₁, name, names, -, hpages⟩ := exists_of_writeSite h
  refine List.forall₂_map_right_iff.2 (List.forall₂_same.2 fun s hs => ⟨rfl, ?_⟩)
  obtain ⟨name, -, hname⟩ := exists_of_mem_right hpages.found.flip (List.mem_map_of_mem hs)
  exact ⟨name, hname⟩

end Site

open Site Disk

/-- A site that is written stays as it was written. Every page holds the text of its schema, in the
order of the schemas, and no two of them are one file; the catalog holds its text unless a page is
the same file; and no other file is made, changed or removed. All schemas that were read have one
piece as their category. -/
theorem writeSite_keeps {o : SiteOptions} {out : FilePath} {ss : List Schema} {d d' : Disk}
    {r : SiteReport} (hs : ∀ s ∈ ss, IsPiece s.category.name) (hl : d.LinkFree out)
    (h : writeSite o out ss d = (.ok r, d')) :
    r.catalog = out.join ⟨o.catalogFile⟩ ∧
    ((∀ p ∈ r.pages, ¬ d'.Coincide r.catalog p) →
      d'.readText r.catalog = .ok (catalog o.catalog ss)) ∧
    List.Forall₂ (fun s p => p = out.join s.pagePath ∧ d'.readText p = .ok s.page) ss r.pages ∧
    r.pages.Pairwise (fun p q => ¬ d'.Coincide p q) ∧
    ∀ name, (∀ p ∈ r.catalog :: r.pages, ∀ item, d'.find p true ≠ .ok (name, item)) →
      d'.item? name = d.item? name ∨ d.item? name = none ∧ d'.item? name = some .directory := by
  obtain ⟨rfl, hapart, d₁, name, names, hcatalog, hpages⟩ := exists_of_writeSite h
  obtain ⟨hnodup, hkept⟩ := hpages.pages_kept hapart hs (hl.grows hcatalog.grows)
  have hshows : List.Forall₂ (fun name p => ∃ text, d'.Shows p name (.text text)) names
      (ss.map (out.join ·.pagePath)) :=
    List.forall₂_map_right_iff.2 (hkept.flip.imp fun name s hm => ⟨s.page, hm⟩)
  obtain ⟨content, hi⟩ := hpages.grows.file hcatalog.item?_eq
  have hfound := hcatalog.shows hpages.grows hi
  refine ⟨rfl, fun hapart => ?_, ?_, ?_, fun other hother => ?_⟩
  · have hnew : name ∉ names := by
      intro hm
      obtain ⟨p, hp, _, hs⟩ := exists_of_mem_right hshows.flip hm
      exact hapart p hp (hfound.coincide hs)
    have hi := hpages.grows.file_eq hnew hcatalog.item?_eq
    exact readText_eq_ok.2 ⟨name, (hcatalog.shows hpages.grows hi).find_eq⟩
  · refine List.forall₂_map_right_iff.2 (List.forall₂_same.2 fun s hm => ⟨rfl, ?_⟩)
    obtain ⟨name, -, hs⟩ := exists_of_mem_right hkept.flip hm
    exact readText_eq_ok.2 ⟨name, hs.find_eq⟩
  · refine pairwise_of_forall₂ hshows hnodup ?_
    rintro name name' p q ⟨_, hp⟩ ⟨_, hq⟩ hne hpq
    exact hne (hpq.eq hp hq)
  · -- whatever was written is found by its path, and the other name is found by none
    refine (hcatalog.grows.trans hpages.grows).item?_eq_or ?_
    intro hm
    rcases List.mem_cons.1 hm with rfl | hm
    · exact hother _ List.mem_cons_self _ hfound.find_eq
    · obtain ⟨p, hp, _, hs⟩ := exists_of_mem_right hshows.flip hm
      exact hother p (List.mem_cons_of_mem _ hp) _ hs.find_eq

def Booklet.disk : Disk := ⟨[(["out"], .directory)], []⟩

def Booklet.schema : Schema := .ofTree ⟨"o/c/m.yaml"⟩ ⟨"o"⟩ (.mapping [("title", .string "M")])

theorem Booklet.linkFree : disk.LinkFree ⟨"out"⟩ := Linkless.linkFree (by simp [Linkless, disk])

def Booklet.other : Schema := .ofTree ⟨"o/e/n.yaml"⟩ ⟨"o"⟩ (.mapping [("title", .string "N")])

def Booklet.written : Disk :=
  (writeFiles disk (Site.files .standard ⟨"out"⟩ [schema, other])).2

theorem Booklet.site_kept : (∀ s ∈ [schema, other], IsPiece s.category.name) ∧
    disk.LinkFree ⟨"out"⟩ ∧
    writeSite .standard ⟨"out"⟩ [schema, other] disk =
      (.ok ⟨⟨"out/ontology-reference.md"⟩, [⟨"out/c/m.md"⟩, ⟨"out/e/n.md"⟩]⟩, written) ∧
    written.readText ⟨"out/ontology-reference.md"⟩ = .ok (catalog .standard [schema, other]) ∧
    written.readText ⟨"out/c/m.md"⟩ = .ok schema.page ∧
    written.readText ⟨"out/e/n.md"⟩ = .ok other.page ∧
    ¬ written.Coincide ⟨"out/c/m.md"⟩ ⟨"out/e/n.md"⟩ := by
  have hs : ∀ s ∈ [schema, other], IsPiece s.category.name :=
    List.forall_mem_cons.2 ⟨Schema.isPiece_category _ _ _,
      List.forall_mem_singleton.2 (Schema.isPiece_category _ _ _)⟩
  have hcollision : collision? [schema, other] = none := by
    rw [collision?, List.mergeSort_of_pairwise (by decide +kernel)]
    decide +kernel
  have hfiles : writeFiles disk (Site.files .standard ⟨"out"⟩ [schema, other]) =
      (.ok (), written) := Prod.ext (by decide +kernel) rfl
  have hr : writeSite .standard ⟨"out"⟩ [schema, other] disk =
      (.ok ⟨⟨"out/ontology-reference.md"⟩, [⟨"out/c/m.md"⟩, ⟨"out/e/n.md"⟩]⟩, written) := by
    have hreport : (⟨⟨"out/ontology-reference.md"⟩, [⟨"out/c/m.md"⟩, ⟨"out/e/n.md"⟩]⟩ : SiteReport) =
        ⟨FilePath.join ⟨"out"⟩ ⟨"ontology-reference.md"⟩,
          [schema, other].map (FilePath.join ⟨"out"⟩ ·.pagePath)⟩ := by decide +kernel
    rw [writeSite, hcollision, hreport]
    simp only [hfiles]
    rfl
  obtain ⟨-, hcatalog, hpages, hapart, -⟩ := writeSite_keeps hs linkFree hr
  have hfound : ∀ p ∈ [(⟨"out/c/m.md"⟩ : FilePath), ⟨"out/e/n.md"⟩],
      written.find ⟨"out/ontology-reference.md"⟩ true ≠ written.find p true := by decide +kernel
  refine ⟨hs, linkFree, hr, hcatalog fun p hp => ?_, ?_⟩
  · rintro ⟨x, hx, hy⟩
    exact hfound p hp (hx.trans hy.symm)
  · obtain ⟨hfirst, hrest⟩ := List.forall₂_cons.1 hpages
    obtain ⟨hsecond, -⟩ := List.forall₂_cons.1 hrest
    exact ⟨hfirst.2, hsecond.2, List.rel_of_pairwise_cons hapart List.mem_cons_self⟩

/-- The catalog is overwritten by the page that lies where it does. -/
theorem Booklet.catalog_lost : disk.LinkFree ⟨"out"⟩ ∧
    (writeSite ⟨"c/m.md", .standard⟩ ⟨"out"⟩ [schema] disk).1 =
      .ok ⟨⟨"out/c/m.md"⟩, [⟨"out/c/m.md"⟩]⟩ ∧
    (writeSite ⟨"c/m.md", .standard⟩ ⟨"out"⟩ [schema] disk).2.readText ⟨"out/c/m.md"⟩ ≠
      .ok (catalog .standard [schema]) :=
  ⟨linkFree, by decide +kernel⟩

end Schemata
