import Schemata.Proofs.Command.Docs
import Schemata.Proofs.File.Rewriting
import Schemata.Proofs.Schema.Ways

/-!
# Documentation once more

What a run of documentation adds to a disk are directories and the files of the site. Unless one of
these files is itself found by discovery, the next run finds the same schemas, and writes them to
the same files; in the end each file holds what was written to it last, as it did before.
-/

namespace Schemata

open FilePath Disk

variable {d d' e : Disk} {p out : FilePath} {text : String} {name : DiskName}
  {names : List DiskName} {files : List (FilePath × String)} {content : Content}

namespace Site

theorem isDirectory_of_writeFile {parent : FilePath} (h : writeFile d p text = (.ok (), d'))
    (hp : p.parent? = some parent) : parent.text = "" ∨ d'.isDirectory parent := by
  obtain ⟨d₁, hmade, hw⟩ := writeFile_eq_ok.1 h
  obtain ⟨-, -, -, name, hplace, rfl⟩ := writeText_eq_ok.1 hw
  rw [hp] at hmade
  exact (isDirectory_of_makeDirectoriesAt hmade).imp_right fun hdir =>
    isDirectory_grows hdir (grows_of_place hplace _)

theorem distinct_writeFile (hd : d.Distinct) (h : writeFile d p text = (.ok (), d')) :
    d'.Distinct := by
  obtain ⟨d₁, hmade, hw⟩ := writeFile_eq_ok.1 h
  obtain ⟨-, -, -, name, -, rfl⟩ := writeText_eq_ok.1 hw
  refine distinct_setItem ?_
  cases hparent : p.parent? with
  | none =>
    rw [hparent] at hmade
    cases hmade
    exact hd
  | some parent =>
    rw [hparent] at hmade
    have hmore : (d.makeDirectories parent).2.Distinct := distinct_makeDirectoriesAt hd
    rwa [show d.makeDirectories parent = (.ok (), d₁) from hmade] at hmore

/-- A file that was written can be written again. -/
theorem Wrote.again (h : Wrote d p text name d')
    (hdirs : ∀ parent, p.parent? = some parent → parent.text = "" ∨ d'.isDirectory parent)
    (hg : d'.Grows names e) (hi : e.item? name = some (.file content)) :
    writeFile e p text = (.ok (), e.setItem name (.file (.text text))) := by
  obtain ⟨d₁, -, hg', hp⟩ := h.exists_place
  have hgrows := hg'.trans hg
  obtain ⟨-, hz, he, hb, -⟩ := h
  have hplace : e.place maxLinks (e.start p) (steps p.text) = .ok name := by
    rw [hgrows.start]
    exact place_again hp hgrows hi
  refine writeFile_eq_ok.2 ⟨e, ?_, writeText_eq_ok.2 ⟨hz, he, hb, name, hplace, rfl⟩⟩
  cases hparent : p.parent? with
  | none => rfl
  | some parent =>
    exact makeDirectoriesAt_of_isDirectory
      ((hdirs parent hparent).imp_right fun hdir => isDirectory_grows hdir hg)

/-- The second disk is the first one but for what some files hold, which both disks have. -/
structure Stale (d : Disk) (names : List DiskName) (e : Disk) : Prop where
  current : e.current = d.current
  keys : e.items.map (·.1) = d.items.map (·.1)
  files : ∀ name ∈ names, (∃ content, d.item? name = some (.file content)) ∧
    ∃ content, e.item? name = some (.file content)
  others : ∀ name ∉ names, e.items.lookup name = d.items.lookup name

namespace Stale

theorem grows (h : Stale d names e) : d.Grows names e := by
  refine ⟨h.current, fun name => ?_⟩
  by_cases hn : name ∈ names
  · obtain ⟨⟨before, hb⟩, after, ha⟩ := h.files name hn
    rw [hb, ha]
    exact .replaced before after hn
  · have same : e.item? name = d.item? name := by rw [item?, item?, h.others name hn]
    rw [same]
    exact .kept _

theorem eq (h : Stale d [] e) (hd : d.Distinct) : e = d := by
  have hitems : e.items = d.items :=
    items_eq h.keys (h.keys ▸ hd) fun name => h.others name List.not_mem_nil
  have hcurrent := h.current
  cases e
  cases d
  cases hitems
  cases hcurrent
  rfl

/-- Writing a file as it is on the first disk leaves fewer files that may differ. -/
theorem setItem (h : Stale d (name :: names) e) (hn : name ≠ [])
    (hi : name ∉ names → d.item? name = some (.file content)) :
    Stale d names (e.setItem name (.file content)) := by
  obtain ⟨-, held, hheld⟩ := h.files name List.mem_cons_self
  have known : e.items.any (·.1 = name) :=
    List.any_eq_true.2 ⟨_, mem_items_of_item? hheld hn, by simp⟩
  refine ⟨?_, (keys_setItem known).trans h.keys, fun other ho => ⟨?_, ?_⟩, fun other ho => ?_⟩
  · rw [Disk.setItem, if_pos known]
    exact h.current
  · exact (h.files other (List.mem_cons_of_mem name ho)).1
  · rw [item?_setItem hn]
    split
    · exact ⟨content, rfl⟩
    · exact (h.files other (List.mem_cons_of_mem name ho)).2
  · rw [lookup_setItem]
    split
    · rename_i he
      subst he
      have hsame := hi ho
      rw [item?, if_neg hn] at hsame
      exact hsame.symm
    · rename_i he
      exact h.others other (by simp [he, ho])

end Stale

theorem distinct_writeFiles (hd : d.Distinct) (h : writeFiles d files = (.ok (), d')) :
    d'.Distinct := by
  induction files generalizing d with
  | nil =>
    cases h
    exact hd
  | cons f files ih =>
    obtain ⟨p, text⟩ := f
    unfold writeFiles at h
    split at h
    · rename_i d₁ hw
      exact ih (distinct_writeFile hd hw) h
    · cases h

/-- Files that were written in turn can be written in turn again, and then hold what they held
before, whatever they have held in between. -/
theorem exists_writes_again (hd : d.Distinct) (h : writeFiles d files = (.ok (), d')) :
    ∃ names, Writes d files names d' ∧
      ∀ e, Stale d' names e → writeFiles e files = (.ok (), d') := by
  induction files generalizing d with
  | nil =>
    cases h
    exact ⟨[], .nil _, fun e he => by rw [he.eq hd]; rfl⟩
  | cons f files ih =>
    obtain ⟨p, text⟩ := f
    unfold writeFiles at h
    split at h
    · rename_i d₁ hw
      obtain ⟨name, hwrote⟩ := exists_wrote hw
      obtain ⟨names, hwrites, hagain⟩ := ih (distinct_writeFile hd hw) h
      refine ⟨name :: names, .cons hwrote hwrites, fun e he => ?_⟩
      obtain ⟨-, held, hheld⟩ := he.files name List.mem_cons_self
      have hfirst := hwrote.again (fun _ => isDirectory_of_writeFile hw)
        (hwrites.grows.trans he.grows) hheld
      have hn : name ≠ [] := by
        rintro rfl
        cases hheld
      have hrest := he.setItem hn fun hnew => hwrites.grows.file_eq hnew hwrote.item?_eq
      rw [writeFiles, hfirst]
      exact hagain _ hrest
    · cases h

end Site

namespace Disk

variable {root : FilePath} {suffix : String} {ways : List DiskName} {way dir : DiskName}

/-- None of the files lies beneath the directory under a name with the ending. -/
def OutOfSight (d : Disk) (root : FilePath) (suffix : String) (paths : List FilePath) : Prop :=
  ∀ p ∈ paths, ∀ dir way item, d.find root true = .ok (dir, .directory) →
    d.find p true = .ok (dir ++ way, item) → ¬ EndsIn suffix way

theorem outOfSight_of_ending {paths : List FilePath}
    (h : ∀ p ∈ paths, ∃ name, (d.find p true).map (·.1) = .ok name ∧ ¬ EndsIn suffix name) :
    d.OutOfSight root suffix paths := by
  intro p hp dir way item _ hfind hends
  obtain ⟨name, hname, hother⟩ := h p hp
  rw [hfind] at hname
  cases hname
  refine hother ?_
  rwa [EndsIn, List.getLast?_append_of_ne_nil dir hends.ne_nil]

theorem Grows.stands (hg : d.Grows names d') (h : d.Stands dir) : d'.Stands dir :=
  fun above ha => hg.directory (h above ha)

theorem Grows.reaches (hg : d.Grows names d') (h : d.Reaches (name, .file content))
    (hn : name ∉ names) : d'.Reaches (name, .file content) :=
  ⟨hg.file_eq hn h.item_eq, hg.stands h.stands⟩

theorem Grows.find_directory (hg : d.Grows names d')
    (h : d.find p true = .ok (dir, .directory)) : d'.find p true = .ok (dir, .directory) := by
  obtain ⟨hz, he, hb, hw⟩ := find_eq_ok.1 h
  refine find_eq_ok.2 ⟨hz, he, hb, ?_⟩
  rw [hg.start]
  exact hg.walk hw

/-- A file that is not among those written is still there, and no other one is new. -/
theorem Grows.hasBeneath_iff (hg : d.Grows names d')
    (hroot : d.find root true = .ok (dir, .directory)) (hn : dir ++ way ∉ names) :
    d'.HasBeneath root way content ↔ d.HasBeneath root way content := by
  rw [Disk.hasBeneath_iff hroot, Disk.hasBeneath_iff (hg.find_directory hroot)]
  refine ⟨fun hi => ?_, hg.file_eq hn⟩
  rcases hg.item?_eq_or hn with he | ⟨-, he⟩
  · rwa [he] at hi
  · rw [he] at hi
    cases hi

theorem load_congr_of_find (h : d'.find p true = d.find p true) :
    Tree.load d' p = Tree.load d p := by
  unfold Tree.load readText
  rw [h]

/-- As long as no file that is found is written, the same files are found and the same loaded. -/
theorem Grows.discover_eq (hd : d.Grounded) (hd' : d'.Distinct) (hg : d.Grows names d')
    (hroot : d.find root true = .ok (dir, .directory))
    (hn : ∀ way, EndsIn suffix way → dir ++ way ∉ names) :
    d'.discover root suffix = d.discover root suffix := by
  obtain ⟨ways, hways, hfound⟩ := hd.discover_eq hroot suffix
  obtain ⟨ways', hways', hfound'⟩ := discover_eq_of_isWay hd' (hg.find_directory hroot)
    fun way content hends hfile =>
      ((hg.hasBeneath_iff hroot (hn way hends)).1 hfile).isWay hd hends.ne_nil
  rw [hfound, hfound', hways'.unique hways fun way hends =>
    exists_congr fun content => hg.hasBeneath_iff hroot (hn way hends)]

theorem Grows.load_eq (hd : d.Grounded) (hg : d.Grows names d')
    (hroot : d.find root true = .ok (dir, .directory)) (hends : EndsIn suffix way)
    (hfile : d.HasBeneath root way content) (hn : dir ++ way ∉ names) :
    Tree.load d' (pathBeneath root way) = Tree.load d (pathBeneath root way) := by
  have hway := hfile.isWay hd hends.ne_nil
  have hreaches : d.Reaches (dir ++ way, .file content) :=
    hd.reaches ((Disk.hasBeneath_iff hroot).1 hfile)
  refine load_congr_of_find ?_
  rw [find_pathBeneath hroot hway (hfile.isName hd) hreaches,
    find_pathBeneath (hg.find_directory hroot) hway (hfile.isName hd) (hg.reaches hreaches hn)]

end Disk

namespace Docs

variable {root : FilePath} {suffix : String} {ps : List FilePath} {s : Settings} {c : Console}

theorem loadAll_congr (h : ∀ p ∈ ps, Tree.load d' p = Tree.load d p) :
    loadAll d' root ps = loadAll d root ps := by
  induction ps with
  | nil => rfl
  | cons p ps ih =>
    obtain ⟨hp, hps⟩ := List.forall_mem_cons.1 h
    rw [loadAll_cons, loadAll_cons, Schema.load, Schema.load, hp, ih hps]

def outputs (s : Settings) (root out : FilePath) (suffix : String) (d : Disk) : List FilePath :=
  match d.discover root suffix with
  | .ok ps => (Site.files s.site out (loadAll d root ps).1).map (·.1)
  | .error _ => []

theorem writeSite_again {o : SiteOptions} {ss : List Schema} {r : SiteReport} (hd : d.Distinct)
    (h : writeSite o out ss d = (.ok r, d')) :
    d'.Distinct ∧ ∃ names, Site.Writes d (Site.files o out ss) names d' ∧
      writeSite o out ss d' = (.ok r, d') := by
  unfold writeSite at h
  split at h
  · cases h
  · rename_i hc
    split at h
    · rename_i d₂ hw
      cases h
      obtain ⟨names, hwrites, hagain⟩ := Site.exists_writes_again hd hw
      refine ⟨Site.distinct_writeFiles hd hw, names, hwrites, ?_⟩
      have hstale : Site.Stale d' names d' := by
        refine ⟨rfl, rfl, fun name hname => ?_, fun name _ => rfl⟩
        obtain ⟨f, -, content, hshows⟩ := Site.exists_of_mem_right hwrites.found hname
        exact ⟨⟨content, hshows.item?_eq⟩, content, hshows.item?_eq⟩
      rw [writeSite, hc, hagain d' hstale]
    · cases h

end Docs

/-- Documentation is idempotent. Once a run has come to its report, and as long as none of the files
that it wrote is found by discovery itself, another run on the disk that it left finds and skips the
same files, writes the same files with the same contents, leaves the disk as it is, and prints and
returns the same. -/
theorem Command.docs_idempotent {s : Settings} {c : Console} {root out : Option FilePath}
    {suffix : Option String} (hd : d.Grounded)
    (hends : (runTask s c d (.docs root out suffix)).result = .ok () ∨
      ∃ ps, (runTask s c d (.docs root out suffix)).result = .error (.skipped ps))
    (hout : (runTask s c d (.docs root out suffix)).disk.OutOfSight
      (root.getD s.paths.ontologyDir) (s.suffix suffix)
      (Docs.outputs s (root.getD s.paths.ontologyDir) (out.getD s.paths.docsDir) (s.suffix suffix)
        d)) :
    runTask s c (runTask s c d (.docs root out suffix)).disk (.docs root out suffix) =
      runTask s c d (.docs root out suffix) ∧
    ∃ ps ss skipped r d', (runTask s c d (.docs root out suffix)).disk = d' ∧
      d.discover (root.getD s.paths.ontologyDir) (s.suffix suffix) = .ok ps ∧
      d'.discover (root.getD s.paths.ontologyDir) (s.suffix suffix) = .ok ps ∧
      Docs.loadAll d (root.getD s.paths.ontologyDir) ps = (ss, skipped) ∧
      Docs.loadAll d' (root.getD s.paths.ontologyDir) ps = (ss, skipped) ∧
      writeSite s.site (out.getD s.paths.docsDir) ss d = (.ok r, d') ∧
      writeSite s.site (out.getD s.paths.docsDir) ss d' = (.ok r, d') := by
  simp only [runTask] at hends hout ⊢
  generalize root.getD s.paths.ontologyDir = root at *
  generalize out.getD s.paths.docsDir = out at *
  generalize s.suffix suffix = suffix at *
  obtain ⟨notices, -, ⟨e, -, hrun⟩ | ⟨ps, hfound, ⟨e, d', -, hrun⟩ | ⟨r, d', hwrite, hrun⟩⟩⟩ :=
    Docs.run_cases s c root out suffix d
  · rw [hrun] at hends
    simp at hends
  · rw [hrun] at hends
    simp at hends
  rw [hrun] at hout ⊢
  obtain ⟨hd', names, hwrites, hwrite'⟩ := Docs.writeSite_again hd.distinct hwrite
  obtain ⟨dir, hroot⟩ := exists_root_of_discover hfound
  have hg : d.Grows names d' := hwrites.grows
  have hn : ∀ way, EndsIn suffix way → dir ++ way ∉ names := by
    intro way hends hmem
    obtain ⟨f, hf, content, hshows⟩ := Site.exists_of_mem_right hwrites.found hmem
    refine hout f.1 ?_ dir way _ (hg.find_directory hroot) hshows.find_eq hends
    rw [Docs.outputs, hfound]
    exact List.mem_map_of_mem hf
  have hfound' : d'.discover root suffix = .ok ps := by
    rw [hg.discover_eq hd hd' hroot hn]
    exact hfound
  have hload : Docs.loadAll d' root ps = Docs.loadAll d root ps := by
    obtain ⟨ways, hways, rfl⟩ := exists_finds hd hfound
    refine Docs.loadAll_congr (List.forall_mem_map.2 fun way hway => ?_)
    obtain ⟨hends, content, hfile⟩ := (hways.mem_iff way).1 hway
    exact hg.load_eq hd hroot hends hfile (hn way hends)
  have hsame : Docs.run s c root out suffix d' = Docs.run s c root out suffix d := by
    simp only [Docs.run, hfound, hfound', hload, hwrite, hwrite']
  exact ⟨hsame.trans hrun, ps, _, _, r, d', rfl, hfound, hfound', rfl, hload, hwrite, hwrite'⟩

def Reissue.disk : Disk :=
  ⟨[(["o"], .directory), (["o", "a.json"], .file (.text "\x7b\x7d")),
    (["o", "b.json"], .file (.text "\x7b"))], []⟩

def Reissue.run (d : Disk) : TaskResult :=
  Command.runTask .standard ⟨.human, false, false, 0⟩ d
    (.docs (some ⟨"o"⟩) (some ⟨"o/d"⟩) (some ".json"))

theorem Reissue.same_run : disk.Grounded ∧ (run disk).result = .error (.skipped [⟨"o/b.json"⟩]) ∧
    (run disk).disk.OutOfSight ⟨"o"⟩ ".json" (Docs.outputs .standard ⟨"o"⟩ ⟨"o/d"⟩ ".json" disk) ∧
    run (run disk).disk = run disk := by
  have hd : disk.Grounded := by decide +kernel
  have hroot : disk.find ⟨"o"⟩ true = .ok (["o"], .directory) := by decide +kernel
  have hfound : disk.discover ⟨"o"⟩ ".json" = .ok [⟨"o/a.json"⟩, ⟨"o/b.json"⟩] :=
    Disk.discover_of_sorted hroot (by decide +kernel) (by decide +kernel)
  have hwrite : (writeSite Settings.standard.site ⟨"o/d"⟩
      (Docs.loadAll disk ⟨"o"⟩ [⟨"o/a.json"⟩, ⟨"o/b.json"⟩]).1 disk).1 =
      .ok ⟨⟨"o/d/ontology-reference.md"⟩, [⟨"o/d/o/a.md"⟩]⟩ := by decide +kernel
  obtain ⟨notices, -, hrun⟩ :=
    Docs.run_of_written hfound (Prod.ext hwrite rfl) ⟨.human, false, false, 0⟩
  change run disk = _ at hrun
  have hresult : (run disk).result = .error (.skipped [⟨"o/b.json"⟩]) := by
    rw [hrun]
    change Docs.result _ = _
    decide +kernel
  have houtputs : Docs.outputs .standard ⟨"o"⟩ ⟨"o/d"⟩ ".json" disk =
      [⟨"o/d/ontology-reference.md"⟩, ⟨"o/d/o/a.md"⟩] := by
    rw [Docs.outputs, hfound]
    decide +kernel
  have hout : (run disk).disk.OutOfSight ⟨"o"⟩ ".json"
      (Docs.outputs .standard ⟨"o"⟩ ⟨"o/d"⟩ ".json" disk) := by
    rw [houtputs, hrun]
    refine Disk.outOfSight_of_ending ?_
    rw [List.forall_mem_cons, List.forall_mem_singleton]
    refine ⟨⟨["o", "d", "ontology-reference.md"], ?_, by decide +kernel⟩,
      ⟨["o", "d", "o", "a.md"], ?_, by decide +kernel⟩⟩
    all_goals
      change (Disk.find (writeSite _ _ _ _).2 _ _).map _ = _
      decide +kernel
  exact ⟨hd, hresult, hout, (Command.docs_idempotent hd (.inr ⟨_, hresult⟩) hout).1⟩

end Schemata
