import Mathlib.Data.List.Basic
import Schemata.Page.Site
import Schemata.Proofs.File.Order

/-!
# Pages that several schemas have

A site is refused as a collision just in case two of its schemas have one page, and then before
anything is written. The page that the refusal names is the first such page in the order of paths,
and the sources that it names are all the schemas that have it.
-/

namespace Schemata

namespace Site

variable {o : SiteOptions} {out p q page : FilePath} {ss : List Schema} {d d' : Disk}
  {text : String} {sources : List FilePath} {files : List (FilePath × String)} {e : SiteError}

/-- Two schemas at different places of the list have the page. -/
def Contested (ss : List Schema) (page : FilePath) : Prop :=
  ∃ (i j : Nat) (s t : Schema), i < j ∧ ss[i]? = some s ∧ ss[j]? = some t ∧
    s.pagePath.same page ∧ t.pagePath.same page

theorem not_contested_iff : ¬ Contested ss page ↔
    ss.Pairwise fun s t => s.pagePath.same page → ¬ t.pagePath.same page := by
  rw [List.pairwise_iff_getElem]
  constructor
  · intro h i j hi hj hij hs ht
    exact h ⟨i, j, ss[i], ss[j], hij, List.getElem?_eq_getElem hi, List.getElem?_eq_getElem hj,
      hs, ht⟩
  · rintro h ⟨i, j, s, t, hij, hs, ht, hsp, htp⟩
    obtain ⟨hi, rfl⟩ := List.getElem?_eq_some_iff.1 hs
    obtain ⟨hj, rfl⟩ := List.getElem?_eq_some_iff.1 ht
    exact h i j hi hj hij hsp htp

theorem length_le_one_iff {α : Type} {as : List α} :
    as.length ≤ 1 ↔ as.Pairwise fun _ _ => False := by
  rcases as with _ | ⟨a, _ | ⟨b, as⟩⟩
  · simp
  · simp
  · simp only [List.length_cons, List.pairwise_cons, List.mem_cons]
    exact ⟨fun h => by omega, fun h => (h.1 b (.inl rfl)).elim⟩

theorem contested_iff : Contested ss page ↔ 1 < (sharing ss page).length := by
  rw [← not_iff_not, not_contested_iff, Nat.not_lt, length_le_one_iff, sharing,
    List.pairwise_filter]

theorem sharing_congr (h : p.same q) : sharing ss p = sharing ss q := by
  refine List.filter_congr fun s _ => ?_
  rw [FilePath.same, FilePath.same, FilePath.same_iff_parts.1 h]

theorem Contested.congr (hp : Contested ss p) (h : p.same q) : Contested ss q := by
  rw [contested_iff] at hp ⊢
  rwa [← sharing_congr h]

theorem Contested.exists_page (h : Contested ss page) : ∃ s ∈ ss, s.pagePath.same page := by
  obtain ⟨i, -, s, -, -, hs, -, hsp, -⟩ := h
  exact ⟨s, List.mem_of_getElem? hs, hsp⟩

theorem mem_pages {s : Schema} (h : s ∈ ss) :
    s.pagePath ∈ (ss.map (·.pagePath)).mergeSort fun p q => (p.compare q).isLE := by
  rw [List.mem_mergeSort]
  exact List.mem_map_of_mem h

theorem collision?_eq_none : collision? ss = none ↔ ∀ page, ¬ Contested ss page := by
  rw [collision?, Option.map_eq_none_iff, List.find?_eq_none]
  simp only [decide_eq_true_eq, ← contested_iff]
  constructor
  · intro h page hpage
    obtain ⟨s, hs, hsp⟩ := hpage.exists_page
    exact h _ (mem_pages hs) (hpage.congr (FilePath.same_symm hsp))
  · exact fun h page _ => h page

/-- The page of a collision is one of the pages, and no contested page comes before it. -/
theorem collision?_eq_some (h : collision? ss = some e) : ∃ page ∈ ss.map (·.pagePath),
    e = .collision page ((sharing ss page).map (·.path)) ∧ Contested ss page ∧
      ∀ q, Contested ss q → (page.compare q).isLE := by
  obtain ⟨page, hfind, rfl⟩ := Option.map_eq_some_iff.1 h
  obtain ⟨hmany, before, after, hpages, hfew⟩ := List.find?_eq_some_iff_append.1 hfind
  have hmem : page ∈ ss.map (·.pagePath) :=
    List.mem_mergeSort.1 (List.mem_of_find?_eq_some hfind)
  refine ⟨page, hmem, rfl, contested_iff.2 (by simpa using hmany), fun q hq => ?_⟩
  -- the pages are in order, and a contested page is none of those before the one that was found
  obtain ⟨s, hs, hsq⟩ := hq.exists_page
  have hsorted := List.pairwise_mergeSort FilePath.le_trans FilePath.le_total
    (ss.map (·.pagePath))
  have hpage := mem_pages hs
  rw [hpages] at hsorted hpage
  have hle : (page.compare s.pagePath).isLE := by
    rcases List.mem_append.1 hpage with hbefore | hpage
    · have hcontested : Contested ss s.pagePath :=
        hq.congr (FilePath.same_symm hsq)
      have := hfew _ hbefore
      simp [contested_iff.1 hcontested] at this
    · rcases List.mem_cons.1 hpage with he | hafter
      · rw [he]
        exact FilePath.isLE_of_same (FilePath.same_self _)
      · exact List.rel_of_pairwise_cons (List.pairwise_append.1 hsorted).2.1 hafter
  exact FilePath.le_trans _ _ _ hle (FilePath.isLE_of_same hsq)

theorem writeFile_ne_collision : (writeFile d p text).1 ≠ .error (.collision page sources) := by
  have written (d : Disk) : (writeFile.write p text d).1 ≠ .error (.collision page sources) := by
    unfold writeFile.write
    cases d.writeText p text <;> simp
  unfold writeFile
  cases p.parent? with
  | none => exact written d
  | some parent =>
    rcases hm : d.makeDirectories parent with ⟨e | _, d₁⟩
    · simp [hm]
    · simpa [hm] using written d₁

theorem writeFiles_ne_collision :
    (writeFiles d files).1 ≠ .error (.collision page sources) := by
  induction files generalizing d with
  | nil => simp [writeFiles]
  | cons f files ih =>
    obtain ⟨p, text⟩ := f
    rw [writeFiles]
    have hne : (writeFile d p text).1 ≠ .error (.collision page sources) := writeFile_ne_collision
    rcases hw : writeFile d p text with ⟨e | _, d'⟩ <;> rw [hw] at hne
    · exact hne
    · exact ih

/-- A collision is found before anything is written. -/
theorem writeSite_eq_collision : (writeSite o out ss d).1 = .error (.collision page sources) ↔
    collision? ss = some (.collision page sources) := by
  unfold writeSite
  cases hc : collision? ss with
  | some e => simp
  | none =>
    have hne : (writeFiles d (Site.files o out ss)).1 ≠ .error (.collision page sources) :=
      writeFiles_ne_collision
    rcases hw : writeFiles d (Site.files o out ss) with ⟨e | _, d'⟩ <;> rw [hw] at hne
    · simpa using hne
    · simp

theorem writeSite_of_collision? (h : collision? ss = some e) :
    writeSite o out ss d = (.error e, d) := by
  rw [writeSite, h]

end Site

open Site

/-- A site is refused as a collision just in case two schemas of the list have one page. Then the
disk is left as it was, the page is one of those that two schemas have, none of which comes before
it, and the sources are all the schemas that have it, in the order of the list. -/
theorem writeSite_collision (o : SiteOptions) (out : FilePath) (ss : List Schema) (d : Disk) :
    ((∃ page sources, (writeSite o out ss d).1 = .error (.collision page sources)) ↔
      ∃ (i j : Nat) (s t : Schema), i < j ∧ ss[i]? = some s ∧ ss[j]? = some t ∧
        s.pagePath.same t.pagePath) ∧
    ∀ page sources, (writeSite o out ss d).1 = .error (.collision page sources) →
      (writeSite o out ss d).2 = d ∧
      page ∈ ss.map (·.pagePath) ∧ Contested ss page ∧
      (∀ q, Contested ss q → (page.compare q).isLE) ∧
      sources = (ss.filter (·.pagePath.same page)).map (·.path) := by
  refine ⟨⟨?_, ?_⟩, fun page sources h => ?_⟩
  · rintro ⟨page, sources, h⟩
    obtain ⟨_, -, -, ⟨i, j, s, t, hij, hs, ht, hsp, htp⟩, -⟩ :=
      collision?_eq_some (writeSite_eq_collision.1 h)
    refine ⟨i, j, s, t, hij, hs, ht, FilePath.same_iff_parts.2 ?_⟩
    rw [FilePath.same_iff_parts.1 hsp, FilePath.same_iff_parts.1 htp]
  · rintro ⟨i, j, s, t, hij, hs, ht, hst⟩
    have hpage : Contested ss t.pagePath := ⟨i, j, s, t, hij, hs, ht, hst, FilePath.same_self _⟩
    cases hc : collision? ss with
    | none => exact absurd hpage (collision?_eq_none.1 hc _)
    | some e =>
      obtain ⟨page, -, rfl, -⟩ := collision?_eq_some hc
      exact ⟨_, _, writeSite_eq_collision.2 hc⟩
  · have hc := writeSite_eq_collision.1 h
    obtain ⟨page', hmem, he, hcontested, hleast⟩ := collision?_eq_some hc
    cases he
    rw [writeSite_of_collision? hc]
    exact ⟨rfl, hmem, hcontested, hleast, rfl⟩

/-- Four schemas of two pages, of which the one that comes first in the list is the later one. -/
def Twins.schemas : List Schema :=
  ["o/z/x.yaml", "o/b/c/m.json", "o/z/x.json", "o/a/c/m.yaml"].map fun p =>
    .ofTree ⟨p⟩ ⟨"o"⟩ .null

def Twins.disk : Disk := ⟨[(["out"], .directory)], []⟩

theorem Twins.collide : writeSite .standard ⟨"out"⟩ schemas disk =
    (.error (.collision ⟨"c/m.md"⟩ [⟨"o/b/c/m.json"⟩, ⟨"o/a/c/m.yaml"⟩]), disk) := by
  obtain ⟨hiff, hrefused⟩ := writeSite_collision .standard ⟨"out"⟩ schemas disk
  obtain ⟨page, sources, h⟩ := hiff.2 ⟨0, 2, _, _, by decide, rfl, rfl, by decide +kernel⟩
  obtain ⟨hdisk, hmem, -, hleast, rfl⟩ := hrefused page sources h
  have hpages : schemas.map (·.pagePath) =
      [⟨"z/x.md"⟩, ⟨"c/m.md"⟩, ⟨"z/x.md"⟩, ⟨"c/m.md"⟩] := by decide +kernel
  have hpage : page = ⟨"c/m.md"⟩ := by
    have hle := hleast ⟨"c/m.md"⟩
      ⟨1, 3, _, _, by decide, rfl, rfl, by decide +kernel, by decide +kernel⟩
    rw [hpages] at hmem
    simp only [List.mem_cons, List.not_mem_nil, or_false] at hmem
    rcases hmem with rfl | rfl | rfl | rfl
    · exact absurd hle (by decide +kernel)
    · rfl
    · exact absurd hle (by decide +kernel)
    · rfl
  subst hpage
  refine Prod.ext (h.trans ?_) hdisk
  congr 2
  decide +kernel

end Schemata
