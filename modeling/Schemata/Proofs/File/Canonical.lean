import Mathlib.Data.String.Basic
import Schemata.Proofs.File.Parent
import Schemata.Proofs.File.Walk
import Schemata.Proofs.Text.Words
import Schemata.Source

/-!
# Paths that are found

The canonical path of something that exists is spelled plainly and leads to the same entry. Two
spellings of one path lead to the same entry if both lead anywhere, and what stands next to a path
has the same canonical path as what stands next to its plain spelling.
-/

namespace Schemata.Disk

open FilePath

variable {d : Disk} {dir name : DiskName} {item : DiskItem} {followLast : Bool} {links : Nat}
  {p q : FilePath} {x : DiskName × DiskItem}

/-- The steps of the pieces of a text, a slash at the end apart. -/
def stepsOf (cs : List Char) : List String :=
  ((cs.splitOn '/').filter fun q => q ≠ []).map String.ofList

theorem steps_eq (text : String) : steps text = stepsOf text.toList ++
    if (text.toList.splitOn '/').getLast? = some [] then [""] else [] := by
  have last : (pieces text).getLast? = some "" ↔
      (text.toList.splitOn '/').getLast? = some [] := by
    rw [pieces_eq, List.getLast?_map]
    cases (text.toList.splitOn '/').getLast? with
    | none => simp
    | some q => simp
  have named : (pieces text).filter (· ≠ "") = stepsOf text.toList := by
    rw [pieces_eq, List.filter_map, stepsOf]
    congr 1
    exact List.filter_congr fun q _ => by simp
  simp only [steps, named, last]

theorem stepsOf_append_slash (as bs : List Char) :
    stepsOf (as ++ '/' :: bs) = stepsOf as ++ stepsOf bs := by
  simp only [stepsOf, List.splitOn_append_cons_self, List.filter_append, List.map_append]

theorem steps_append_slash {text : String} {as bs : List Char}
    (h : text.toList = as ++ '/' :: bs) : steps text = stepsOf as ++ steps (String.ofList bs) := by
  have last : ((as ++ '/' :: bs).splitOn '/').getLast? = (bs.splitOn '/').getLast? := by
    rw [List.splitOn_append_cons_self, List.getLast?_append_of_ne_nil _ (List.splitOn_ne_nil _ _)]
  rw [steps_eq, steps_eq, String.toList_ofList, h, stepsOf_append_slash, last, List.append_assoc]

theorem trims_filter (qs : List (List Char)) :
    Trims ((qs.filter fun q => q ≠ []).map String.ofList)
      ((qs.filter fun q => !isHollow q).map String.ofList) := by
  induction qs with
  | nil => exact .nil
  | cons q qs ih =>
    by_cases hq : q = []
    · subst hq
      exact ih
    · rw [List.filter_cons_of_pos (by simpa using hq)]
      by_cases hp : q = ['.']
      · subst hp
        exact .drop (.inl rfl) ih
      · rw [List.filter_cons_of_pos (by simp [isHollow, hq, hp])]
        exact .keep _ ih

theorem Trims.append_blank {ss ts us : List String} (h : Trims ss ts)
    (hu : ∀ s ∈ us, s = "." ∨ s = "") : Trims (ss ++ us) ts := by
  induction h with
  | nil =>
    induction us with
    | nil => exact .nil
    | cons u us ih =>
      exact .drop (hu u List.mem_cons_self) (ih fun s hs => hu s (List.mem_cons_of_mem _ hs))
  | keep s _ ih => exact .keep s ih
  | drop hb _ ih => exact .drop hb ih

theorem trims_steps (text : String) :
    Trims (steps text) ((solid text.toList).map String.ofList) := by
  rw [steps_eq]
  refine (trims_filter _).append_blank fun s hs => ?_
  split at hs
  · exact .inr (List.mem_singleton.1 hs)
  · cases hs

theorem filter_of_solid {qs : List (List Char)} (h : Solid qs) :
    qs.filter (fun q => q ≠ []) = qs := by
  refine List.filter_eq_self.2 fun q hq => ?_
  have := (h q hq).1
  rw [decide_eq_true_iff]
  rintro rfl
  cases this

theorem stepsOf_spell_root {qs : List (List Char)} (h : Solid qs) :
    stepsOf (spell [.root] qs) = qs.map String.ofList := by
  by_cases hn : qs = []
  · subst hn
    rfl
  · rw [stepsOf, splitOn_spell_root h hn, List.filter_cons_of_neg (by simp), filter_of_solid h]

theorem stepsOf_spell_here {qs : List (List Char)} (h : Solid qs) :
    stepsOf (spell [.here] qs) = "." :: qs.map String.ofList := by
  rw [stepsOf, splitOn_spell_here h, List.filter_cons_of_pos (by simp), filter_of_solid h]
  rfl

theorem stepsOf_spell_nil {qs : List (List Char)} (h : Solid qs) :
    stepsOf (spell [] qs) = qs.map String.ofList := by
  by_cases hn : qs = []
  · subst hn
    rfl
  · rw [stepsOf, splitOn_spell_nil h hn, filter_of_solid h]

theorem stepsOf_trims (cs : List Char) : Trims (stepsOf cs) (stepsOf (plainText cs)) := by
  rcases lead_cases cs with hl | hl | hl
  · rw [plainText, hl, stepsOf_spell_root (solid_isSolid cs)]
    exact trims_filter _
  · obtain ⟨qs, hq⟩ := lead_eq_here.1 hl
    have skip : solid cs = qs.filter fun q => !isHollow q := by rw [solid, hq]; rfl
    rw [plainText, hl, stepsOf_spell_here (solid_isSolid cs), skip, stepsOf, hq]
    exact .keep "." (trims_filter qs)
  · rw [plainText, hl, stepsOf_spell_nil (solid_isSolid cs)]
    exact trims_filter _

def start (d : Disk) (p : FilePath) : DiskName := if p.isAbsolute then [] else d.current

theorem find_eq_ok : d.find p followLast = .ok x ↔ Char.ofNat 0 ∉ p.text.toList ∧ p.text ≠ "" ∧
    p.text.utf8ByteSize < 4096 ∧
      d.walk followLast maxLinks (d.start p) (steps p.text) = .ok x := by
  unfold find start
  split
  · simp_all
  split
  · simp_all
  split
  · simp_all
  · simp_all

theorem isDirectory_iff :
    d.isDirectory p ↔ ∃ dir, d.find p true = .ok (dir, .directory) := by
  unfold isDirectory
  split
  · rename_i dir h
    simp [h]
  · rename_i h
    simp only [Bool.false_eq_true, false_iff, not_exists]
    exact h

theorem reaches_of_start (hd : d.WellFormed)
    (h : d.walk followLast links (d.start p) (steps q.text) = .ok x) : d.Reaches x := by
  refine reaches_of_walk ?_ h
  unfold start
  split
  · exact stands_nil d
  · exact hd.current

theorem reaches_of_find (hd : d.WellFormed) (h : d.find p followLast = .ok x) : d.Reaches x :=
  reaches_of_start hd (find_eq_ok.1 h).2.2.2

theorem isAbsolute_iff_lead : p.isAbsolute ↔ lead p.text.toList = [.root] := by
  rw [isAbsolute_iff, lead_eq_root]
  cases p.text.toList <;> simp

theorem start_congr (h : lead p.text.toList = lead q.text.toList) : d.start p = d.start q := by
  have : p.isAbsolute = q.isAbsolute := by
    rw [Bool.eq_iff_iff, isAbsolute_iff_lead, isAbsolute_iff_lead, h]
  rw [start, start, this]

/-- Two spellings of a path lead to the same entry if both lead anywhere. -/
theorem find_eq_of_same {y : DiskName × DiskItem} (hs : p.same q) (hp : d.find p true = .ok x)
    (hq : d.find q true = .ok y) : x = y := by
  obtain ⟨hl, hs⟩ := same_iff.1 hs
  have hp := walk_of_trims (find_eq_ok.1 hp).2.2.2 (trims_steps p.text)
  have hq := walk_of_trims (find_eq_ok.1 hq).2.2.2 (trims_steps q.text)
  rw [hs, start_congr hl, hq] at hp
  exact (Except.ok.inj hp).symm

theorem toList_absolutePath (name : DiskName) :
    (absolutePath name).text.toList = spell [.root] (name.map String.toList) := by
  simp [absolutePath, spell]

theorem solid_of_names (hn : ∀ s ∈ name, IsName s) : Solid (name.map String.toList) :=
  solid_toList fun s hs => ⟨(hn s hs).ne_empty, (hn s hs).ne_point, (hn s hs).slash_notMem⟩

theorem lead_absolutePath (name : DiskName) : lead (absolutePath name).text.toList = [.root] := by
  rw [toList_absolutePath]
  exact lead_eq_root.2 ⟨_, rfl⟩

theorem solid_absolutePath (hn : ∀ s ∈ name, IsName s) :
    solid (absolutePath name).text.toList = name.map String.toList := by
  rw [toList_absolutePath, solid_spell (solid_of_names hn)]

theorem plain_absolutePath (hn : ∀ s ∈ name, IsName s) :
    (absolutePath name).plain = absolutePath name := by
  rw [plain, plainText, lead_absolutePath, solid_absolutePath hn, ← toList_absolutePath,
    String.ofList_toList]

theorem parts_absolutePath (hn : ∀ s ∈ name, IsName s) :
    (absolutePath name).parts = .root :: name.map .name := by
  rw [parts_eq, lead_absolutePath, solid_absolutePath hn,
    map_partOf_toList fun s hs => (hn s hs).ne_points, List.singleton_append]

theorem nul_notMem_absolutePath (hn : ∀ s ∈ name, IsName s) :
    Char.ofNat 0 ∉ (absolutePath name).text.toList := by
  rw [toList_absolutePath, spell]
  intro h
  rcases List.mem_cons.1 h with h | h
  · exact absurd h (by decide)
  · obtain h | ⟨l, hl, h⟩ := mem_intercalate h
    · exact absurd h (by decide)
    · obtain ⟨s, hs, rfl⟩ := List.mem_map.1 hl
      exact (hn s hs).nul_notMem h

theorem steps_absolutePath (hn : ∀ s ∈ name, IsName s) (he : name ≠ []) :
    steps (absolutePath name).text = name := by
  have hs := solid_of_names hn
  have hm : name.map String.toList ≠ [] := by simpa using he
  have last : ((spell [.root] (name.map String.toList)).splitOn '/').getLast? ≠ some [] := by
    rw [splitOn_spell_root hs hm]
    intro h
    rw [List.getLast?_cons_of_ne_nil hm] at h
    have := (hs [] (List.mem_of_getLast? h)).1
    cases this
  rw [steps_eq, toList_absolutePath, if_neg last, stepsOf_spell_root hs, List.append_nil,
    List.map_map]
  simp [Function.comp_def]

theorem walk_absolutePath (hn : ∀ s ∈ name, IsName s) (hr : d.Reaches (name, item))
    (hl : ∀ target, item ≠ .link target) :
    d.walk followLast links [] (steps (absolutePath name).text) = .ok (name, item) := by
  by_cases he : name = []
  · subst he
    have : item = .directory := (Option.some.inj hr.item_eq).symm
    subst this
    have : steps (absolutePath []).text = [""] := by decide +kernel
    rw [this, walk_blank (.inr rfl), walk]
  · have root : d.Reaches ([] ++ name, item) := hr
    rw [steps_absolutePath hn he]
    exact walk_name root he hn hl

theorem find_absolutePath (hn : ∀ s ∈ name, IsName s) (hr : d.Reaches (name, item))
    (hl : ∀ target, item ≠ .link target) (hb : (absolutePath name).text.utf8ByteSize < 4096) :
    d.find (absolutePath name) followLast = .ok (name, item) := by
  refine find_eq_ok.2 ⟨nul_notMem_absolutePath hn, ?_, hb, ?_⟩
  · intro h
    have := congrArg String.toList h
    rw [toList_absolutePath] at this
    cases this
  · rw [start, if_pos (isAbsolute_iff_lead.2 (lead_eq_root.2 ⟨_, toList_absolutePath name⟩))]
    exact walk_absolutePath hn hr hl

theorem canonical_eq_ok : d.canonical p = .ok q ↔ Char.ofNat 0 ∉ p.text.toList ∧ p.text ≠ "" ∧
    ∃ name item, d.walk true maxLinks (d.start p) (steps p.text) = .ok (name, item) ∧
      (absolutePath name).text.utf8ByteSize < 4096 ∧ q = absolutePath name := by
  unfold canonical start
  split
  · simp_all
  split
  · simp_all
  constructor
  · intro h
    split at h
    · rename_i name item hw
      split at h
      · cases h
      · rename_i hb
        cases h
        exact ⟨by simp_all, by simp_all, name, item, hw, Nat.not_le.1 hb, rfl⟩
    · cases h
  · rintro ⟨-, -, name, item, hw, hb, rfl⟩
    rw [hw]
    exact if_neg (Nat.not_le.2 hb)

theorem plain_of_canonical (hd : d.WellFormed) (h : d.canonical p = .ok q) : q.plain = q := by
  obtain ⟨-, -, name, item, hw, -, rfl⟩ := canonical_eq_ok.1 h
  exact plain_absolutePath (hd.isName_of_item? (reaches_of_start hd hw).item_eq)

/-- The canonical path of something that exists leads to the same entry. -/
theorem find_canonical (hd : d.WellFormed) (h : d.canonical p = .ok q) : ∃ name item,
    d.walk true maxLinks (d.start p) (steps p.text) = .ok (name, item) ∧
      d.find q true = .ok (name, item) ∧ q = absolutePath name := by
  obtain ⟨-, -, name, item, hw, hb, rfl⟩ := canonical_eq_ok.1 h
  have hr := reaches_of_start hd hw
  exact ⟨name, item, hw,
    find_absolutePath (hd.isName_of_item? hr.item_eq) hr (walk_ne_link hw) hb, rfl⟩

theorem join_text {dir target : FilePath} (ht : Tight dir.text.toList)
    (hs : solid dir.text.toList ≠ []) (ha : ¬ target.isAbsolute) :
    (dir.join target).text = dir.text ++ "/" ++ target.text := by
  obtain ⟨before, q, he, hpiece⟩ := ht.exists_lastPiece hs
  have hempty : dir.text ≠ "" := by
    intro h
    rw [h] at hs
    exact hs rfl
  have hslash : ¬ dir.text.endsWith "/" := by
    intro h
    rw [String.endsWith, String.Slice.endsWith_string_iff, String.copy_toSlice, he] at h
    obtain ⟨rest, hr⟩ := h
    have last := congrArg List.getLast? hr
    rw [List.getLast?_append_of_ne_nil _ hpiece.ne_nil,
      List.getLast?_append_of_ne_nil _ (by simp)] at last
    exact hpiece.slash_notMem (List.mem_of_getLast? last.symm)
  rw [join, if_neg ha, if_neg (by simp [hempty, hslash])]

theorem toList_join {dir target : FilePath} (ht : Tight dir.text.toList)
    (hs : solid dir.text.toList ≠ []) (ha : ¬ target.isAbsolute) :
    (dir.join target).text.toList = dir.text.toList ++ '/' :: target.text.toList := by
  rw [join_text ht hs ha]
  simp

/-- Spelling a path plainly drops slashes and points only. -/
theorem mem_plainText {c : Char} {cs : List Char} (h : c ∈ cs) (hs : c ≠ '/') (hp : c ≠ '.') :
    c ∈ plainText cs := by
  have whole : ['/'].intercalate (cs.splitOn '/') = cs := List.intercalate_splitOn '/'
  rw [← whole] at h
  obtain ⟨q, hq, hc⟩ := (mem_intercalate h).resolve_left hs
  have counts : isHollow q = false := by
    simp only [isHollow, Bool.or_eq_false_iff, decide_eq_false_iff_not]
    exact ⟨List.ne_nil_of_mem hc, fun he => hp (List.mem_singleton.1 (he ▸ hc))⟩
  have hq : q ∈ (plainText cs).splitOn '/' := by
    refine (solid_sublist _).subset ?_
    rw [solid_plainText]
    exact List.mem_filter.2 ⟨hq, by simp [counts]⟩
  have whole : ['/'].intercalate ((plainText cs).splitOn '/') = plainText cs :=
    List.intercalate_splitOn '/'
  rw [← whole]
  refine (intercalate_sublist (List.singleton_sublist.2 hq)).subset ?_
  rwa [List.intercalate_singleton]

theorem steps_ne_nil {text : String} : steps text ≠ [] := by
  rw [steps_eq, stepsOf]
  split
  · simp
  · rename_i hl
    obtain ⟨qs, q, hq⟩ :=
      (List.eq_nil_or_concat _).resolve_left (List.splitOn_ne_nil '/' text.toList)
    rw [List.concat_eq_append] at hq
    rw [hq, List.getLast?_concat] at hl
    have : q ≠ [] := fun h => hl (by rw [h])
    simp [hq, this]

/-- What stands next to a path and what stands next to its plain spelling have one canonical
path. -/
theorem canonical_join_plain {above target : FilePath} (ht : Tight above.text.toList) :
    d.canonical (above.plain.join target) = .ok q ↔ d.canonical (above.join target) = .ok q := by
  by_cases hs : solid above.text.toList = []
  · have : above.plain = above := by rw [plain, ht.plainText_eq hs, String.ofList_toList]
    rw [this]
  by_cases ha : target.isAbsolute
  · rw [join, join, if_pos ha, if_pos ha]
  have ht' : Tight above.plain.text.toList := by
    rw [toList_plain]
    exact tight_spell _ (solid_isSolid _)
  have hs' : solid above.plain.text.toList ≠ [] := by rwa [toList_plain, solid_plainText]
  have he := toList_join ht hs ha
  have he' := toList_join ht' hs' ha
  rw [toList_plain] at he'
  have nul : Char.ofNat 0 ∉ (above.plain.join target).text.toList ↔
      Char.ofNat 0 ∉ (above.join target).text.toList := by
    rw [he, he']
    simp only [List.mem_append, not_or]
    refine and_congr_left' (not_congr ⟨fun h => (plainText_sublist _).subset h, fun h => ?_⟩)
    exact mem_plainText h (by decide) (by decide)
  have nonempty : (above.plain.join target).text ≠ "" ∧ (above.join target).text ≠ "" := by
    constructor <;> intro hn
    · simp [hn] at he'
    · simp [hn] at he
  have walks : d.walk true maxLinks (d.start (above.plain.join target))
      (steps (above.plain.join target).text) =
        d.walk true maxLinks (d.start (above.join target)) (steps (above.join target).text) := by
    have hne : above.text.toList ≠ [] := fun h => hs (by rw [h]; rfl)
    have hne' : plainText above.text.toList ≠ [] := fun h => hs' (by rw [toList_plain, h]; rfl)
    have hl : lead (above.plain.join target).text.toList = lead (above.join target).text.toList := by
      rw [he, he', lead_append_slash hne, lead_append_slash hne', lead_plainText]
    rw [start_congr hl, steps_append_slash he, steps_append_slash he']
    exact (walk_of_trimsInside ((stepsOf_trims _).inside steps_ne_nil)).symm
  rw [canonical_eq_ok, canonical_eq_ok, nul, walks]
  simp only [nonempty, ne_eq, not_false_eq_true, true_and]

end Schemata.Disk
