import Schemata.Proofs.File.Joining
import Schemata.Proofs.File.Order
import Schemata.Schema.Discovery

/-!
# Paths of what lies beneath a directory

The path of an entry beneath a directory is the path of the directory with the names on the way
behind it. Taking the directory off again leaves the way, and the order of two such paths is that of
their ways, whatever the path of the directory is.
-/

namespace Schemata.Disk

open FilePath

variable {root p : FilePath} {way way' : DiskName}

/-- The text of a directory up to the slash in front of what lies in it. -/
def ahead (root : FilePath) : List Char :=
  if root.text.endsWith "/" then root.text.toList.dropLast else root.text.toList

/-- The names on a way from a directory can be typed as pieces of a path. -/
def IsWay (way : DiskName) : Prop := way ≠ [] ∧ ∀ s ∈ way, IsPiece s

theorem ahead_spec (root : FilePath) :
    root.text.toList = ahead root ∨ root.text.toList = ahead root ++ ['/'] := by
  unfold ahead
  split
  · rename_i h
    obtain ⟨above, h⟩ := endsWith_slash_iff.1 h
    exact .inr (by simp [h])
  · exact .inl rfl

theorem toList_of_ahead_eq_nil (hr : root.text ≠ "") (h : ahead root = []) :
    root.text.toList = ['/'] := by
  rcases ahead_spec root with he | he <;> rw [h] at he
  · exact absurd (String.toList_inj.1 he) hr
  · exact he

theorem lead_ahead (h : ahead root ≠ []) : lead root.text.toList = lead (ahead root) := by
  rcases ahead_spec root with he | he <;> rw [he]
  rw [lead_append_slash h]

theorem toList_join_piece {s : String} (hr : root.text ≠ "") (hs : IsPiece s) :
    (root.join ⟨s⟩).text.toList = ahead root ++ '/' :: s.toList := by
  rw [join, if_neg (not_isAbsolute_piece hs), ahead]
  by_cases he : root.text.endsWith "/"
  · obtain ⟨above, h⟩ := endsWith_slash_iff.1 he
    simp [he, h]
  · simp [he, hr]

theorem ahead_join_piece {s : String} (hr : root.text ≠ "") (hs : IsPiece s) :
    ahead (root.join ⟨s⟩) = ahead root ++ '/' :: s.toList := by
  have ht := toList_join_piece hr hs
  have hlast : ¬ (root.join ⟨s⟩).text.endsWith "/" := by
    rw [endsWith_slash_iff]
    rintro ⟨above, h⟩
    rw [ht] at h
    have hne : s.toList ≠ [] := by simpa using hs.ne_empty
    have last := congrArg List.getLast? h
    rw [List.getLast?_append_of_ne_nil _ (List.cons_ne_nil _ _), List.getLast?_cons_of_ne_nil hne,
      List.getLast?_concat] at last
    exact hs.slash_notMem (List.mem_of_getLast? last)
  rw [ahead, if_neg hlast, ht]

theorem toList_pathBeneath (hr : root.text ≠ "") (hw : IsWay way) :
    (pathBeneath root way).text.toList =
      ahead root ++ '/' :: ['/'].intercalate (way.map String.toList) := by
  obtain ⟨hn, hs⟩ := hw
  unfold pathBeneath
  induction way generalizing root with
  | nil => exact absurd rfl hn
  | cons s way ih =>
    have piece := hs s List.mem_cons_self
    rw [List.foldl_cons]
    by_cases hway : way = []
    · subst hway
      rw [List.foldl_nil, toList_join_piece hr piece]
      simp
    · have hjoin : (root.join ⟨s⟩).text ≠ "" := by
        intro he
        have ht := toList_join_piece hr piece
        simp [he] at ht
      rw [ih hjoin hway fun t ht => hs t (List.mem_cons_of_mem s ht), ahead_join_piece hr piece,
        List.map_cons, List.intercalate_cons_of_ne_nil (by simpa using hway)]
      simp

theorem IsWay.solid (hw : IsWay way) : Solid (way.map String.toList) :=
  solid_toList fun s hs => ⟨(hw.2 s hs).ne_empty, (hw.2 s hs).ne_point, (hw.2 s hs).slash_notMem⟩

theorem IsWay.partOf_eq (hw : IsWay way) :
    (way.map String.toList).map partOf = way.map PathPart.name :=
  map_partOf_toList fun s hs => (hw.2 s hs).ne_points

theorem solid_ahead (root : FilePath) :
    FilePath.solid root.text.toList = FilePath.solid (ahead root) := by
  rcases ahead_spec root with h | h <;> rw [h]
  rw [solid_append_slash, solid_nil, List.append_nil]

theorem solid_pathBeneath (hr : root.text ≠ "") (hw : IsWay way) :
    FilePath.solid (pathBeneath root way).text.toList =
      FilePath.solid root.text.toList ++ way.map String.toList := by
  rw [toList_pathBeneath hr hw, solid_append_slash, solid_ahead,
    solid_intercalate fun q hq => (hw.solid q hq).2, hw.solid.filter_eq]

theorem lead_pathBeneath (hr : root.text ≠ "") (hw : IsWay way) :
    lead (pathBeneath root way).text.toList = lead root.text.toList := by
  rw [toList_pathBeneath hr hw]
  by_cases ha : ahead root = []
  · rw [ha, toList_of_ahead_eq_nil hr ha, List.nil_append, lead_eq_root.2 ⟨_, rfl⟩,
      lead_eq_root.2 ⟨_, rfl⟩]
  · rw [lead_append_slash ha, lead_ahead ha]

theorem parts_pathBeneath (hr : root.text ≠ "") (hw : IsWay way) :
    (pathBeneath root way).parts = root.parts ++ way.map PathPart.name := by
  rw [parts_eq, parts_eq, solid_pathBeneath hr hw, lead_pathBeneath hr hw, List.map_append,
    hw.partOf_eq, List.append_assoc]

theorem parts_ne_nil (hr : root.text ≠ "") : root.parts ≠ [] := by
  have hne : root.text.toList ≠ [] := by simpa using hr
  have whole : ['/'].intercalate (root.text.toList.splitOn '/') = root.text.toList :=
    List.intercalate_splitOn '/'
  obtain ⟨q, qs, hq⟩ := List.exists_cons_of_ne_nil (List.splitOn_ne_nil '/' root.text.toList)
  rw [parts_eq]
  intro h
  obtain ⟨hl, hs⟩ := List.append_eq_nil_iff.1 h
  have hollow : isHollow q = true := by
    by_contra hc
    have hm : q ∈ FilePath.solid root.text.toList :=
      List.mem_filter.2 ⟨hq ▸ List.mem_cons_self, by simpa using hc⟩
    rw [List.map_eq_nil_iff.1 hs] at hm
    cases hm
  simp only [isHollow, Bool.or_eq_true, decide_eq_true_eq] at hollow
  rw [hq] at whole
  rcases hollow with rfl | rfl
  · by_cases hqs : qs = []
    · rw [hqs] at whole
      exact hne whole.symm
    · rw [List.intercalate_cons_of_ne_nil hqs] at whole
      rw [lead_eq_root.2 ⟨_, whole.symm⟩] at hl
      cases hl
  · rw [lead_eq_here.2 ⟨qs, hq⟩] at hl
    cases hl

theorem compare_name (s t : String) : (PathPart.name s).compare (.name t) = Ord.compare s t := rfl

theorem comparePartLists_append (ps as bs : List PathPart) :
    comparePartLists (ps ++ as) (ps ++ bs) = comparePartLists as bs := by
  induction ps with
  | nil => rfl
  | cons a ps ih =>
    have hself : a.compare a = .eq := Std.ReflCmp.compare_self
    rw [List.cons_append, List.cons_append, comparePartLists, hself, ih]
    rfl

theorem comparePartLists_name (way way' : DiskName) :
    comparePartLists (way.map .name) (way'.map .name) = Ord.compare way way' := by
  rw [List.compare_eq_compareLex]
  induction way generalizing way' with
  | nil => cases way' <;> rfl
  | cons s way ih =>
    cases way' with
    | nil => rfl
    | cons t way' =>
      rw [List.map_cons, List.map_cons, comparePartLists, List.compareLex_cons_cons, ih way',
        compare_name]

/-- Beneath a directory, paths are ordered as the ways are. -/
theorem compare_pathBeneath (hr : root.text ≠ "") (hw : IsWay way) (hw' : IsWay way') :
    (pathBeneath root way).compare (pathBeneath root way') = Ord.compare way way' := by
  rw [FilePath.compare, parts_pathBeneath hr hw, parts_pathBeneath hr hw', comparePartLists_append,
    comparePartLists_name]

theorem trimStart_append_piece {q : List Char} (hq : isHollow q = false) (hs : '/' ∉ q)
    (rest : List Char) : trimStart (q ++ rest) = q ++ rest := by
  cases q with
  | nil => cases hq
  | cons c q =>
    obtain ⟨hc, hq'⟩ : c ≠ '/' ∧ '/' ∉ q := by simpa [eq_comm] using hs
    have hpoint : c = '.' → q ≠ [] := by
      rintro rfl rfl
      cases hq
    rw [List.cons_append]
    unfold trimStart
    split
    · rename_i he
      exact absurd (List.cons.inj he).1 hc
    · rename_i he
      obtain ⟨hfirst, htail⟩ := List.cons.inj he
      cases q with
      | nil => exact absurd rfl (hpoint hfirst)
      | cons c' q =>
        rw [(List.cons.inj htail).1] at hq'
        exact absurd List.mem_cons_self hq'
    · rename_i he
      obtain ⟨hfirst, htail⟩ := List.cons.inj he
      exact absurd (List.append_eq_nil_iff.1 htail).1 (hpoint hfirst)
    · rfl

theorem exists_first_piece (cs : List Char) : ∃ q rest, cs = q ++ rest ∧ '/' ∉ q ∧
    (rest = [] ∨ ∃ rest', rest = '/' :: rest') := by
  induction cs with
  | nil => exact ⟨[], [], rfl, List.not_mem_nil, .inl rfl⟩
  | cons c cs ih =>
    by_cases hc : c = '/'
    · exact ⟨[], c :: cs, rfl, List.not_mem_nil, .inr ⟨cs, by rw [hc]⟩⟩
    · obtain ⟨q, rest, rfl, hq, hr⟩ := ih
      exact ⟨c :: q, rest, rfl, by simp [hq, Ne.symm hc], hr⟩

theorem solid_append_piece {q rest : List Char} (hq : isHollow q = false) (hs : '/' ∉ q)
    (hr : rest = [] ∨ ∃ rest', rest = '/' :: rest') :
    FilePath.solid (q ++ rest) = q :: FilePath.solid rest := by
  have alone : FilePath.solid q = [q] := by
    rw [FilePath.solid, List.splitOn_eq_singleton hs, List.filter_cons, hq]
    rfl
  rcases hr with rfl | ⟨rest', rfl⟩
  · rw [List.append_nil, alone, solid_nil]
  · rw [solid_append_slash, alone, solid_slash_cons, List.singleton_append]

/-- Trimming goes to the first piece that counts, or to what stands behind the last slash. -/
theorem trimStart_append (as bs : List Char) :
    FilePath.solid as = [] ∧ trimStart (as ++ '/' :: bs) = trimStart bs ∨
    ∃ q as', FilePath.solid as = q :: FilePath.solid as' ∧ '/' ∉ q ∧
      (as' = [] ∨ ∃ rest, as' = '/' :: rest) ∧
      trimStart (as ++ '/' :: bs) = q ++ (as' ++ '/' :: bs) := by
  fun_induction trimStart as with
  | case1 rest ih =>
    rw [solid_slash_cons, List.cons_append, trimStart]
    exact ih
  | case2 rest ih =>
    have hs : FilePath.solid ('.' :: '/' :: rest) = FilePath.solid rest :=
      solid_append_slash ['.'] rest
    rw [hs, List.cons_append, List.cons_append, trimStart]
    exact ih
  | case3 => exact .inl ⟨rfl, rfl⟩
  | case4 cs noSlash noPoint alone =>
    by_cases hn : cs = []
    · subst hn
      exact .inl ⟨rfl, by rw [List.nil_append, trimStart]⟩
    obtain ⟨q, as', rfl, hslash, hrest⟩ := exists_first_piece cs
    have hcounts : isHollow q = false := by
      by_contra hc
      simp only [isHollow, Bool.or_eq_false_iff, decide_eq_false_iff_not, not_and_or,
        Decidable.not_not] at hc
      rcases hrest with rfl | ⟨rest, rfl⟩ <;> rcases hc with rfl | rfl
      · exact hn rfl
      · exact alone rfl
      · exact noSlash _ rfl
      · exact noPoint _ rfl
    refine .inr ⟨q, as', solid_append_piece hcounts hslash hrest, hslash, hrest, ?_⟩
    rw [List.append_assoc]
    exact trimStart_append_piece hcounts hslash _

/-- Dropping as many parts as a text has leaves what stands behind it. -/
theorem trimStart_dropParts (as bs : List Char) :
    trimStart (dropParts (FilePath.solid as).length (as ++ '/' :: bs)) = trimStart bs := by
  induction hn : (FilePath.solid as).length generalizing as with
  | zero =>
    rcases trimStart_append as bs with ⟨-, ht⟩ | ⟨q, as', hs, -⟩
    · exact ht
    · rw [hs] at hn
      cases hn
  | succ n ih =>
    rcases trimStart_append as bs with ⟨hs, -⟩ | ⟨q, as', hs, hq, hr, ht⟩
    · rw [hs] at hn
      cases hn
    · have pass : ∀ c ∈ q, decide (c ≠ '/') = true := by
        intro c hc
        rw [decide_eq_true_iff]
        rintro rfl
        exact hq hc
      have stop : (as' ++ '/' :: bs).dropWhile (· ≠ '/') = as' ++ '/' :: bs := by
        rcases hr with rfl | ⟨rest, rfl⟩ <;> rfl
      rw [hs, List.length_cons, Nat.succ_inj] at hn
      rw [dropParts, ht, List.dropWhile_append_of_pos pass, stop, ih as' hn]

theorem solid_drop_startLength (cs : List Char) :
    FilePath.solid (cs.drop (startLength cs)) = FilePath.solid cs := by
  unfold startLength
  split
  · exact (solid_slash_cons _).symm
  · rfl
  · rename_i rest
    have hs : FilePath.solid ('.' :: '/' :: rest) = FilePath.solid rest :=
      solid_append_slash ['.'] rest
    rw [hs]
    exact solid_slash_cons rest
  · rfl

def wayPath (way : DiskName) : FilePath := ⟨"/".intercalate way⟩

theorem toList_wayPath (way : DiskName) :
    (wayPath way).text.toList = ['/'].intercalate (way.map String.toList) := by
  simp [wayPath]

theorem trimmed_wayPath (hw : IsWay way) :
    trimmed (trimStart (['/'].intercalate (way.map String.toList))) =
      ['/'].intercalate (way.map String.toList) := by
  obtain ⟨s, rest, hway⟩ := List.exists_cons_of_ne_nil hw.1
  have hsolid := hw.solid
  rw [hway, List.map_cons] at hsolid ⊢
  obtain ⟨hcounts, hslash⟩ := hsolid s.toList List.mem_cons_self
  have hstart : ['/'].intercalate (s.toList :: rest.map String.toList) =
      s.toList ++ (['/'].intercalate ([] :: rest.map String.toList)) := by
    cases rest <;> simp [List.intercalate]
  rw [hstart, trimStart_append_piece hcounts hslash, ← hstart]
  exact trimmed_eq_of_tight (tight_spell [] hsolid)

theorem trimStart_dropParts_pathBeneath (hr : root.text ≠ "") (hw : IsWay way) :
    trimStart (dropParts (FilePath.solid root.text.toList).length
      ((pathBeneath root way).text.toList.drop (startLength root.text.toList))) =
        trimStart (['/'].intercalate (way.map String.toList)) := by
  rw [toList_pathBeneath hr hw]
  by_cases ha : ahead root = []
  · rw [ha, toList_of_ahead_eq_nil hr ha]
    rfl
  · have hlead : startLength root.text.toList = startLength (ahead root) := by
      rw [startLength_eq, startLength_eq, lead_ahead ha]
    have hle : startLength (ahead root) ≤ (ahead root).length := by
      rw [startLength_eq]
      exact length_lead_le _
    rw [hlead, List.drop_append_of_le_length hle, solid_ahead, ← solid_drop_startLength]
    exact trimStart_dropParts _ _

theorem stripStart?_pathBeneath (hr : root.text ≠ "") (hw : IsWay way) :
    (pathBeneath root way).stripStart? root = some (wayPath way) := by
  have hlead : startLength (pathBeneath root way).text.toList = startLength root.text.toList := by
    rw [startLength_eq, startLength_eq, lead_pathBeneath hr hw]
  have hstarts : root.parts.isPrefixOf (pathBeneath root way).parts := by
    rw [List.isPrefixOf_iff_prefix, parts_pathBeneath hr hw]
    exact List.prefix_append _ _
  have hcount : root.parts.length - startLength root.text.toList =
      (FilePath.solid root.text.toList).length := by
    rw [parts_eq, startLength_eq, List.length_append, List.length_map]
    omega
  unfold stripStart?
  simp only [hstarts, if_true, hlead, hcount, trimStart_dropParts_pathBeneath hr hw]
  rw [if_neg (by simpa using parts_ne_nil hr), trimmed_wayPath hw, ← toList_wayPath,
    String.ofList_toList]

theorem parts_wayPath (hw : IsWay way) : (wayPath way).parts = way.map PathPart.name := by
  have hl : lead (['/'].intercalate (way.map String.toList)) = [] := lead_spell [] hw.solid
  rw [parts_eq, toList_wayPath, hl, solid_intercalate fun q hq => (hw.solid q hq).2,
    hw.solid.filter_eq, hw.partOf_eq, List.nil_append]

/-- The way is never the whole path. -/
theorem not_same_wayPath (hr : root.text ≠ "") (hw : IsWay way) :
    ¬ (wayPath way).same (pathBeneath root way) := by
  rw [same, decide_eq_true_iff, parts_wayPath hw, parts_pathBeneath hr hw]
  intro h
  exact parts_ne_nil hr (List.append_left_eq_self.1 h.symm)

theorem parent?_of_name {s : String} (h : p.parts.getLast? = some (.name s)) :
    ∃ dir, p.parent? = some dir ∧ dir.parts = p.parts.dropLast := by
  have hp := parts_eq p
  rcases List.eq_nil_or_concat (FilePath.solid p.text.toList) with hn | ⟨qs, q, hn⟩
  · rw [hp, hn, List.map_nil, List.append_nil] at h
    rcases lead_cases p.text.toList with hc | hc | hc <;> rw [hc] at h <;> cases h
  · rw [List.concat_eq_append] at hn
    obtain ⟨dir, hdir, -, hl, hs⟩ := exists_parent? hn
    refine ⟨dir, hdir, ?_⟩
    rw [parts_eq, hl, hs, hp, hn, List.map_append, ← List.append_assoc, List.map_singleton,
      List.dropLast_concat]

theorem getLast?_parts_pathBeneath (hr : root.text ≠ "") (hw : IsWay way) :
    (pathBeneath root way).parts.getLast? = way.getLast?.map PathPart.name := by
  rw [parts_pathBeneath hr hw, List.getLast?_append_of_ne_nil _ (by simpa using hw.1),
    List.getLast?_map]

theorem fileName?_pathBeneath (hr : root.text ≠ "") (hw : IsWay way) :
    (pathBeneath root way).fileName? = way.getLast? := by
  rw [fileName?, getLast?_parts_pathBeneath hr hw]
  cases way.getLast? <;> rfl

/-- The directory of an entry has the last name but one, or that of the directory it is in. -/
theorem directoryName_pathBeneath (hr : root.text ≠ "") (hw : IsWay way) :
    (pathBeneath root way).parent?.bind fileName? = way.dropLast.getLast?.or root.fileName? := by
  obtain ⟨before, s, rfl⟩ := (List.eq_nil_or_concat way).resolve_left hw.1
  have hlast : (pathBeneath root (before.concat s)).parts.getLast? = some (.name s) := by
    rw [getLast?_parts_pathBeneath hr hw]
    simp
  obtain ⟨dir, hdir, hparts⟩ := parent?_of_name hlast
  rw [hdir, Option.bind_some, fileName?, hparts, parts_pathBeneath hr hw, List.concat_eq_append,
    List.map_append, ← List.append_assoc, List.map_singleton, List.dropLast_concat,
    List.dropLast_concat, List.getLast?_append, List.getLast?_map, fileName?]
  cases before.getLast? <;> rfl

variable {d : Disk} {dir : DiskName} {links : Nat} {before rest : List String}

theorem walk_append (followLast : Bool) {x : DiskName × DiskItem}
    (h : d.walk true links dir before = .ok x) (hx : x.2 = .directory) (hr : rest ≠ []) :
    ∃ links', d.walk followLast links dir (before ++ rest) = d.walk followLast links' x.1 rest := by
  fun_induction walk d true links dir before with
  | case1 links dir =>
    cases h
    exact ⟨links, rfl⟩
  | case2 links dir s before hb ih =>
    rw [List.cons_append, walk_blank (by simpa using hb)]
    exact ih h
  | case3 links dir before hb ih =>
    rw [List.cons_append, walk_up]
    exact ih h
  | case6 links dir s before hb hu hl hi ih =>
    rw [List.cons_append, walk_directory ⟨hb, hu, hl⟩ hi]
    exact ih h
  | case7 links dir s before hb hu hl content hi =>
    cases h
    cases hx
  | case9 links dir s before hb hu hl target hi hf => simp at hf
  | case12 dir s before hb hu hl target hi hf links hn ih =>
    rw [List.cons_append, walk_link ⟨hb, hu, hl⟩ hi (by simp [hr]) hn]
    rw [List.append_assoc] at ih
    exact ih h
  | case4 | case5 | case8 | case10 | case11 => cases h

theorem steps_pathBeneath (hw : IsWay way) :
    steps (pathBeneath root way).text = stepsOf root.text.toList ++ way := by
  obtain ⟨hn, hs⟩ := hw
  unfold pathBeneath
  induction way generalizing root with
  | nil => exact absurd rfl hn
  | cons s way ih =>
    have piece := hs s List.mem_cons_self
    rw [List.foldl_cons]
    by_cases hway : way = []
    · subst hway
      rw [List.foldl_nil, steps_join (not_isAbsolute_piece piece), steps_piece piece]
    · rw [ih hway fun t ht => hs t (List.mem_cons_of_mem s ht),
        stepsOf_join (not_isAbsolute_piece piece), stepsOf_piece piece, List.append_assoc,
        List.singleton_append]

theorem nul_notMem_pathBeneath (hz : Char.ofNat 0 ∉ root.text.toList) (hr : root.text ≠ "")
    (hw : IsWay way) (hn : ∀ s ∈ way, IsName s) :
    Char.ofNat 0 ∉ (pathBeneath root way).text.toList := by
  rw [toList_pathBeneath hr hw]
  intro h
  rcases List.mem_append.1 h with h | h
  · rcases ahead_spec root with he | he <;> exact hz (by simp [he, h])
  rcases List.mem_cons.1 h with h | h
  · exact absurd h (by decide)
  rcases mem_intercalate h with h | ⟨l, hl, h⟩
  · exact absurd h (by decide)
  · obtain ⟨s, hs, rfl⟩ := List.mem_map.1 hl
    exact (hn s hs).nul_notMem h

/-- The path of a file that is there leads to it unless its text is too long. -/
theorem find_pathBeneath {content : Content} (hroot : d.find root true = .ok (dir, .directory))
    (hw : IsWay way) (hn : ∀ s ∈ way, IsName s) (hr : d.Reaches (dir ++ way, .file content)) :
    d.find (pathBeneath root way) true =
      if (pathBeneath root way).text.utf8ByteSize ≥ 4096 then .error .nameTooLong
      else .ok (dir ++ way, .file content) := by
  obtain ⟨hz, he, -, hwalk⟩ := find_eq_ok.1 hroot
  have hnul := nul_notMem_pathBeneath hz he hw hn
  have hempty : (pathBeneath root way).text ≠ "" := by
    intro h
    have ht := toList_pathBeneath he hw
    simp [h] at ht
  have htrims : Trims (steps root.text) (stepsOf root.text.toList) := by
    rw [steps_eq]
    refine (Trims.refl _).append_blank fun s hs => ?_
    split at hs
    · exact .inr (List.mem_singleton.1 hs)
    · cases hs
  obtain ⟨links, hgo⟩ := walk_append true (walk_of_trims hwalk htrims) rfl hw.1
  have hwhole : d.walk true maxLinks (d.start (pathBeneath root way))
      (steps (pathBeneath root way).text) = .ok (dir ++ way, .file content) := by
    rw [steps_pathBeneath hw, start_congr (lead_pathBeneath he hw), hgo]
    exact walk_name hr hw.1 hn (by simp)
  rw [start] at hwhole
  rw [find, if_neg (by simpa using hnul), if_neg hempty, hwhole]

end Schemata.Disk
