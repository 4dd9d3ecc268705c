import Schemata.Proofs.File.Lexical
import Schemata.Proofs.File.Loading
import Schemata.Proofs.File.Writing

/-!
# Files and their directories

A path that a file can be written under is the path of a directory with one more piece behind it,
and it spells the name of that directory with this piece behind it. What is joined to two spellings
of one directory leads to one entry.
-/

namespace Schemata.Disk

open FilePath

variable {d : Disk} {dir name : DiskName} {links : Nat} {todo rest ss ts : List String} {s : String}
  {p q above : FilePath} {followLast : Bool}

theorem climb_of_trims (h : Trims ss ts) : climb dir ss = climb dir ts := by
  induction h generalizing dir with
  | nil => rfl
  | keep s _ ih =>
    rw [climb, climb]
    split
    · exact ih
    split
    · exact ih
    · exact ih
  | drop hb _ ih =>
    rw [climb, if_pos (by simpa using hb)]
    exact ih

/-- The name that a path spells depends on its start and on the pieces that count. -/
theorem nameOf_eq (d : Disk) (p : FilePath) :
    d.nameOf p = climb (d.start p) ((solid p.text.toList).map String.ofList) :=
  climb_of_trims (trims_steps p.text)

theorem climb_concat (hs : IsStep s) : climb dir (todo ++ [s]) = climb dir todo ++ [s] := by
  rw [climb_append, climb, if_neg hs.ne_blank, if_neg hs.ne_points, climb]

theorem climb_pieces (h : ∀ s ∈ todo, IsPiece s) : climb dir todo = dir ++ todo := by
  induction todo generalizing dir with
  | nil => rw [climb, List.append_nil]
  | cons s rest ih =>
    have piece := h s List.mem_cons_self
    rw [climb, if_neg (by simp [piece.ne_point, piece.ne_empty]), if_neg piece.ne_points,
      ih fun t ht => h t (List.mem_cons_of_mem s ht), List.append_assoc, List.singleton_append]

/-- The path is that of an entry in the directory, which is the path above it. -/
structure LiesIn (p above : FilePath) (s : String) : Prop where
  parent?_eq : p.parent? = some above
  text_isPrefix : above.text.toList <+: p.text.toList
  lead_eq : lead above.text.toList = lead p.text.toList
  solid_eq : solid p.text.toList = solid above.text.toList ++ [s.toList]
  isStep : IsStep s

theorem last_of_place (h : d.place links dir todo = .ok name) :
    ∃ s, todo.getLast? = some s ∧ IsStep s := by
  have behind {s s' : String} {rest : List String} (h : rest.getLast? = some s') :
      (s :: rest).getLast? = some s' := by
    rw [List.getLast?_cons, h]
    rfl
  fun_induction place d links dir todo with
  | case2 | case3 | case8 =>
    rename_i ih
    obtain ⟨s', hr, hs⟩ := ih h
    exact ⟨s', behind hr, hs⟩
  | case6 links dir s rest hb hu hs hl hi hr | case9 links dir s rest hb hu hs hl content hi hr =>
    rw [List.isEmpty_iff.1 hr]
    exact ⟨s, rfl, hb, hu, hl⟩
  | case13 dir s rest hb hu hs hl target hi links hn ih =>
    by_cases hr : rest = []
    · subst hr
      exact ⟨s, rfl, hb, hu, hl⟩
    · obtain ⟨s', hlast, hs⟩ := ih h
      rw [List.getLast?_append_of_ne_nil _ hr] at hlast
      exact ⟨s', behind hlast, hs⟩
  | case1 | case4 | case5 | case7 | case10 | case11 | case12 => cases h

theorem exists_liesIn (h : d.place links dir (steps p.text) = .ok name) :
    ∃ above s, LiesIn p above s := by
  obtain ⟨s, hlast, hs⟩ := last_of_place h
  obtain ⟨qs, hsolid⟩ := solid_of_steps hlast hs
  obtain ⟨above, hparent, hprefix, hlead, rfl⟩ := exists_parent? hsolid
  exact ⟨above, s, hparent, hprefix, hlead, hsolid, hs⟩

theorem LiesIn.nameOf_eq (h : LiesIn p above s) (d : Disk) : d.nameOf p = d.nameOf above ++ [s] := by
  rw [Disk.nameOf_eq, Disk.nameOf_eq, h.solid_eq, List.map_append, List.map_singleton,
    String.ofList_toList, climb_concat h.isStep, start_congr h.lead_eq]

theorem nameOf_join_pieces (p : FilePath) (hq : ¬ q.isAbsolute) (h : ∀ s ∈ steps q.text, IsPiece s) :
    d.nameOf (p.join q) = d.nameOf p ++ steps q.text := by
  rw [nameOf_join_relative p hq, climb_pieces h]

theorem trims_stepsOf (cs : List Char) : Trims (stepsOf cs) ((solid cs).map String.ofList) :=
  trims_filter _

theorem solid_eq_of_stepsOf {cs cs' : List Char} (h : stepsOf cs = stepsOf cs') :
    solid cs = solid cs' := by
  have := (List.map_inj_right fun _ _ he => String.ofList_inj.1 he).1 h
  rw [filter_solid, filter_solid, this]

theorem solid_join (hq : ¬ q.isAbsolute) :
    solid (p.join q).text.toList = solid p.text.toList ++ solid q.text.toList := by
  obtain ⟨hp, he⟩ | ⟨before, he, hbefore⟩ := exists_join_text (p := p) hq
  · rw [he, hp]
    rfl
  · rw [he, solid_append_slash, solid_eq_of_stepsOf hbefore]

theorem mem_join {c : Char} (hc : c ≠ '/') (hq : ¬ q.isAbsolute) :
    c ∈ (p.join q).text.toList ↔ c ∈ p.text.toList ∨ c ∈ q.text.toList := by
  rw [join, if_neg hq]
  split <;> simp [hc]

def fromHere (q : FilePath) : FilePath := ⟨"./" ++ q.text⟩

theorem toList_fromHere (q : FilePath) :
    (fromHere q).text.toList = ['.'] ++ '/' :: q.text.toList := by
  simp [fromHere]

theorem not_isAbsolute_fromHere (q : FilePath) : ¬ (fromHere q).isAbsolute := by
  rw [isAbsolute_iff, toList_fromHere]
  simp

theorem steps_fromHere (q : FilePath) : steps (fromHere q).text = "." :: steps q.text := by
  rw [steps_append_slash (toList_fromHere q), String.ofList_toList]
  rfl

theorem nameOf_join_fromHere (p : FilePath) (hq : ¬ q.isAbsolute) :
    d.nameOf (p.join (fromHere q)) = d.nameOf (p.join q) := by
  rw [nameOf_join_relative p (not_isAbsolute_fromHere q), nameOf_join_relative p hq, steps_fromHere]
  rfl

/-- Steps from a directory depend on the pieces of its path that count. -/
theorem walk_stepsOf_append (d : Disk) (dir : DiskName) (cs : List Char) {blanks : List String}
    (hb : ∀ s ∈ blanks, s = "." ∨ s = "") (hr : rest ≠ []) :
    d.walk true maxLinks dir (stepsOf cs ++ blanks ++ rest) =
      d.walk true maxLinks dir ((solid cs).map String.ofList ++ rest) :=
  walk_of_trimsInside (((trims_stepsOf cs).append_blank hb).inside hr)

theorem walk_join_fromHere (hl : d.start above = d.start p)
    (hs : solid above.text.toList = solid p.text.toList) (hq : ¬ q.isAbsolute) :
    d.walk true maxLinks (d.start (above.join (fromHere q))) (steps (above.join (fromHere q)).text) =
      d.walk true maxLinks (d.start (p.join q)) (steps (p.join q).text) := by
  have hrel := not_isAbsolute_fromHere q
  have hsteps : steps q.text ≠ [] := steps_ne_nil
  have hpoint := walk_stepsOf_append d (d.start p) above.text.toList
    (List.forall_mem_singleton.2 (.inl rfl)) hsteps
  have hplain := walk_stepsOf_append d (d.start p) p.text.toList (List.forall_mem_nil _) hsteps
  rw [start_join hrel, start_join hq, steps_join hrel, steps_join hq, steps_fromHere, hl,
    List.append_cons, hpoint, hs, ← hplain, List.append_nil]

/-- From two spellings of a directory a relative path leads to one entry, whether or not it says
that it starts there, unless the text is too long. -/
theorem find_join_fromHere {x : DiskName × DiskItem} (hz : Char.ofNat 0 ∉ above.text.toList)
    (hl : d.start above = d.start p) (hs : solid above.text.toList = solid p.text.toList)
    (hq : ¬ q.isAbsolute) (h : d.find (p.join q) true = .ok x) :
    d.find (above.join (fromHere q)) true =
      if (above.join (fromHere q)).text.utf8ByteSize ≥ 4096 then .error .nameTooLong else .ok x := by
  obtain ⟨hp, -, -, hwalk⟩ := find_eq_ok.1 h
  have hrel := not_isAbsolute_fromHere q
  have hslash : Char.ofNat 0 ≠ '/' := by decide
  have hnul : Char.ofNat 0 ∉ (above.join (fromHere q)).text.toList := by
    rw [mem_join hslash hq, not_or] at hp
    rw [mem_join hslash hrel, toList_fromHere]
    simp [hz, hp.2]
  have hempty : (above.join (fromHere q)).text ≠ "" := by
    rw [join, if_neg hrel, fromHere]
    split <;> simp
  rw [← walk_join_fromHere hl hs hq, start] at hwalk
  rw [find, if_neg (by simpa using hnul), if_neg hempty, hwalk]

end Schemata.Disk
