import Schemata.Proofs.File.Canonical

/-!
# Loading under the canonical path

Whether and as what a file is loaded depends on the entry that its path leads to and on the last
part of the path. A path that is no link itself ends like its canonical path, so that both load the
same document.
-/

namespace Schemata.Disk

open FilePath

variable {d : Disk} {dir name : DiskName} {item : DiskItem} {links : Nat}
  {p q : FilePath} {todo : List String} {x : DiskName × DiskItem}

def isLink (d : Disk) (p : FilePath) : Bool :=
  match d.find p false with
  | .ok (_, .link _) => true
  | _ => false

/-- Following a link at the end makes no difference unless there is one. -/
theorem walk_not_followed (h : d.walk true links dir todo = .ok x) :
    d.walk false links dir todo = .ok x ∨
      ∃ name target, d.walk false links dir todo = .ok (name, .link target) := by
  fun_induction walk d true links dir todo with
  | case1 dir =>
    rw [walk]
    exact .inl h
  | case2 links dir s rest hb ih =>
    rw [walk_blank (by simpa using hb)]
    exact ih h
  | case3 links dir rest hb ih =>
    rw [walk_up]
    exact ih h
  | case6 links dir s rest hb hu hl hi ih =>
    rw [walk_directory ⟨hb, hu, hl⟩ hi]
    exact ih h
  | case7 links dir s rest hb hu hl content hi hr =>
    rw [List.isEmpty_iff.1 hr, walk_file ⟨hb, hu, hl⟩ hi]
    exact .inl h
  | case9 links dir s rest _ _ _ target hi hl => simp at hl
  | case12 dir s rest hb hu hl target hi _ links hn ih =>
    by_cases hr : rest = []
    · subst hr
      exact .inr ⟨_, _, walk_last_link ⟨hb, hu, hl⟩ hi⟩
    · rw [walk_link ⟨hb, hu, hl⟩ hi (by simp [hr]) hn]
      exact ih h
  | case4 | case5 | case8 | case10 | case11 => cases h

/-- A walk that follows no link at the end comes to a file by its last step. -/
theorem last_of_walk {content : Content}
    (h : d.walk false links dir todo = .ok (name, .file content)) :
    ∃ s, todo.getLast? = some s ∧ name.getLast? = some s ∧ IsStep s := by
  fun_induction walk d false links dir todo with
  | case1 dir => cases h
  | case2 links dir s rest hb ih =>
    obtain ⟨s', hr, hs⟩ := ih h
    exact ⟨s', by rw [List.getLast?_cons, hr]; rfl, hs⟩
  | case3 links dir rest hb ih =>
    obtain ⟨s', hr, hs⟩ := ih h
    exact ⟨s', by rw [List.getLast?_cons, hr]; rfl, hs⟩
  | case6 links dir s rest hb hu hl hi ih =>
    obtain ⟨s', hr, hs⟩ := ih h
    exact ⟨s', by rw [List.getLast?_cons, hr]; rfl, hs⟩
  | case7 links dir s rest hb hu hl content hi hr =>
    cases h
    rw [List.isEmpty_iff.1 hr]
    exact ⟨s, rfl, List.getLast?_concat, ⟨hb, hu, hl⟩⟩
  | case12 dir s rest hb hu hl target hi hf links hn ih =>
    obtain ⟨s', hr, hs⟩ := ih h
    have hne : rest ≠ [] := by simpa using hf
    rw [List.getLast?_append_of_ne_nil _ hne] at hr
    exact ⟨s', by rw [List.getLast?_cons, hr]; rfl, hs⟩
  | case4 | case5 | case8 | case9 | case10 | case11 => cases h

theorem parts_getLast?_of_solid {qs : List (List Char)} {q : List Char}
    (h : solid p.text.toList = qs ++ [q]) (hq : q ≠ ['.', '.']) :
    p.parts.getLast? = some (.name (String.ofList q)) := by
  simp [parts_eq, h, partOf, hq]

theorem filter_solid (cs : List Char) :
    solid cs = ((cs.splitOn '/').filter fun q => q ≠ []).filter fun q => !isHollow q := by
  rw [List.filter_filter, solid]
  refine List.filter_congr fun q _ => ?_
  by_cases hq : q = []
  · subst hq
    rfl
  · simp [hq]

/-- A last step that looks an entry up is the last piece that counts. -/
theorem solid_of_steps {s : String} (h : (steps p.text).getLast? = some s) (hs : IsStep s) :
    ∃ qs, solid p.text.toList = qs ++ [s.toList] := by
  have blank : ¬ (s = "." ∨ s = "") := by simpa using hs.ne_blank
  rw [steps_eq] at h
  split at h
  · rw [List.getLast?_concat] at h
    exact absurd (.inr (Option.some.inj h).symm) blank
  · rw [List.append_nil, stepsOf, List.getLast?_map] at h
    obtain ⟨q, hq, rfl⟩ := Option.map_eq_some_iff.1 h
    obtain ⟨qs, hqs⟩ := List.getLast?_eq_some_iff.1 hq
    have hb : isHollow q = false := by simpa [isHollow, or_comm, ← String.toList_inj] using blank
    have hsolid := filter_solid p.text.toList
    rw [hqs, List.filter_append, List.filter_cons_of_pos (by simp [hb])] at hsolid
    rw [String.toList_ofList]
    exact ⟨_, hsolid⟩

theorem parts_getLast?_of_steps {s : String} (h : (steps p.text).getLast? = some s)
    (hs : IsStep s) : p.parts.getLast? = some (.name s) := by
  obtain ⟨qs, hsolid⟩ := solid_of_steps h hs
  rw [parts_getLast?_of_solid hsolid, String.ofList_toList]
  exact fun hp => hs.ne_points (String.toList_inj.1 hp)

theorem parts_getLast?_absolutePath {s : String} (hn : ∀ s ∈ name, IsName s)
    (h : name.getLast? = some s) : (absolutePath name).parts.getLast? = some (.name s) := by
  rw [parts_absolutePath hn, List.getLast?_cons, List.getLast?_map, h]
  rfl

theorem parts_getLast?_canonical {content : Content} (hd : d.WellFormed)
    (hf : d.find p true = .ok (name, .file content)) (hl : ¬ d.isLink p) :
    p.parts.getLast? = (absolutePath name).parts.getLast? := by
  obtain ⟨hz, he, hb, hw⟩ := find_eq_ok.1 hf
  obtain hw | ⟨name', target, hw⟩ := walk_not_followed hw
  · obtain ⟨s, ht, hlast, hs⟩ := last_of_walk hw
    have hn := hd.isName_of_item? (reaches_of_find hd hf).item_eq
    rw [parts_getLast?_of_steps ht hs, parts_getLast?_absolutePath hn hlast]
  · have hlink : d.find p false = .ok (name', .link target) := find_eq_ok.2 ⟨hz, he, hb, hw⟩
    rw [isLink, hlink] at hl
    exact absurd rfl hl

theorem readText_eq_ok {text : String} :
    d.readText p = .ok text ↔ ∃ name, d.find p true = .ok (name, .file (.text text)) := by
  unfold readText
  split <;> simp_all

theorem parse_eq_ok {f : Format} {text : String} {t : Tree} :
    Tree.parse f text p = .ok t ↔ f.parse text = .ok t := by
  unfold Tree.parse
  split <;> simp_all

theorem load_eq_ok {t : Tree} : Tree.load d p = .ok t ↔ ∃ f name text, Format.ofPath p = .ok f ∧
    d.find p true = .ok (name, .file (.text text)) ∧ f.parse text = .ok t := by
  unfold Tree.load
  constructor
  · intro h
    cases hf : Format.ofPath p with
    | error e => simp [hf, bind, Except.bind] at h
    | ok f =>
      cases ht : d.readText p with
      | error e => simp [hf, ht, bind, Except.bind] at h
      | ok text =>
        simp only [hf, ht, bind, Except.bind] at h
        obtain ⟨name, hn⟩ := readText_eq_ok.1 ht
        exact ⟨f, name, text, rfl, hn, parse_eq_ok.1 h⟩
  · rintro ⟨f, name, text, hf, hn, ht⟩
    simp only [hf, readText_eq_ok.2 ⟨name, hn⟩, bind, Except.bind]
    exact parse_eq_ok.2 ht

theorem ofPath_congr {f : Format} (he : p.parts.getLast? = q.parts.getLast?)
    (h : Format.ofPath p = .ok f) : Format.ofPath q = .ok f := by
  have : p.extension? = q.extension? := by rw [extension?, extension?, fileName?, fileName?, he]
  unfold Format.ofPath at h ⊢
  rw [← this]
  split at h <;> first | exact h | cases h

/-- Paths that end alike and lead to the same entry load the same document. -/
theorem load_congr {t : Tree} (hp : d.find p true = .ok x) (hq : d.find q true = .ok x)
    (he : p.parts.getLast? = q.parts.getLast?) (h : Tree.load d p = .ok t) :
    Tree.load d q = .ok t := by
  obtain ⟨f, name, text, hf, hn, ht⟩ := load_eq_ok.1 h
  rw [hp] at hn
  cases hn
  exact load_eq_ok.2 ⟨f, name, text, ofPath_congr he hf, hq, ht⟩

/-- A path that is no link loads the document of its canonical path. -/
theorem load_canonicalOrGiven {t : Tree} (hd : d.WellFormed) (hl : ¬ d.isLink p)
    (h : Tree.load d p = .ok t) : Tree.load d (d.canonicalOrGiven p) = .ok t := by
  unfold canonicalOrGiven
  split
  · rename_i q hc
    obtain ⟨_, name, text, -, hn, -⟩ := load_eq_ok.1 h
    obtain ⟨name', item, hp, hq, rfl⟩ := find_canonical hd hc
    rw [(find_eq_ok.1 hn).2.2.2] at hp
    cases hp
    exact load_congr hn hq (parts_getLast?_canonical hd hn hl) h
  · exact h

theorem load_eq_of_same {t : Tree} {y : DiskName × DiskItem} (hs : p.same q)
    (hq : d.find q true = .ok y) (h : Tree.load d p = .ok t) : Tree.load d q = .ok t := by
  obtain ⟨_, name, text, -, hn, -⟩ := load_eq_ok.1 h
  have := find_eq_of_same hs hn hq
  subst this
  exact load_congr hn hq (by rw [of_decide_eq_true hs]) h

end Schemata.Disk
