import Schemata.Proofs.File.Joining

/-!
# Writing to a disk

Making directories and writing files changes a disk in few places: what is new is a directory or
one of the files, and of what was there only these files get another content. Directories and links
stay what they are, so that a path goes on leading to the file that was written under it.
-/

namespace Schemata.Disk

open FilePath

variable {d d' d'' : Disk} {dir name other above : DiskName} {names names' : List DiskName}
  {item : DiskItem} {content : Content} {followLast : Bool} {links fuel : Nat} {p : FilePath}
  {text s target : String} {todo before rest : List String}

theorem lookup_replaced (items : List (DiskName × DiskItem)) :
    (items.map fun e => if e.1 = name then (name, item) else e).lookup other =
      if other = name ∧ items.any (·.1 = name) then some item else items.lookup other := by
  induction items with
  | nil => simp
  | cons e items ih =>
    obtain ⟨n, i⟩ := e
    by_cases ho : other = n
    · subst ho
      by_cases hn : other = name <;> simp [hn]
    · have hb : (other == n) = false := beq_eq_false_iff_ne.2 ho
      by_cases hn : n = name
      · subst hn
        simp [List.lookup_cons, ho, hb, ih]
      · simp only [List.map_cons, hn, if_false, List.lookup_cons, hb, List.any_cons, decide_false,
          Bool.false_or, ih]

theorem lookup_setItem : (d.setItem name item).items.lookup other =
    if other = name then some item else d.items.lookup other := by
  rw [setItem]
  split
  · rename_i known
    simp only [lookup_replaced, known, and_true]
  · rename_i unknown
    have missing : d.items.lookup name = none := by
      rw [List.lookup_eq_none_iff]
      intro e he
      rw [bne_iff_ne]
      rintro rfl
      exact unknown (List.any_eq_true.2 ⟨e, he, by simp⟩)
    rw [List.lookup_append]
    by_cases hs : other = name
    · subst hs
      simp [missing]
    · have hb : (other == name) = false := beq_eq_false_iff_ne.2 hs
      simp [hs, List.lookup_cons, hb]

theorem item?_setItem (hn : name ≠ []) :
    (d.setItem name item).item? other = if other = name then some item else d.item? other := by
  by_cases ho : other = []
  · subst ho
    rw [if_neg hn.symm]
    rfl
  · rw [item?, item?, if_neg ho, if_neg ho, lookup_setItem]

/-- What may become of an item while files are written, one of them under its name if `here`. -/
inductive Later (here : Prop) : Option DiskItem → Option DiskItem → Prop
  | kept (x : Option DiskItem) : Later here x x
  | made : Later here none (some .directory)
  | created (content : Content) : here → Later here none (some (.file content))
  | replaced (before after : Content) :
    here → Later here (some (.file before)) (some (.file after))

theorem Later.imp {here there : Prop} (h : here → there) {x y : Option DiskItem}
    (hx : Later here x y) : Later there x y := by
  cases hx with
  | kept => exact .kept _
  | made => exact .made
  | created c hh => exact .created c (h hh)
  | replaced c c' hh => exact .replaced c c' (h hh)

theorem Later.trans {here : Prop} {x y z : Option DiskItem} (h : Later here x y)
    (h' : Later here y z) : Later here x z := by
  cases h with
  | kept => exact h'
  | made =>
    cases h'
    exact .made
  | created c hh =>
    cases h' with
    | kept => exact .created c hh
    | replaced _ c' _ => exact .created c' hh
  | replaced c c' hh =>
    cases h' with
    | kept => exact .replaced c c' hh
    | replaced _ c'' _ => exact .replaced c c'' hh

theorem Later.directory {here : Prop} {y : Option DiskItem} (h : Later here (some .directory) y) :
    y = some .directory := by
  cases h
  rfl

theorem Later.file {here : Prop} {y : Option DiskItem} (h : Later here (some (.file content)) y) :
    ∃ content', y = some (.file content') := by
  cases h <;> exact ⟨_, rfl⟩

theorem Later.link_iff {here : Prop} {x y : Option DiskItem} (h : Later here x y) :
    y = some (.link target) ↔ x = some (.link target) := by
  cases h <;> simp

theorem Later.eq_or {here : Prop} {x y : Option DiskItem} (h : Later here x y) (hn : ¬ here) :
    y = x ∨ x = none ∧ y = some .directory := by
  cases h with
  | kept => exact .inl rfl
  | made => exact .inr ⟨rfl, rfl⟩
  | created _ hh => exact absurd hh hn
  | replaced _ _ hh => exact absurd hh hn

/-- The second disk is the first one after some files were written under the names. -/
structure Grows (d : Disk) (names : List DiskName) (d' : Disk) : Prop where
  current : d'.current = d.current
  later : ∀ name, Later (name ∈ names) (d.item? name) (d'.item? name)

namespace Grows

theorem refl (d : Disk) : d.Grows [] d := ⟨rfl, fun _ => .kept _⟩

theorem mono (h : d.Grows names d') (hn : names ⊆ names') : d.Grows names' d' :=
  ⟨h.current, fun name => (h.later name).imp fun hm => hn hm⟩

theorem trans (h : d.Grows names d') (h' : d'.Grows names' d'') : d.Grows (names ++ names') d'' :=
  have left := h.mono (List.subset_append_left names names')
  have right := h'.mono (List.subset_append_right names names')
  ⟨h'.current.trans h.current, fun name => (left.later name).trans (right.later name)⟩

theorem directory (h : d.Grows names d') (hi : d.item? name = some .directory) :
    d'.item? name = some .directory :=
  (hi ▸ h.later name).directory

theorem link_iff (h : d.Grows names d') :
    d'.item? name = some (.link target) ↔ d.item? name = some (.link target) :=
  (h.later name).link_iff

theorem file (h : d.Grows names d') (hi : d.item? name = some (.file content)) :
    ∃ content', d'.item? name = some (.file content') :=
  (hi ▸ h.later name).file

/-- Apart from the files written, what is new is a directory. -/
theorem item?_eq_or (h : d.Grows names d') (hn : name ∉ names) :
    d'.item? name = d.item? name ∨ d.item? name = none ∧ d'.item? name = some .directory :=
  (h.later name).eq_or hn

theorem file_eq (h : d.Grows names d') (hn : name ∉ names)
    (hi : d.item? name = some (.file content)) : d'.item? name = some (.file content) := by
  rcases h.item?_eq_or hn with he | ⟨he, -⟩
  · rw [he, hi]
  · rw [hi] at he
    cases he

theorem start (h : d.Grows names d') (p : FilePath) : d'.start p = d.start p := by
  rw [Disk.start, Disk.start, h.current]

theorem walk (h : d.Grows names d')
    (hw : d.walk followLast links dir todo = .ok (name, .directory)) :
    d'.walk followLast links dir todo = .ok (name, .directory) := by
  fun_induction Disk.walk d followLast links dir todo with
  | case1 dir =>
    rw [Disk.walk]
    exact hw
  | case2 links dir s rest hb ih =>
    rw [walk_blank (by simpa using hb)]
    exact ih hw
  | case3 links dir rest hb ih =>
    rw [walk_up]
    exact ih hw
  | case6 links dir s rest hb hu hl hi ih =>
    rw [walk_directory ⟨hb, hu, hl⟩ (h.directory hi)]
    exact ih hw
  | case12 dir s rest hb hu hl target hi hf links hn ih =>
    rw [walk_link ⟨hb, hu, hl⟩ (h.link_iff.2 hi) hf hn]
    exact ih hw
  | case4 | case5 | case7 | case8 | case9 | case10 | case11 => cases hw

end Grows

theorem item?_of_place (h : d.place links dir todo = .ok name) :
    name ≠ [] ∧ (d.item? name = none ∨ ∃ content, d.item? name = some (.file content)) := by
  fun_induction place d links dir todo with
  | case2 links dir s rest hb ih => exact ih h
  | case3 links dir rest hb ih => exact ih h
  | case6 links dir s rest hb hu hs hl hi hr =>
    cases h
    exact ⟨by simp, .inl hi⟩
  | case8 links dir s rest hb hu hs hl hi ih => exact ih h
  | case9 links dir s rest hb hu hs hl content hi hr =>
    cases h
    exact ⟨by simp, .inr ⟨content, hi⟩⟩
  | case13 dir s rest hb hu hs hl target hi links hn ih => exact ih h
  | case1 | case4 | case5 | case7 | case10 | case11 | case12 => cases h

/-- A file is found where it was written, whatever was written since. -/
theorem walk_of_place (h : d.place links dir todo = .ok name) (hg : d.Grows names d')
    (hi : d'.item? name = some (.file content)) :
    d'.walk true links dir todo = .ok (name, .file content) := by
  fun_induction place d links dir todo with
  | case2 links dir s rest hb ih =>
    rw [walk_blank (by simpa using hb)]
    exact ih h
  | case3 links dir rest hb ih =>
    rw [walk_up]
    exact ih h
  | case6 links dir s rest hb hu hs hl _ hr =>
    cases h
    rw [List.isEmpty_iff.1 hr]
    exact walk_file ⟨hb, hu, hl⟩ hi
  | case8 links dir s rest hb hu hs hl hd ih =>
    rw [walk_directory ⟨hb, hu, hl⟩ (hg.directory hd)]
    exact ih h
  | case9 links dir s rest hb hu hs hl _ _ hr =>
    cases h
    rw [List.isEmpty_iff.1 hr]
    exact walk_file ⟨hb, hu, hl⟩ hi
  | case13 dir s rest hb hu hs hl target ht links hn ih =>
    rw [walk_link ⟨hb, hu, hl⟩ (hg.link_iff.2 ht) (by simp) hn]
    exact ih h
  | case1 | case4 | case5 | case7 | case10 | case11 | case12 => cases h

theorem place_blank (h : s = "." ∨ s = "") :
    d.place links dir (s :: rest) = d.place links dir rest := by
  rw [place, if_pos (by simpa using h)]

theorem place_up : d.place links dir (".." :: rest) = d.place links dir.dropLast rest := by
  rw [place, if_neg (by decide), if_pos rfl]

theorem place_cons (hb : ¬ (decide (s = ".") || decide (s = "")) = true) (hu : s ≠ "..") :
    d.place links dir (s :: rest) =
      if rest = [""] then .error .isADirectory
      else if s.utf8ByteSize > 255 then .error .nameTooLong
      else
        match d.item? (dir ++ [s]) with
        | none => if rest.isEmpty then .ok (dir ++ [s]) else .error .notFound
        | some .directory => d.place links (dir ++ [s]) rest
        | some (.file _) => if rest.isEmpty then .ok (dir ++ [s]) else .error .notADirectory
        | some (.link target) =>
          match links with
          | 0 => .error .tooManyLinks
          | links + 1 =>
            if target = "" then .error .notFound
            else
              d.place links (if target.startsWith "/" then [] else dir) (steps target ++ rest) := by
  rw [place, if_neg hb, if_neg hu]
  split
  · rfl
  · split
    · rfl
    · split <;> cases links <;> simp_all

/-- The steps before the last ones lead to a directory. -/
theorem place_append (hr : rest ≠ []) (hs : rest ≠ [""])
    (h : d.place links dir (before ++ rest) = .ok name) : ∃ links' above,
      d.walk true links dir before = .ok (above, .directory) ∧
        d.place links' above rest = .ok name := by
  have slash (before : List String) : before ++ rest ≠ [""] := by
    cases before with
    | nil => exact hs
    | cons s before => simp [hr]
  have more (before : List String) : (before ++ rest).isEmpty = false := by simp [hr]
  fun_induction walk d true links dir before with
  | case1 links dir => exact ⟨links, dir, rfl, h⟩
  | case2 links dir s before hb ih =>
    rw [List.cons_append, place_blank (by simpa using hb)] at h
    exact ih h
  | case3 links dir before hb ih =>
    rw [List.cons_append, place_up] at h
    exact ih h
  | case6 links dir s before hb hu hl hi ih =>
    rw [List.cons_append, place_cons hb hu, if_neg (slash before), if_neg hl, hi] at h
    exact ih h
  | case12 dir s before hb hu hl target hi hf links hn ih =>
    rw [List.cons_append, place_cons hb hu, if_neg (slash before), if_neg hl, hi] at h
    rw [List.append_assoc] at ih
    simp only [hn, if_false] at h
    exact ih h
  | case9 links dir s before hb hu hl target hi hf => simp at hf
  | case4 | case5 | case7 | case8 | case10 | case11 =>
    -- the steps end here in an error, as there are more steps to go
    rw [List.cons_append, place_cons (by assumption) (by assumption), if_neg (slash _)] at h
    split at h <;> simp_all

theorem eq_of_place (hs : ∀ s ∈ todo, IsPiece s)
    (hl : ∀ way target, d.item? (dir ++ way) ≠ some (.link target))
    (h : d.place links dir todo = .ok name) : name = dir ++ todo := by
  induction todo generalizing dir with
  | nil =>
    rw [place] at h
    cases h
  | cons s rest ih =>
    have piece : IsPiece s := hs s List.mem_cons_self
    have slash : rest ≠ [""] := by
      rintro rfl
      exact (hs "" (by simp)).ne_empty rfl
    have last (hr : rest.isEmpty) : dir ++ [s] = dir ++ s :: rest := by rw [List.isEmpty_iff.1 hr]
    rw [place_cons (by simp [piece.ne_point, piece.ne_empty]) piece.ne_points, if_neg slash] at h
    split at h
    · cases h
    split at h
    · split at h <;> cases h
      exact last (by assumption)
    · have deeper := ih (fun t ht => hs t (List.mem_cons_of_mem s ht))
        (fun way target => by simpa using hl (s :: way) target) h
      rw [deeper, List.append_assoc, List.singleton_append]
    · split at h <;> cases h
      exact last (by assumption)
    · rename_i hi
      exact absurd hi (hl [s] _)

theorem grows_setItem (hn : name ≠ [])
    (h : Later (name ∈ names) (d.item? name) (some item)) :
    d.Grows names (d.setItem name item) := by
  refine ⟨?_, fun other => ?_⟩
  · unfold setItem
    split <;> rfl
  · rw [item?_setItem hn]
    split
    · rename_i he
      rw [he]
      exact h
    · exact .kept _

/-- A file is written where its path leads. -/
theorem grows_of_place (h : d.place links dir todo = .ok name) (content : Content) :
    d.Grows [name] (d.setItem name (.file content)) := by
  obtain ⟨hn, hi⟩ := item?_of_place h
  refine grows_setItem hn ?_
  rcases hi with hi | ⟨before, hi⟩ <;> rw [hi]
  · exact .created _ List.mem_cons_self
  · exact .replaced _ _ List.mem_cons_self

theorem exists_last_step {steps back : List String} {last : String}
    (h : steps.reverse.dropWhile (· = "") = last :: back) : last ≠ "" ∧
      ∃ blanks, steps = back.reverse ++ last :: blanks ∧ ∀ s ∈ blanks, s = "" := by
  have whole : steps.reverse.takeWhile (· = "") ++ last :: back = steps.reverse := by
    rw [← h, List.takeWhile_append_dropWhile]
  have hlast := List.head?_dropWhile_not (· = "") steps.reverse
  have hblank := List.all_takeWhile (p := fun s : String => decide (s = "")) (l := steps.reverse)
  refine ⟨?_, (steps.reverse.takeWhile (· = "")).reverse, ?_, ?_⟩
  · rw [h] at hlast
    simpa using hlast
  · have back := congrArg List.reverse whole
    simpa using back.symm
  · intro s hs
    simpa using List.all_eq_true.1 hblank s (List.mem_reverse.1 hs)

theorem makeDirectory_eq_ok (h : d.makeDirectory p = .ok d') : d.find p false = .error .notFound ∧
    ∃ before last blanks dir, steps p.text = before ++ last :: blanks ∧ (∀ s ∈ blanks, s = "") ∧
      last ≠ "" ∧ last ≠ "." ∧ last ≠ ".." ∧
      d.walk true maxLinks (d.start p) before = .ok (dir, .directory) ∧
      d.item? (dir ++ [last]) = none ∧ d' = d.setItem (dir ++ [last]) .directory := by
  unfold makeDirectory at h
  split at h
  · cases h
  · rename_i hfind
    refine ⟨hfind, ?_⟩
    simp only at h
    split at h
    · cases h
    · rename_i last back hback
      split at h
      · cases h
      · rename_i hpoints
        split at h
        · rename_i dir hwalk
          split at h
          · cases h
          · rename_i hfree
            cases h
            obtain ⟨hempty, blanks, hsteps, hblanks⟩ := exists_last_step hback
            rw [Bool.or_eq_true, decide_eq_true_iff, decide_eq_true_iff, not_or] at hpoints
            exact ⟨back.reverse, last, blanks, dir, hsteps, hblanks, hempty, hpoints.1, hpoints.2,
              hwalk, by simpa using hfree, rfl⟩
        · cases h
        · cases h
  · cases h

theorem grows_makeDirectory (h : d.makeDirectory p = .ok d') : d.Grows [] d' := by
  obtain ⟨-, before, last, blanks, dir, -, -, -, -, -, -, hfree, rfl⟩ := makeDirectory_eq_ok h
  refine grows_setItem (by simp) ?_
  rw [hfree]
  exact .made

/-- What holds of a disk and is kept by making a directory holds when the directories that a path
needs have been made, as far as that could be done. -/
theorem of_makeDirectoriesAt {P : Disk → Prop}
    (hstep : ∀ {d d' p}, P d → d.makeDirectory p = .ok d' → P d') (hd : P d) :
    P (makeDirectoriesAt fuel d p).2 := by
  fun_induction makeDirectoriesAt fuel d p with
  | case1 | case6 | case7 => exact hd
  | case2 fuel d p hp d₁ hm => exact hstep hd hm
  | case3 d p hp hm fuel q hq e d₁ ha ih =>
    rw [ha] at ih
    exact ih hd
  | case4 d p hp hm fuel q hq d₁ ha d₂ hm' ih =>
    rw [ha] at ih
    exact hstep (ih hd) hm'
  | case5 d p hp hm fuel q hq d₁ ha e hm' ih =>
    rw [ha] at ih
    exact ih hd

theorem grows_makeDirectoriesAt : d.Grows [] (makeDirectoriesAt fuel d p).2 :=
  of_makeDirectoriesAt (fun hg hm => hg.trans (grows_makeDirectory hm)) (.refl d)

theorem writeText_eq_ok : d.writeText p text = .ok d' ↔
    Char.ofNat 0 ∉ p.text.toList ∧ p.text ≠ "" ∧ p.text.utf8ByteSize < 4096 ∧
      ∃ name, d.place maxLinks (d.start p) (steps p.text) = .ok name ∧
        d' = d.setItem name (.file (.text text)) := by
  unfold writeText start
  split
  · simp_all
  split
  · simp_all
  split
  · simp_all
  split
  · rename_i name hp
    simp_all only [Except.ok.injEq, exists_eq_left', eq_comm (a := d')]
    simp_all
  · simp_all

end Schemata.Disk
