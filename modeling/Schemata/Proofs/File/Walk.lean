import Schemata.Reference.Reach

/-!
# Walking through a disk

On a well-formed disk every entry has a name that could be typed as one piece of a path, and the
current directory is there. A walk that finds something ends at an entry whose directories all
stand, so that walking there by its own name finds the same. Steps that stay in place may be left
out of a walk.
-/

namespace Schemata.Disk

variable {d : Disk} {dir name : DiskName} {item : DiskItem} {followLast : Bool} {links : Nat}
  {todo todo' : List String} {x : DiskName × DiskItem}

/-- What can name an entry of a directory. -/
structure IsName (s : String) : Prop where
  ne_empty : s ≠ ""
  ne_point : s ≠ "."
  ne_points : s ≠ ".."
  slash_notMem : '/' ∉ s.toList
  nul_notMem : Char.ofNat 0 ∉ s.toList
  size_le : s.utf8ByteSize ≤ 255

/-- The directory is there with all directories above it. -/
def Stands (d : Disk) (dir : DiskName) : Prop :=
  ∀ above ∈ beginnings dir, d.item? above = some .directory

/-- What holds of the files of every machine. -/
structure WellFormed (d : Disk) : Prop where
  names : ∀ e ∈ d.items, ∀ s ∈ e.1, IsName s
  current : d.Stands d.current

instance (s : String) : Decidable (IsName s) :=
  decidable_of_iff (s ≠ "" ∧ s ≠ "." ∧ s ≠ ".." ∧ '/' ∉ s.toList ∧ Char.ofNat 0 ∉ s.toList ∧
      s.utf8ByteSize ≤ 255)
    ⟨fun ⟨h₁, h₂, h₃, h₄, h₅, h₆⟩ => ⟨h₁, h₂, h₃, h₄, h₅, h₆⟩,
      fun ⟨h₁, h₂, h₃, h₄, h₅, h₆⟩ => ⟨h₁, h₂, h₃, h₄, h₅, h₆⟩⟩

instance (d : Disk) (dir : DiskName) : Decidable (d.Stands dir) :=
  inferInstanceAs (Decidable (∀ above ∈ beginnings dir, d.item? above = some .directory))

instance (d : Disk) : Decidable d.WellFormed :=
  decidable_of_iff ((∀ e ∈ d.items, ∀ s ∈ e.1, IsName s) ∧ d.Stands d.current)
    ⟨fun ⟨h₁, h₂⟩ => ⟨h₁, h₂⟩, fun ⟨h₁, h₂⟩ => ⟨h₁, h₂⟩⟩

theorem stands_nil (d : Disk) : d.Stands [] := by
  intro above h
  rw [List.mem_singleton.1 h]
  rfl

theorem Stands.item_eq (h : d.Stands dir) : d.item? dir = some .directory :=
  h dir (mem_beginnings.2 (List.prefix_refl dir))

theorem Stands.of_prefix (h : d.Stands dir) (hn : name <+: dir) : d.Stands name :=
  fun above ha => h above (mem_beginnings.2 ((mem_beginnings.1 ha).trans hn))

theorem Stands.dropLast (h : d.Stands dir) : d.Stands dir.dropLast :=
  h.of_prefix (List.dropLast_prefix dir)

theorem Stands.concat (h : d.Stands dir) {s : String}
    (hi : d.item? (dir ++ [s]) = some .directory) : d.Stands (dir ++ [s]) := by
  intro above ha
  rcases List.prefix_concat_iff.1 (mem_beginnings.1 ha) with rfl | hp
  · exact hi
  · exact h above (mem_beginnings.2 hp)

theorem WellFormed.isName_of_item? (h : d.WellFormed) (hi : d.item? name = some item) :
    ∀ s ∈ name, IsName s := by
  intro s hs
  exact h.names _ (mem_items_of_item? hi (List.ne_nil_of_mem hs)) s hs

structure Reaches (d : Disk) (x : DiskName × DiskItem) : Prop where
  item_eq : d.item? x.1 = some x.2
  stands : d.Stands x.1.dropLast

theorem Stands.reaches (h : d.Stands dir) : d.Reaches (dir, .directory) :=
  ⟨h.item_eq, h.dropLast⟩

theorem reaches_of_walk (hd : d.Stands dir) (h : d.walk followLast links dir todo = .ok x) :
    d.Reaches x := by
  fun_induction walk d followLast links dir todo with
  | case1 dir =>
    cases h
    exact hd.reaches
  | case2 links dir s rest hb ih => exact ih hd h
  | case3 links dir rest hb ih => exact ih hd.dropLast h
  | case4 => cases h
  | case5 => cases h
  | case6 links dir s rest _ _ _ hi ih => exact ih (hd.concat hi) h
  | case7 links dir s rest _ _ _ content hi =>
    cases h
    exact ⟨hi, by simpa using hd⟩
  | case8 => cases h
  | case9 links dir s rest _ _ _ target hi =>
    cases h
    exact ⟨hi, by simpa using hd⟩
  | case10 => cases h
  | case11 => cases h
  | case12 dir s rest _ _ _ target hi _ links _ ih =>
    refine ih ?_ h
    split
    · exact stands_nil d
    · exact hd

theorem walk_ne_link (h : d.walk true links dir todo = .ok x) (target : String) :
    x.2 ≠ .link target := by
  fun_induction walk d true links dir todo with
  | case1 | case7 =>
    cases h
    simp
  | case2 | case3 | case6 | case12 =>
    rename_i ih
    exact ih h
  | case9 links dir s rest _ _ _ target hi hl =>
    simp at hl
  | case4 | case5 | case8 | case10 | case11 => cases h

/-- A step that looks an entry up. -/
structure IsStep (s : String) : Prop where
  ne_blank : ¬ (decide (s = ".") || decide (s = "")) = true
  ne_points : s ≠ ".."
  size_le : ¬ s.utf8ByteSize > 255

theorem IsName.isStep {s : String} (h : IsName s) : IsStep s :=
  ⟨by simp [h.ne_point, h.ne_empty], h.ne_points, Nat.not_lt.2 h.size_le⟩

variable {s target : String} {rest : List String}

theorem walk_blank (h : s = "." ∨ s = "") :
    d.walk followLast links dir (s :: rest) = d.walk followLast links dir rest := by
  rw [walk, if_pos (by simpa using h)]

theorem walk_up : d.walk followLast links dir (".." :: rest) =
    d.walk followLast links dir.dropLast rest := by
  rw [walk, if_neg (by decide), if_pos rfl]

/-- A step that stays neither in place nor goes up depends on the entry that it names. -/
theorem walk_cons (hb : ¬ (decide (s = ".") || decide (s = "")) = true) (hu : s ≠ "..") :
    d.walk followLast links dir (s :: rest) =
      if s.utf8ByteSize > 255 then .error .nameTooLong
      else
        match d.item? (dir ++ [s]) with
        | none => .error .notFound
        | some .directory => d.walk followLast links (dir ++ [s]) rest
        | some (.file content) =>
          if rest.isEmpty then .ok (dir ++ [s], .file content) else .error .notADirectory
        | some (.link target) =>
          if rest.isEmpty && !followLast then .ok (dir ++ [s], .link target)
          else
            match links with
            | 0 => .error .tooManyLinks
            | links + 1 =>
              if target = "" then .error .notFound
              else
                d.walk followLast links (if target.startsWith "/" then [] else dir)
                  (steps target ++ rest) := by
  rw [walk, if_neg hb, if_neg hu]
  split
  · rfl
  · split <;> cases links <;> simp_all

theorem walk_directory (h : IsStep s) (hi : d.item? (dir ++ [s]) = some .directory) :
    d.walk followLast links dir (s :: rest) = d.walk followLast links (dir ++ [s]) rest := by
  rw [walk, if_neg h.ne_blank, if_neg h.ne_points, if_neg h.size_le]
  split <;> simp_all

theorem walk_file (h : IsStep s) {content : Content}
    (hi : d.item? (dir ++ [s]) = some (.file content)) :
    d.walk followLast links dir [s] = .ok (dir ++ [s], .file content) := by
  rw [walk, if_neg h.ne_blank, if_neg h.ne_points, if_neg h.size_le]
  split <;> simp_all

theorem walk_link (h : IsStep s) (hi : d.item? (dir ++ [s]) = some (.link target))
    (hf : ¬ (rest.isEmpty && !followLast) = true) (ht : target ≠ "") :
    d.walk followLast (links + 1) dir (s :: rest) =
      d.walk followLast links (if target.startsWith "/" then [] else dir)
        (steps target ++ rest) := by
  rw [walk, if_neg h.ne_blank, if_neg h.ne_points, if_neg h.size_le]
  split <;> simp_all

theorem walk_last_link (h : IsStep s) (hi : d.item? (dir ++ [s]) = some (.link target)) :
    d.walk false links dir [s] = .ok (dir ++ [s], .link target) := by
  rw [walk, if_neg h.ne_blank, if_neg h.ne_points, if_neg h.size_le]
  split <;> simp_all

/-- Steps with some of those left out that stay in place. -/
inductive Trims : List String → List String → Prop
  | nil : Trims [] []
  | keep (s : String) {ss ts : List String} : Trims ss ts → Trims (s :: ss) (s :: ts)
  | drop {s : String} {ss ts : List String} : s = "." ∨ s = "" → Trims ss ts → Trims (s :: ss) ts

theorem Trims.refl (ss : List String) : Trims ss ss := by
  induction ss with
  | nil => exact .nil
  | cons s ss ih => exact .keep s ih

theorem Trims.append {ss ts us vs : List String} (h : Trims ss ts) (h' : Trims us vs) :
    Trims (ss ++ us) (ts ++ vs) := by
  induction h with
  | nil => exact h'
  | keep s _ ih => exact .keep s ih
  | drop hb _ ih => exact .drop hb ih

theorem Trims.eq_nil {ts : List String} (h : Trims [] ts) : ts = [] := by
  cases h
  rfl

theorem IsStep.trims (h : IsStep s) {ss ts : List String} (ht : Trims (s :: ss) ts) :
    ∃ ts', ts = s :: ts' ∧ Trims ss ts' := by
  cases ht with
  | keep _ ht => exact ⟨_, rfl, ht⟩
  | drop hb _ => exact absurd (by simpa using hb) h.ne_blank

theorem walk_of_trims (h : d.walk true links dir todo = .ok x) (ht : Trims todo todo') :
    d.walk true links dir todo' = .ok x := by
  fun_induction walk d true links dir todo generalizing todo' with
  | case1 dir =>
    rw [ht.eq_nil, walk, h]
  | case2 links dir s rest hb ih =>
    cases ht with
    | keep _ ht =>
      rw [walk_blank (by simpa using hb)]
      exact ih h ht
    | drop _ ht => exact ih h ht
  | case3 links dir rest hb ih =>
    cases ht with
    | keep _ ht =>
      rw [walk_up]
      exact ih h ht
    | drop hb' _ => simp at hb'
  | case6 links dir s rest hb hu hl hi ih =>
    obtain ⟨rest', rfl, ht'⟩ := IsStep.trims ⟨hb, hu, hl⟩ ht
    rw [walk_directory ⟨hb, hu, hl⟩ hi]
    exact ih h ht'
  | case7 links dir s rest hb hu hl content hi hr =>
    obtain ⟨rest', rfl, ht'⟩ := IsStep.trims ⟨hb, hu, hl⟩ ht
    rw [List.isEmpty_iff.1 hr] at ht'
    rw [ht'.eq_nil, walk_file ⟨hb, hu, hl⟩ hi, h]
  | case12 dir s rest hb hu hl target hi _ links hn ih =>
    obtain ⟨rest', rfl, ht'⟩ := IsStep.trims ⟨hb, hu, hl⟩ ht
    rw [walk_link ⟨hb, hu, hl⟩ hi (by simp) hn]
    exact ih h ((Trims.refl _).append ht')
  | case9 links dir s rest _ _ _ target hi hl =>
    simp at hl
  | case4 | case5 | case8 | case10 | case11 => cases h

/-- Steps with some of those left out that stay in place, but not at the end. -/
inductive TrimsInside : List String → List String → Prop
  | refl (ss : List String) : TrimsInside ss ss
  | keep (s : String) {ss ts : List String} : ss ≠ [] → ts ≠ [] → TrimsInside ss ts →
    TrimsInside (s :: ss) (s :: ts)
  | drop {s : String} {ss ts : List String} : s = "." ∨ s = "" → TrimsInside ss ts →
    TrimsInside (s :: ss) ts

theorem Trims.inside {before before' : List String} (h : Trims before before') (hn : rest ≠ []) :
    TrimsInside (before ++ rest) (before' ++ rest) := by
  induction h with
  | nil => exact .refl rest
  | keep s _ ih => exact .keep s (by simp [hn]) (by simp [hn]) ih
  | drop hb _ ih => exact .drop hb ih

theorem TrimsInside.append_left {ss ts : List String} (before : List String) (hs : ss ≠ [])
    (ht : ts ≠ []) (h : TrimsInside ss ts) : TrimsInside (before ++ ss) (before ++ ts) := by
  induction before with
  | nil => exact h
  | cons s before ih => exact .keep s (by simp [hs]) (by simp [ht]) ih

/-- Leaving out steps that stay in place, but not at the end, makes no difference to a walk. -/
theorem walk_of_trimsInside (ht : TrimsInside todo todo') :
    d.walk followLast links dir todo = d.walk followLast links dir todo' := by
  induction links, dir, todo using walk.induct d followLast generalizing todo' with
  | case1 links dir =>
    cases ht
    rfl
  | case2 links dir s rest hb ih =>
    rw [walk_blank (by simpa using hb)]
    cases ht with
    | refl => rw [walk_blank (by simpa using hb)]
    | keep _ _ _ ht =>
      rw [walk_blank (by simpa using hb)]
      exact ih ht
    | drop _ ht => exact ih ht
  | case3 links dir rest hb ih =>
    cases ht with
    | refl => rfl
    | keep _ _ _ ht =>
      rw [walk_up, walk_up]
      exact ih ht
    | drop hb' _ => simp at hb'
  | case6 links dir s rest hb hu hl hi ih =>
    cases ht with
    | refl => rfl
    | keep _ _ _ ht =>
      rw [walk_directory ⟨hb, hu, hl⟩ hi, walk_directory ⟨hb, hu, hl⟩ hi]
      exact ih ht
    | drop hb' _ => exact absurd (by simpa using hb') hb
  | case12 dir s rest hb hu hl target hi hf links hn ih =>
    cases ht with
    | refl => rfl
    | keep _ hs hs' ht =>
      rw [walk_link ⟨hb, hu, hl⟩ hi hf hn, walk_link ⟨hb, hu, hl⟩ hi (by simp [hs']) hn]
      exact ih (ht.append_left _ hs hs')
    | drop hb' _ => exact absurd (by simpa using hb') hb
  | case4 | case5 | case7 | case8 | case9 | case10 | case11 =>
    -- the walk ends here, in the same way for whatever steps there are behind this one
    cases ht with
    | refl => rfl
    | keep _ hs hs' ht =>
      rw [walk_cons (by assumption) (by assumption), walk_cons (by assumption) (by assumption)]
      simp_all
    | drop hb _ => simp_all

/-- Walking to an entry by its own name. -/
theorem walk_name {names : DiskName} (hd : d.Reaches (dir ++ names, item)) (hn : names ≠ [])
    (hs : ∀ s ∈ names, IsName s) (hl : ∀ target, item ≠ .link target) :
    d.walk followLast links dir names = .ok (dir ++ names, item) := by
  induction names generalizing dir with
  | nil => exact absurd rfl hn
  | cons s names ih =>
    have step : IsStep s := (hs s List.mem_cons_self).isStep
    by_cases hr : names = []
    · subst hr
      cases item with
      | file content => exact walk_file step hd.item_eq
      | directory =>
        rw [walk_directory step hd.item_eq, walk]
      | link target => exact absurd rfl (hl target)
    · rw [List.append_cons] at hd ⊢
      rw [walk_directory step, ih hd hr fun s hs' => hs s (List.mem_cons_of_mem _ hs')]
      refine (hd.stands.of_prefix ?_).item_eq
      rw [List.dropLast_append_of_ne_nil hr]
      exact List.prefix_append _ _

end Schemata.Disk
