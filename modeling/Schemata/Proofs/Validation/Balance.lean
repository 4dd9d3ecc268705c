import Schemata.Proofs.Validation.Pairs

/-!
# What a walk gives back

A target is entered before the walk through it and left behind it, whether that comes to its end or
breaks off. So every part of a walk leaves the stack as it finds it, and takes back nothing that was
found or checked before. It follows that a reference counts from the file that it is written in,
whatever targets have been visited before it: the stack could as well not be asked for the file.
-/

namespace Schemata.Walk

variable {g : Tree → List Violation} {d : Disk}

def Restores (act : Walk → Outcome) : Prop :=
  ∀ w, w.stack.keys ≠ [] → (act w).2.stack = w.stack

namespace Restores

theorem compositional : Compositional Restores where
  pass _ _ := rfl
  report base vs h w hw := h (w.report base vs) hw
  andThen {act act'} h h' w hw := by
    have hstack := h w hw
    rw [andThen]
    rcases he : act w with ⟨e | _, w'⟩ <;> rw [he] at hstack
    · exact hstack
    · exact (h' w' (hstack ▸ hw)).trans hstack

theorem leave (key : ResolutionKey) (out : Outcome) :
    (leave key out).2.stack = out.2.stack.pop.2 := by
  rcases out with ⟨e | _, w⟩ <;> rfl

theorem descend (room : Nat) (raw : String) (base : TreePath) :
    Restores (descend g d room raw base) := by
  refine compositional.descend (fun room hin raw base w hw => ?_) room raw base
  rcases hres : w.resolver.resolve d raw w.stack with ⟨o, r'⟩
  obtain ⟨o', he⟩ | ⟨target, stack, room', -, hp, hroom, he⟩ :=
    descend_stays_or_enters g room base hres <;> rw [he]
  rw [leave, hin room' hroom _ _ _ (ResolutionStack.push_ne_nil hp),
    ResolutionStack.pop_of_push hp hw]

end Restores

/-- A part of the walk keeps the targets checked before it. -/
def Remembers (act : Walk → Outcome) : Prop := ∀ w, w.checked <+: (act w).2.checked

namespace Remembers

theorem progress (d : Disk) : Progress d fun w w' => w.checked <+: w'.checked where
  refl w := List.prefix_refl w.checked
  trans h h' := h.trans h'
  report w _ _ := List.prefix_refl w.checked
  resolved w _ := List.prefix_refl w.checked
  moved w _ := List.prefix_refl w.checked
  done w key := List.prefix_append w.checked [key]

theorem compositional (d : Disk) : Compositional Remembers := (progress d).compositional

theorem descend (room : Nat) (raw : String) (base : TreePath) :
    Remembers (descend g d room raw base) :=
  (progress d).descend room raw base

end Remembers

/-- Follows a reference that is written in the file, with no regard to what the stack says of it.
The target is walked through as what it is, a part of its own file. -/
def descendIn (g : Tree → List Violation) (d : Disk) :
    (room : Nat) → FilePath → String → TreePath → Walk → Outcome
  | room, file, raw, base, w =>
    match w.resolver.resolveIn d raw file with
    | (.error e, r) => (.error e, { w with resolver := r })
    | (.ok target, r) =>
      if w.checked.any (·.same target.key) then (.ok (), { w with resolver := r })
      else
        match room, w.stack.push target.key with
        | _, .error e => (.error e, { w with resolver := r })
        | 0, .ok _ => (.error (.cyclic (w.stack.keys ++ [target.key])), { w with resolver := r })
        | room + 1, .ok stack =>
          leave target.key (check g (descendIn g d room target.key.file) target.value
            (base ++ [.key "$ref"]) { w with resolver := r, stack := stack })

/-- One walk, in which references count from the file. -/
structure Within (file : FilePath) (w w' : Walk) : Prop where
  same : w' = w
  ne_nil : w.stack.keys ≠ []
  currentFile : w.stack.currentFile = file

namespace Within

variable {file : FilePath} {w w' : Walk}

theorem report (h : Within file w w') (base : TreePath) (vs : List Violation) :
    Within file (w.report base vs) (w'.report base vs) :=
  ⟨congrArg (·.report base vs) h.same, h.ne_nil, h.currentFile⟩

theorem inStep {act actIn : Walk → Outcome} (hr : Restores act)
    (h : ∀ w, w.stack.keys ≠ [] → w.stack.currentFile = file → actIn w = act w) :
    InStep (Within file) act actIn := by
  intro w w' hw
  have hstack := hr w hw.ne_nil
  rw [Matches, hw.same, h w hw.ne_nil hw.currentFile]
  refine ⟨rfl, rfl, ?_, ?_⟩
  · rw [hstack]
    exact hw.ne_nil
  · rw [hstack]
    exact hw.currentFile

theorem inTurn {down downIn : String → TreePath → Walk → Outcome}
    (h : ∀ raw base, InStep (Within file) (down raw base) (downIn raw base)) (todo : List Position)
    (base : TreePath) : InStep (Within file)
      (Walk.inTurn (fun p => Walk.through down p.2 (base ++ p.1)) todo)
      (Walk.inTurn (fun p => Walk.through downIn p.2 (base ++ p.1)) todo) :=
  InStep.inTurn todo fun p _ => InStep.through report h p.2 (base ++ p.1)

theorem check {down downIn : String → TreePath → Walk → Outcome}
    (h : ∀ raw base, InStep (Within file) (down raw base) (downIn raw base)) (t : Tree)
    (base : TreePath) :
    InStep (Within file) (Walk.check g down t base) (Walk.check g downIn t base) :=
  fun _ _ hw => InStep.through report h t base (hw.report base (g t))

end Within

/-- A descent goes by the file of the stack, which inside the target is the file of the target. -/
theorem descendIn_eq_descend {room : Nat} {raw : String} {base : TreePath} {w : Walk}
    (hin : ∀ room', room = room' + 1 → ∀ file t base, InStep (Within file)
      (check g (descend g d room') t base) (check g (descendIn g d room' file) t base)) :
    descendIn g d room w.stack.currentFile raw base w = descend g d room raw base w := by
  rcases hres : w.resolver.resolve d raw w.stack with ⟨e | target, r'⟩ <;>
    have hresIn : w.resolver.resolveIn d raw w.stack.currentFile = _ := hres <;>
    rw [descendIn, hresIn]
  · rw [descend_unresolved hres]
  by_cases hc : w.checked.any (·.same target.key)
  · rw [descend_checked hres hc]
    exact if_pos hc
  cases hp : w.stack.push target.key with
  | error e =>
    rw [descend_refused hres hc hp]
    simp only [hc, hp]
    rfl
  | ok stack =>
    cases room with
    | zero =>
      rw [descend_full hres hc hp]
      simp only [hc, hp]
      rfl
    | succ room =>
      have hentered : Within target.key.file { w with resolver := r', stack := stack }
          { w with resolver := r', stack := stack } :=
        ⟨rfl, ResolutionStack.push_ne_nil hp, ResolutionStack.currentFile_of_push hp⟩
      obtain ⟨ho, hw⟩ := hin room rfl target.key.file target.value (base ++ [.key "$ref"]) hentered
      rw [descend_entered hres hc hp]
      simp only [hc, hp]
      exact congrArg (leave target.key) (Prod.ext ho hw.same)

theorem inStep_descendIn (room : Nat) (file : FilePath) (raw : String) (base : TreePath) :
    InStep (Within file) (descend g d room raw base) (descendIn g d room file raw base) := by
  induction room using Nat.strongRecOn generalizing file raw base with
  | ind room ih =>
    refine Within.inStep (Restores.descend room raw base) fun w _ hf => ?_
    subst hf
    refine descendIn_eq_descend fun room' hroom file t base => ?_
    exact Within.check (ih room' (by omega) file) t base

/-- Behind a part of the walk the stack is what it was, and all that was found or checked is still
there. A fragment is read in the file that it was read in before, and to go by that file in the part
itself comes to the same. -/
structure Balanced (d : Disk) (w : Walk) (act actIn : Walk → Outcome) : Prop where
  stack : (act w).2.stack = w.stack
  violations : w.violations <+: (act w).2.violations
  checked : w.checked <+: (act w).2.checked
  fragment : ∀ raw pointer, Reference.parse raw = .fragment pointer → ∀ idBase,
    Resolver.keyOf idBase d raw (act w).2.stack.currentFile = .ok ⟨w.stack.currentFile, pointer⟩
  lexical : actIn w = act w

theorem Balanced.of {w : Walk} {act actIn : Walk → Outcome} (h : w.stack.keys ≠ [])
    (hr : Restores act) (hc : Collects act) (hm : Remembers act)
    (hi : InStep (Within w.stack.currentFile) act actIn) : Balanced d w act actIn where
  stack := hr w h
  violations := hc w
  checked := hm w
  fragment raw pointer hp idBase := by
    rw [hr w h, Resolver.keyOf_eq_ok]
    exact .inl ⟨hp, rfl⟩
  lexical := by
    obtain ⟨ho, hw⟩ := hi ⟨rfl, h, rfl⟩
    exact Prod.ext ho hw.same

/-- A descent, the walk through a tree, the walks through the trees at several places one after the
other, and the check of a tree. With any room, come to an end or break off as they may, they leave
the stack as they find it and take back nothing that was found or checked. They do what they would
do if every reference were read in the file that it is written in. -/
theorem balanced_parts (g : Tree → List Violation) (d : Disk) (room : Nat) (w : Walk)
    (h : w.stack.keys ≠ []) :
    let down := descend g d room
    let downIn := descendIn g d room w.stack.currentFile
    (∀ raw base, Balanced d w (down raw base) (downIn raw base)) ∧
    (∀ t base, Balanced d w (through down t base) (through downIn t base)) ∧
    (∀ (todo : List Position) base, Balanced d w
      (inTurn (fun p => through down p.2 (base ++ p.1)) todo)
      (inTurn (fun p => through downIn p.2 (base ++ p.1)) todo)) ∧
    ∀ t base, Balanced d w (check g down t base) (check g downIn t base) := by
  intro down downIn
  have hr : ∀ raw base, Restores (down raw base) := Restores.descend room
  have hc : ∀ raw base, Collects (down raw base) := Collects.descend room
  have hm : ∀ raw base, Remembers (down raw base) := Remembers.descend room
  have hi := inStep_descendIn (g := g) (d := d) room w.stack.currentFile
  have restores := Restores.compositional
  have collects := Collects.compositional d
  have remembers := Remembers.compositional d
  refine ⟨fun raw base => ?_, fun t base => ?_, fun todo base => ?_, fun t base => ?_⟩
  · exact .of h (hr raw base) (hc raw base) (hm raw base) (hi raw base)
  · exact .of h (restores.through hr t base) (collects.through hc t base)
      (remembers.through hm t base) (InStep.through Within.report hi t base)
  · exact .of h (restores.inTurn todo fun p _ => restores.through hr p.2 _)
      (collects.inTurn todo fun p _ => collects.through hc p.2 _)
      (remembers.inTurn todo fun p _ => remembers.through hm p.2 _) (Within.inTurn hi todo base)
  · exact .of h (restores.check hr t base) (collects.check hc t base) (remembers.check hm t base)
      (Within.check hi t base)

namespace Detour

def root : Tree :=
  .mapping [("allOf", .list [.mapping [("$ref", .string "b.json")],
    .mapping [("$ref", .string "#/x")], .mapping [("$ref", .string "c.json")]]),
    ("x", .mapping [])]

def disk : Disk :=
  ⟨[(["b.json"], .file (.text "\x7b\"not\":\x7b\"$ref\":\"#/y\"\x7d,\"y\":\x7b\x7d\x7d")),
    (["c.json"], .file (.text "\x7b\"not\":\x7b\"$ref\":\"#/z\"\x7d\x7d"))], []⟩

def fault (_ : Tree) : List Violation := [⟨[], "at fault"⟩]

def before : Walk :=
  ⟨⟨[(⟨"/a.json"⟩, root)], none⟩, ⟨[⟨⟨"/main.json"⟩, ""⟩, ⟨⟨"/a.json"⟩, ""⟩], 64⟩,
    [⟨⟨"/d.json"⟩, ""⟩], fault .null⟩

def after : Outcome := check fault (descend fault disk 62) root [] before

theorem given_back : before.stack.keys ≠ [] ∧
    after.1 = .error (.unresolved "#/z" ⟨"/c.json"⟩ (.pointer (.missingProperty "z"))) ∧
    after.2.checked = before.checked ++
      [⟨⟨"/b.json"⟩, "/y"⟩, ⟨⟨"/b.json"⟩, ""⟩, ⟨⟨"/a.json"⟩, "/x"⟩] ∧
    Balanced disk before (check fault (descend fault disk 62) root [])
      (check fault (descendIn fault disk 62 before.stack.currentFile) root []) := by
  have hn : before.stack.keys ≠ [] := by decide
  obtain ⟨-, -, -, hcheck⟩ := balanced_parts fault disk 62 before hn
  exact ⟨hn, by decide +kernel, by decide +kernel, hcheck root []⟩

end Detour

end Schemata.Walk
