import Schemata.Proofs.Validation.Pairs
import Schemata.Proofs.Reference.Course
import Schemata.Validation.Batch

/-!
# Files of a batch do not affect each other

All files of a batch share a resolver. Whatever became of the files before, it agrees with a fresh
one on all files that are found, as long as no document is put under the name of another file.
Walks whose resolvers agree that way do the same, so that every report is the one that its file
would get alone.
-/

namespace Schemata

variable {g : Tree → List Violation} {d : Disk} {scope : FilePath → Prop} {r r₀ : Resolver}
  {s : Schema}

/-- Two walks that differ in their resolvers only, which agree with a third one. -/
structure Alike (d : Disk) (scope : FilePath → Prop) (r₀ : Resolver) (w w' : Walk) : Prop where
  left : r₀.Agrees d scope w.resolver
  right : r₀.Agrees d scope w'.resolver
  files : ∀ k ∈ w.stack.keys, scope k.file
  nonempty : w.stack.keys ≠ []
  stack : w'.stack = w.stack
  checked : w'.checked = w.checked
  violations : w'.violations = w.violations

/-- A part of the walk takes walks that are alike to the same outcome, and leaves them alike. -/
def Mimics (d : Disk) (scope : FilePath → Prop) (r₀ : Resolver)
    (act : Walk → Walk.Outcome) : Prop :=
  ∀ ⦃w w'⦄, Alike d scope r₀ w w' →
    (act w').1 = (act w).1 ∧ Alike d scope r₀ (act w).2 (act w').2

namespace Alike

variable {w w' : Walk}

theorem resolved (hc : r₀.Closed d scope) (hw : Alike d scope r₀ w w') (raw : String) :
    ∃ o r₁ r₁', w.resolver.resolve d raw w.stack = (o, r₁) ∧
      w'.resolver.resolve d raw w'.stack = (o, r₁') ∧
      Alike d scope r₀ { w with resolver := r₁ } { w' with resolver := r₁' } ∧
      ∀ target, o = .ok target → scope target.key.file := by
  have hf : scope w.stack.currentFile := by
    have hk := List.getLast?_eq_some_getLast hw.nonempty
    rw [ResolutionStack.currentFile, hk]
    exact hw.files _ (List.mem_of_getLast? hk)
  have hl := Resolver.resolveIn_congr hc hw.left hf raw
  have hr := Resolver.resolveIn_congr hc hw.right hf raw
  refine ⟨_, _, _, Prod.ext rfl rfl, Prod.ext ?_ rfl, { hw with left := ?_, right := ?_ }, ?_⟩
  · rw [hw.stack]
    exact hr.trans hl.symm
  · exact Resolver.agrees_resolveIn hc hw.left hf raw
  · rw [hw.stack]
    exact Resolver.agrees_resolveIn hc hw.right hf raw
  · intro target ho
    have hfollows := Resolver.resolveIn_follows hc hw.left hf raw
    have ho : (w.resolver.resolveIn d raw w.stack.currentFile).1 = .ok target := ho
    rw [ho] at hfollows
    exact hfollows.file_mem hc hf

theorem entered (hw : Alike d scope r₀ w w') {k : ResolutionKey} (hk : scope k.file) :
    Alike d scope r₀ { w with stack := ⟨w.stack.keys ++ [k], w.stack.maxDepth⟩ }
      { w' with stack := ⟨w.stack.keys ++ [k], w.stack.maxDepth⟩ } :=
  { hw with
    files := by
      intro l hl
      rcases List.mem_append.1 hl with hl | hl
      · exact hw.files l hl
      · rw [List.mem_singleton.1 hl]
        exact hk
    nonempty := by simp
    stack := rfl }

theorem popped (hw : Alike d scope r₀ w w') :
    Alike d scope r₀ { w with stack := w.stack.pop.2 } { w' with stack := w'.stack.pop.2 } :=
  { hw with
    files := fun k hk => hw.files k (w.stack.pop_subset hk)
    nonempty := ResolutionStack.pop_ne_nil hw.nonempty
    stack := congrArg (·.pop.2) hw.stack }

end Alike

namespace Mimics

theorem parallel : Walk.Parallel (Alike d scope r₀) where
  stack hw := hw.stack
  checked hw := hw.checked
  report hw base vs := { hw with violations := congrArg (· ++ vs.map (·.under base)) hw.violations }
  popped hw := hw.popped
  done hw key := { hw with checked := congrArg (· ++ [key]) hw.checked }

theorem compositional : Walk.Compositional (Mimics d scope r₀) where
  pass _ _ h := ⟨rfl, h⟩
  report base vs h _ _ hw := h (parallel.report hw base vs)
  andThen h h' := Walk.InStep.andThen h h'

theorem descend (hc : r₀.Closed d scope) (room : Nat) (raw : String) (base : TreePath) :
    Mimics d scope r₀ (Walk.descend g d room raw base) := by
  refine compositional.descend (fun room hin raw base w w' hw => ?_) room raw base
  obtain ⟨o, r₁, r₁', hres, hres', hw₁, hscope⟩ := hw.resolved hc raw
  refine parallel.descend hw hres hres' hw₁ fun target stack room' ho hp hr => ?_
  obtain ⟨-, -, rfl⟩ := ResolutionStack.push_eq_ok hp
  exact hin room' hr target.value (base ++ [.key "$ref"]) (hw₁.entered (hscope target ho))

end Mimics

/-- Validations from resolvers that agree come to the same, and the resolver agrees in the end. -/
theorem validate_of_agrees (hc : r₀.Closed d scope) (hr : r₀.Agrees d scope r)
    (hs : scope (d.canonicalOrGiven s.path))
    (ht : r₀.document d (d.canonicalOrGiven s.path) = .ok s.root) :
    (s.validate g d r).1 = (s.validate g d r₀).1 ∧ r₀.Agrees d scope (s.validate g d r).2 := by
  have hstart : Alike d scope r₀ (Walk.start d r₀ s) (Walk.start d r s) :=
    { left := .put hc hs ht
      right := hr.trans (.put (hc.of_agrees hr) hs ((hr.document _ hs).trans ht))
      files := by
        intro k hk
        rw [List.mem_singleton.1 hk]
        exact hs
      nonempty := List.cons_ne_nil _ _
      stack := rfl
      checked := rfl
      violations := rfl }
  have hrun : (Walk.run g d r s).1 = (Walk.run g d r₀ s).1 ∧
      Alike d scope r₀ (Walk.run g d r₀ s).2 (Walk.run g d r s).2 :=
    Mimics.compositional.check (Mimics.descend hc _) s.root [] hstart
  obtain ⟨ho, hw⟩ := hrun
  unfold Schema.validate
  rcases he : Walk.run g d r₀ s with ⟨o, w⟩
  rcases he' : Walk.run g d r s with ⟨o', w'⟩
  rw [he, he'] at ho hw
  cases ho
  cases o with
  | error e => exact ⟨rfl, hw.right⟩
  | ok =>
    have hvs : w'.violations = w.violations := hw.violations
    exact ⟨by simp only [hvs], hw.right⟩

def Disk.Found (d : Disk) (p : FilePath) : Prop := ∃ x, d.find p true = .ok x

variable {c : ValidationConfig} {p : FilePath} {ps qs : List FilePath}

theorem document_resolver (c : ValidationConfig) (d : Disk) (f : FilePath) :
    c.resolver.document d f = Tree.load d f := by
  unfold ValidationConfig.resolver
  split <;> rfl

theorem closed_resolver (hd : d.WellFormed) (c : ValidationConfig) :
    c.resolver.Closed d d.Found where
  canonical h := by
    obtain ⟨name, item, -, hq, -⟩ := Disk.find_canonical hd h
    exact ⟨_, hq⟩
  document {f g t} _ hg hs ht := by
    obtain ⟨y, hy⟩ := hg
    rw [document_resolver] at ht ⊢
    exact Disk.load_eq_of_same hs hy ht

theorem found_canonicalOrGiven (hd : d.WellFormed) (hp : d.Found p) :
    d.Found (d.canonicalOrGiven p) := by
  unfold Disk.canonicalOrGiven
  split
  · rename_i q hq
    obtain ⟨name, item, -, hf, -⟩ := Disk.find_canonical hd hq
    exact ⟨_, hf⟩
  · exact hp

/-- A file gets the outcome that a fresh resolver would give it. -/
theorem validateFile_of_agrees (hd : d.WellFormed) (hl : ¬ d.isLink p)
    (hr : c.resolver.Agrees d d.Found r) :
    (validateFile g d c.inputRoot r p).1 = (validateFile g d c.inputRoot c.resolver p).1 ∧
      c.resolver.Agrees d d.Found (validateFile g d c.inputRoot r p).2 := by
  unfold validateFile checkFile Schema.load
  cases ht : Tree.load d p with
  | error e => exact ⟨rfl, hr⟩
  | ok t =>
    obtain ⟨f, name, text, -, hf, -⟩ := Disk.load_eq_ok.1 ht
    have hs : d.Found (d.canonicalOrGiven p) := found_canonicalOrGiven hd ⟨_, hf⟩
    have hdoc : c.resolver.document d (d.canonicalOrGiven p) = .ok t := by
      rw [document_resolver]
      exact Disk.load_canonicalOrGiven hd hl ht
    obtain ⟨ho, hv⟩ := validate_of_agrees (g := g) (s := .ofTree p c.inputRoot t)
      (closed_resolver hd c) hr hs hdoc
    simp only [Except.map]
    rcases he : Schema.validate (.ofTree p c.inputRoot t) g d c.resolver with ⟨o, r₁⟩
    rcases he' : Schema.validate (.ofTree p c.inputRoot t) g d r with ⟨o', r₁'⟩
    rw [he, he'] at ho
    rw [he'] at hv
    cases ho
    cases o <;> exact ⟨rfl, hv⟩

theorem validateFrom_eq_map (hd : d.WellFormed) (hl : ∀ p ∈ ps, ¬ d.isLink p)
    (hr : c.resolver.Agrees d d.Found r) : validateFrom g d c.inputRoot r ps =
      ps.map fun p => ⟨p, (validateFile g d c.inputRoot c.resolver p).1⟩ := by
  induction ps generalizing r with
  | nil => rfl
  | cons p ps ih =>
    obtain ⟨ho, hr'⟩ := validateFile_of_agrees (g := g) hd (hl p List.mem_cons_self) hr
    rw [validateFrom, List.map_cons, ← ho]
    exact congrArg _ (ih (fun q hq => hl q (List.mem_cons_of_mem _ hq)) hr')

/-- The report of a file tells its path and the outcome that it has alone, wherever it stands in a
batch; so another order of the files is another order of the reports. -/
theorem validateFiles_independent (hd : d.WellFormed) (g : Tree → List Violation)
    (c : ValidationConfig) (ps : List FilePath) (hl : ∀ p ∈ ps, ¬ d.isLink p) :
    (validateFiles g d c ps).length = ps.length ∧
    (∀ (i : Nat) (p : FilePath), ps[i]? = some p → ∃ outcome,
      (validateFiles g d c ps)[i]? = some (FileReport.mk p outcome) ∧
      validateFiles g d c [p] = [FileReport.mk p outcome]) ∧
    ∀ qs, ps.Perm qs → (validateFiles g d c ps).Perm (validateFiles g d c qs) := by
  have alone {qs : List FilePath} (hq : ∀ p ∈ qs, ¬ d.isLink p) : validateFiles g d c qs =
        qs.map fun p => FileReport.mk p (validateFile g d c.inputRoot c.resolver p).1 :=
    validateFrom_eq_map hd hq (.refl d d.Found c.resolver)
  refine ⟨?_, fun i p hp => ?_, fun qs hperm => ?_⟩
  · rw [alone hl, List.length_map]
  · have hone : ∀ q ∈ [p], ¬ d.isLink q := by
      intro q hq
      rw [List.mem_singleton.1 hq]
      exact hl p (List.mem_of_getElem? hp)
    exact ⟨_, by rw [alone hl, List.getElem?_map, hp]; rfl, alone hone⟩
  · rw [alone hl, alone fun q hq => hl q (hperm.mem_iff.2 hq)]
    exact hperm.map _

/-- A disk with a document that refers to another one, which refers to itself. -/
def mixedDisk : Disk :=
  ⟨[(["a.json"], .file (.text "\x7b\"not\":\x7b\"$ref\":\"b.json\"\x7d\x7d")),
    (["b.json"], .file (.text "\x7b\"not\":\x7b\"$ref\":\"#\"\x7d\x7d"))], []⟩

theorem mixed_independent : mixedDisk.WellFormed ∧
    (∀ p ∈ [⟨"a.json"⟩, ⟨"b.json"⟩, ⟨"c.json"⟩, ⟨"./a.json"⟩], ¬ mixedDisk.isLink p) ∧
    ∃ outcome, (validateFiles (fun _ => []) mixedDisk ⟨⟨"."⟩, none⟩
        [⟨"a.json"⟩, ⟨"b.json"⟩, ⟨"c.json"⟩, ⟨"./a.json"⟩])[3]? =
          some (FileReport.mk ⟨"./a.json"⟩ outcome) ∧
      validateFiles (fun _ => []) mixedDisk ⟨⟨"."⟩, none⟩ [⟨"./a.json"⟩] =
        [FileReport.mk ⟨"./a.json"⟩ outcome] := by
  have hd : mixedDisk.WellFormed := by decide +kernel
  have hl : ∀ p ∈ [⟨"a.json"⟩, ⟨"b.json"⟩, ⟨"c.json"⟩, ⟨"./a.json"⟩], ¬ mixedDisk.isLink p := by
    decide +kernel
  exact ⟨hd, hl, (validateFiles_independent hd _ _ _ hl).2.1 3 _ rfl⟩

end Schemata
