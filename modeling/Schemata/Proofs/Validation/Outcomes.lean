import Schemata.Proofs.Reference.View
import Schemata.Proofs.Validation.Steps
import Schemata.Validation.Batch

/-!
# What an outcome blames

A file fails to parse through its own fault only: its format, its bytes or its text. Whatever is
wrong with the files that it refers to fails the reference, and the error says what is wrong with
that reference.
-/

namespace Schemata

variable {g : Tree → List Violation} {d : Disk} {p root : FilePath} {ps : List FilePath}
  {r : Resolver}

/-- Why a file cannot be loaded: its extension stands for no format, it cannot be read, or its text
is no document. -/
inductive Unloadable (d : Disk) (p : FilePath) : FileError → Prop
  | unsupported (hf : ∀ f, Format.ofPath p ≠ .ok f) : Unloadable d p (.unsupportedFormat p)
  | unreadable {f cause} (hf : Format.ofPath p = .ok f) (ht : d.readText p = .error cause) :
    Unloadable d p (.unreadable p cause)
  | malformed {f text cause} (hf : Format.ofPath p = .ok f) (ht : d.readText p = .ok text)
    (hx : f.parse text = .error cause) : Unloadable d p (.malformed p cause)

theorem Unloadable.path_eq {e : FileError} (h : Unloadable d p e) : e.path = p := by
  cases h <;> rfl

theorem Format.ofPath_eq_error {e : FileError} (h : Format.ofPath p = .error e) :
    e = .unsupportedFormat p := by
  unfold Format.ofPath at h
  split at h <;> cases h
  rfl

theorem Tree.load_eq_error {e : FileError} : Tree.load d p = .error e ↔ Unloadable d p e := by
  constructor
  · intro h
    unfold Tree.load at h
    cases hf : Format.ofPath p with
    | error e' =>
      simp only [hf, bind, Except.bind] at h
      cases h
      rw [Format.ofPath_eq_error hf]
      exact .unsupported fun f he => by simp [he] at hf
    | ok f =>
      simp only [hf, bind, Except.bind] at h
      cases ht : d.readText p with
      | error cause =>
        rw [ht] at h
        cases h
        exact .unreadable hf ht
      | ok text =>
        rw [ht] at h
        unfold Tree.parse at h
        cases hx : f.parse text with
        | ok t => simp [hx] at h
        | error cause =>
          simp only [hx] at h
          cases h
          exact .malformed hf ht hx
  · intro h
    unfold Tree.load
    cases h with
    | unsupported hf =>
      cases he : Format.ofPath p with
      | ok f => exact absurd he (hf f)
      | error e => rw [Format.ofPath_eq_error he]; rfl
    | unreadable hf ht => simp only [hf, ht, bind, Except.bind]
    | malformed hf ht hx => simp only [hf, ht, bind, Except.bind, Tree.parse, hx]

def Resolver.Offers (r : Resolver) (d : Disk) (t : Tree) : Prop :=
  (∃ e ∈ r.cache, e.2 = t) ∨ ∃ file, Tree.load d file = .ok t

/-- An error says what is wrong with a reference: it names no file, its file cannot be loaded, its
pointer leads nowhere in the document, or it comes back to a node or goes too deep. -/
inductive LoadError.Justified (idBase : Option IdBase) (d : Disk) (held : Tree → Prop) :
    LoadError → Prop
  | astray {raw source e} (hk : Resolver.keyOf idBase d raw source = .error e) :
    Justified idBase d held (.unresolved raw source e)
  | unread {raw source key e} (hk : Resolver.keyOf idBase d raw source = .ok key)
    (he : Unloadable d key.file e) :
    Justified idBase d held (.unresolved raw source (.notLoaded e))
  | lost {raw source key t e} (hk : Resolver.keyOf idBase d raw source = .ok key) (ht : held t)
    (he : Pointer.resolve t key.pointer = .error e) :
    Justified idBase d held (.unresolved raw source (.pointer e))
  | cyclic {before key}
    (h : before.any (·.same key) ∨ ResolutionStack.defaultDepth ≤ before.length) :
    Justified idBase d held (.cyclic (before ++ [key]))

namespace Resolver

variable {idBase : Option IdBase} {held : Tree → Prop}

/-- The resolver reads identifiers by the base, and offers no document but those. -/
structure Confined (d : Disk) (idBase : Option IdBase) (held : Tree → Prop) (r : Resolver) :
    Prop where
  base : r.idBase = idBase
  offers : ∀ t, r.Offers d t → held t

theorem offers_of_document {file : FilePath} {t : Tree} (h : r.document d file = .ok t) :
    r.Offers d t := by
  unfold document at h
  split at h
  · rename_i u hu
    cases h
    obtain ⟨e, he, rfl⟩ := Option.map_eq_some_iff.1 hu
    exact .inl ⟨e, List.mem_of_find?_eq_some he, rfl⟩
  · exact .inr ⟨file, h⟩

theorem unloadable_of_document {file : FilePath} {e : FileError}
    (h : r.document d file = .error e) : Unloadable d file e := by
  unfold document at h
  split at h
  · cases h
  · exact Tree.load_eq_error.1 h

theorem Confined.put (h : Confined d idBase held r) (file : FilePath) {t : Tree} (ht : held t) :
    Confined d idBase held (r.put file t) := by
  refine ⟨(idBase_put r file t).trans h.base, fun u hu => ?_⟩
  obtain ⟨e, he, rfl⟩ | hload := hu
  · rcases InReach.mem_put he with hnew | hold
    · exact hnew ▸ ht
    · exact h.offers _ (.inl ⟨e, hold, rfl⟩)
  · exact h.offers u (.inr hload)

theorem Confined.keep (h : Confined d idBase held r) {file : FilePath} {t : Tree}
    (ht : r.document d file = .ok t) : Confined d idBase held (r.keep file t) := by
  unfold Resolver.keep
  split
  · exact h
  · exact h.put file (h.offers t (offers_of_document ht))

/-- A chain that breaks off does so for a reason, and the resolver stays confined. -/
theorem follow_justified {r₁ : Resolver} {raw₀ raw : String} {origin₀ origin : FilePath}
    (visited : List ResolutionKey) (hr : Confined d idBase held r)
    (h : InReach r₁ d raw₀ origin₀ r raw origin) :
    (∀ e, (follow d r₁ raw₀ origin₀ r raw origin visited h).1 = .error e →
      e.Justified idBase d held) ∧
    Confined d idBase held (follow d r₁ raw₀ origin₀ r raw origin visited h).2 := by
  fun_induction follow d r₁ raw₀ origin₀ r raw origin visited h with
  | case1 r raw origin visited h e hk =>
    refine ⟨fun e' he => ?_, hr⟩
    cases he
    exact .astray (hr.base ▸ hk)
  | case2 r raw origin visited h key hk hv e ht =>
    refine ⟨fun e' he => ?_, hr⟩
    cases he
    exact .unread (hr.base ▸ hk) (unloadable_of_document ht)
  | case3 r raw origin visited h key hk hv t ht e hu =>
    refine ⟨fun e' he => ?_, hr.keep ht⟩
    cases he
    exact .lost (hr.base ▸ hk) (hr.offers t (offers_of_document ht)) hu
  | case4 r raw origin visited h key hk hv t ht u hu hn =>
    exact ⟨fun e' he => (nomatch he), hr.keep ht⟩
  | case5 r raw origin visited h key hk hv t ht u hu raw' hn ih => exact ih (hr.keep ht)
  | case6 r raw origin visited h key hk hv =>
    refine ⟨fun e' he => ?_, hr⟩
    cases he
    exact .cyclic (.inl (by simpa [unvisited] using hv))

end Resolver

namespace Walk

variable {idBase : Option IdBase} {held : Tree → Prop} {room : Nat} {w : Walk}

/-- The resolver is confined, and the stack takes its limit together with the room that is left. -/
structure Poised (d : Disk) (idBase : Option IdBase) (held : Tree → Prop) (room : Nat) (w : Walk) :
    Prop where
  confined : w.resolver.Confined d idBase held
  limit : w.stack.maxDepth = ResolutionStack.defaultDepth
  deep : ResolutionStack.defaultDepth ≤ w.stack.keys.length + room

/-- An outcome of a walk that breaks off for a reason, or may be gone on from. -/
inductive Accounted (d : Disk) (idBase : Option IdBase) (held : Tree → Prop) (room : Nat) :
    Outcome → Prop
  | broken {e : LoadError} {w : Walk} (h : e.Justified idBase d held)
    (hr : w.resolver.Confined d idBase held) : Accounted d idBase held room (.error e, w)
  | done {w : Walk} (h : Poised d idBase held room w) : Accounted d idBase held room (.ok (), w)

def Accounts (d : Disk) (idBase : Option IdBase) (held : Tree → Prop) (room : Nat)
    (act : Walk → Outcome) : Prop :=
  ∀ w, Poised d idBase held room w → Accounted d idBase held room (act w)

theorem Accounts.compositional : Compositional (Accounts d idBase held room) where
  pass w hw := .done hw
  report base vs h w hw := h _ ⟨hw.confined, hw.limit, hw.deep⟩
  andThen {act act'} h h' w hw := by
    have hout := h w hw
    rw [andThen]
    rcases he : act w with ⟨e | _, w'⟩ <;> rw [he] at hout
    · cases hout with
      | broken hj hr => exact .broken hj hr
    · cases hout with
      | done hw' => exact h' w' hw'

theorem Accounted.leave {key : ResolutionKey} {out : Outcome}
    (h : Accounted d idBase held room out) :
    Accounted d idBase held (room + 1) (Walk.leave key out) := by
  cases h with
  | broken he hr => exact .broken he hr
  | @done w hw =>
    have hdeep := hw.deep
    have hlen := w.stack.length_le_pop
    refine .done ⟨hw.confined, w.stack.maxDepth_pop.trans hw.limit, ?_⟩
    change _ ≤ w.stack.pop.2.keys.length + (room + 1)
    omega

theorem Poised.resolved (hw : Poised d idBase held room w) (raw : String) :
    (∀ e, (w.resolver.resolve d raw w.stack).1 = .error e → e.Justified idBase d held) ∧
    Poised d idBase held room
      { w with resolver := (w.resolver.resolve d raw w.stack).2 } := by
  obtain ⟨he, hr⟩ := Resolver.follow_justified [] hw.confined
    (.start w.resolver d raw w.stack.currentFile)
  exact ⟨he, hr, hw.limit, hw.deep⟩

theorem Poised.refused (hw : Poised d idBase held room w) {key : ResolutionKey} {e : LoadError}
    (h : w.stack.push key = .error e) : e.Justified idBase d held := by
  obtain ⟨hc, rfl⟩ := ResolutionStack.push_eq_error.1 h
  rw [hw.limit] at hc
  exact .cyclic hc

theorem Poised.entered (hw : Poised d idBase held (room + 1) w) {key : ResolutionKey}
    {stack : ResolutionStack} (h : w.stack.push key = .ok stack) :
    Poised d idBase held room { w with stack := stack } := by
  obtain ⟨-, -, rfl⟩ := ResolutionStack.push_eq_ok h
  have hdeep := hw.deep
  refine ⟨hw.confined, hw.limit, ?_⟩
  rw [List.length_append, List.length_singleton]
  omega

/-- A descent accounts for its outcome if the walk through its target does. -/
theorem Poised.descend (hw : Poised d idBase held room w)
    (hin : ∀ room', room = room' + 1 → ∀ t base,
      Accounts d idBase held room' (check g (Walk.descend g d room') t base))
    (raw : String) (base : TreePath) :
    Accounted d idBase held room (Walk.descend g d room raw base w) := by
  obtain ⟨herror, hw'⟩ := hw.resolved raw
  rcases hres : w.resolver.resolve d raw w.stack with ⟨e | target, r'⟩ <;>
    rw [hres] at herror hw'
  · rw [descend_unresolved hres]
    exact .broken (herror e rfl) hw'.confined
  by_cases hc : w.checked.any (·.same target.key)
  · rw [descend_checked hres hc]
    exact .done hw'
  cases hp : w.stack.push target.key with
  | error e =>
    rw [descend_refused hres hc hp]
    exact .broken (hw.refused hp) hw'.confined
  | ok stack =>
    cases room with
    | zero =>
      -- without room the stack is as deep as its limit, and takes nothing more
      have hdeep := hw.deep
      have hpush := (ResolutionStack.push_eq_ok hp).2.1
      rw [hw.limit] at hpush
      omega
    | succ room =>
      rw [descend_entered hres hc hp]
      exact .leave (hin room rfl target.value (base ++ [.key "$ref"]) _ (hw'.entered hp))

theorem accounts_descend (room : Nat) (raw : String) (base : TreePath) :
    Accounts d idBase held room (descend g d room raw base) := by
  induction room generalizing raw base with
  | zero => exact fun w hw => hw.descend (fun room' h => by omega) raw base
  | succ room ih =>
    refine fun w hw => hw.descend (fun room' h t base' => ?_) raw base
    cases h
    exact Accounts.compositional.check ih t base'

end Walk

theorem Schema.poised_start {idBase : Option IdBase} {held : Tree → Prop} {s : Schema}
    (hr : r.Confined d idBase held) (hs : held s.root) :
    Walk.Poised d idBase held (Walk.start d r s).stack.room (Walk.start d r s) where
  confined := hr.put _ hs
  limit := rfl
  deep := Nat.le_refl _

/-- A validation breaks off for what is wrong with a reference. -/
theorem Schema.validate_justified {idBase : Option IdBase} {held : Tree → Prop} {s : Schema}
    (hr : r.Confined d idBase held) (hs : held s.root) :
    (∀ e, (s.validate g d r).1 = .error e → e.Justified idBase d held) ∧
    (s.validate g d r).2.Confined d idBase held := by
  have hrun := Walk.Accounts.compositional.check (g := g) (Walk.accounts_descend (g := g) _)
    s.root [] _ (poised_start hr hs)
  unfold validate Walk.run
  rcases he : Walk.check g (Walk.descend g d (Walk.start d r s).stack.room) s.root []
    (Walk.start d r s) with ⟨e | _, w⟩ <;> rw [he] at hrun
  · cases hrun with
    | broken hj hw =>
      refine ⟨fun e' h => ?_, hw⟩
      cases h
      exact hj
  · cases hrun with
    | done hw => exact ⟨fun e' h => (nomatch h), hw.confined⟩

def Schema.Involves (d : Disk) (r : Resolver) (s : Schema) (t : Tree) : Prop :=
  t = s.root ∨ r.Offers d t

theorem Schema.justified_of_error {s : Schema} {e : LoadError}
    (h : (s.validate g d r).1 = .error e) : e.Justified r.idBase d (s.Involves d r) := by
  have hr : r.Confined d r.idBase (s.Involves d r) := ⟨rfl, fun _ => .inr⟩
  exact (validate_justified hr (.inl rfl)).1 e h

theorem LoadError.Justified.isReference {idBase : Option IdBase} {held : Tree → Prop} {e : LoadError}
    (h : e.Justified idBase d held) : e.isReference := by
  cases h <;> rfl

/-- What goes wrong with other files never comes out of a validation as it is. -/
theorem Schema.isReference_of_error {s : Schema} {e : LoadError}
    (h : (s.validate g d r).1 = .error e) : e.isReference :=
  (justified_of_error h).isReference

namespace FileOutcome

def isParseFailed : FileOutcome → Bool
  | parseFailed _ => true
  | _ => false

theorem ofError_of_isReference {e : LoadError} (h : e.isReference) :
    ofError e = referenceFailed e.message :=
  if_pos h

theorem isParseFailed_ofError (e : LoadError) : (ofError e).isParseFailed = !e.isReference := by
  unfold ofError
  cases e with
  | file e => cases e <;> rfl
  | unresolved reference source reason => rfl
  | cyclic chain => rfl

theorem isParseFailed_ofViolations (vs : List Violation) :
    (ofViolations vs).isParseFailed = false := by
  cases vs <;> rfl

end FileOutcome

def resolverAfter (g : Tree → List Violation) (d : Disk) (root : FilePath) (r : Resolver)
    (ps : List FilePath) : Resolver :=
  ps.foldl (fun r p => (validateFile g d root r p).2) r

theorem validateFrom_cons (p : FilePath) (ps : List FilePath) :
    validateFrom g d root r (p :: ps) = ⟨p, (validateFile g d root r p).1⟩ ::
      validateFrom g d root (validateFile g d root r p).2 ps := by
  rfl

theorem validateFrom_append (ps qs : List FilePath) :
    validateFrom g d root r (ps ++ qs) =
      validateFrom g d root r ps ++ validateFrom g d root (resolverAfter g d root r ps) qs := by
  induction ps generalizing r with
  | nil => rfl
  | cons p ps ih =>
    rw [List.cons_append, validateFrom_cons, validateFrom_cons, ih]
    rfl

/-- A document that can be read from the disk. -/
def Disk.Holds (d : Disk) (t : Tree) : Prop := ∃ file, Tree.load d file = .ok t

theorem validateFile_of_unloadable {e : FileError} (h : Unloadable d p e) :
    validateFile g d root r p = (.ofError (.file e), r) := by
  rw [validateFile, checkFile, Schema.load, Tree.load_eq_error.2 h]
  rfl

theorem validateFile_of_load {t : Tree} (h : Tree.load d p = .ok t) :
    validateFile g d root r p =
      match (Schema.ofTree p root t).validate g d r with
      | (.ok vs, r) => (.ofViolations vs, r)
      | (.error e, r) => (.referenceFailed e.message, r) := by
  rw [validateFile, checkFile, Schema.load, h]
  change (match (Schema.ofTree p root t).validate g d r with
    | (.ok vs, r) => (FileOutcome.ofViolations vs, r)
    | (.error e, r) => (.ofError e, r)) = _
  rcases hv : (Schema.ofTree p root t).validate g d r with ⟨e | vs, r'⟩
  · have href : e.isReference := Schema.isReference_of_error (congrArg Prod.fst hv)
    simp only [FileOutcome.ofError_of_isReference href]
  · rfl

theorem isParseFailed_validateFile :
    (validateFile g d root r p).1.isParseFailed = !(Schema.load d p root).isOk := by
  cases ht : Tree.load d p with
  | error e =>
    rw [validateFile_of_unloadable (Tree.load_eq_error.1 ht), FileOutcome.isParseFailed_ofError,
      Schema.load, ht]
    rfl
  | ok t =>
    rw [validateFile_of_load ht, Schema.load, ht]
    rcases (Schema.ofTree p root t).validate g d r with ⟨e | vs, r'⟩
    · rfl
    · exact FileOutcome.isParseFailed_ofViolations vs

theorem map_path_validateFrom : (validateFrom g d root r ps).map (·.path) = ps := by
  induction ps generalizing r with
  | nil => rfl
  | cons p ps ih => rw [validateFrom, List.map_cons, ih]

/-- Validation reports as unreadable what cannot be loaded, whatever the resolver holds. -/
theorem map_path_filter_validateFrom :
    ((validateFrom g d root r ps).filter (·.outcome.isParseFailed)).map (·.path) =
      ps.filter fun p => !(Schema.load d p root).isOk := by
  induction ps generalizing r with
  | nil => rfl
  | cons p ps ih =>
    rw [validateFrom, List.filter_cons, List.filter_cons, isParseFailed_validateFile]
    split
    · rw [List.map_cons, ih]
    · exact ih

theorem validateFile_eq_referenceFailed {t : Tree} (h : Tree.load d p = .ok t) (text : String) :
    (validateFile g d root r p).1 = .referenceFailed text ↔
      ∃ e, ((Schema.ofTree p root t).validate g d r).1 = .error e ∧ e.message = text := by
  rw [validateFile_of_load h]
  rcases (Schema.ofTree p root t).validate g d r with ⟨e | vs, r'⟩
  · simp
  · cases vs <;> simp [FileOutcome.ofViolations]

theorem Resolver.Confined.validateFile {idBase : Option IdBase}
    (hr : r.Confined d idBase d.Holds) :
    (Schemata.validateFile g d root r p).2.Confined d idBase d.Holds := by
  cases ht : Tree.load d p with
  | error e =>
    rw [validateFile_of_unloadable (Tree.load_eq_error.1 ht)]
    exact hr
  | ok t =>
    have hs : ((Schema.ofTree p root t).validate g d r).2.Confined d idBase d.Holds :=
      (Schema.validate_justified hr ⟨p, ht⟩).2
    rw [validateFile_of_load ht]
    rcases he : (Schema.ofTree p root t).validate g d r with ⟨e | vs, r'⟩ <;> rw [he] at hs <;>
      exact hs

theorem Resolver.Confined.resolverAfter {idBase : Option IdBase} (hr : r.Confined d idBase d.Holds)
    (ps : List FilePath) : (Schemata.resolverAfter g d root r ps).Confined d idBase d.Holds := by
  induction ps generalizing r with
  | nil => exact hr
  | cons p ps ih => exact ih hr.validateFile

theorem ValidationConfig.confined_resolver (d : Disk) (c : ValidationConfig) :
    c.resolver.Confined d c.resolver.idBase d.Holds := by
  refine ⟨rfl, fun t ht => ?_⟩
  obtain ⟨e, he, -⟩ | hload := ht
  · unfold resolver at he
    split at he <;> cases he
  · exact hload

/-- Every file of a list is blamed for what is wrong with itself. It fails to parse just in case it
cannot be loaded, with an error that names it. Otherwise its outcome is a failed reference just in case its validation fails.
Every error of a validation is an unresolved or a cyclic reference, and says what is wrong with
that: no failure to load another file is reported as one of this file. -/
theorem validateFiles_blame (g : Tree → List Violation) (d : Disk) (c : ValidationConfig)
    (before : List FilePath) (p : FilePath) (after : List FilePath) :
    (∃ r outcome, r = resolverAfter g d c.inputRoot c.resolver before ∧
      validateFiles g d c (before ++ p :: after) = validateFiles g d c before ++
        ⟨p, outcome⟩ :: validateFrom g d c.inputRoot (validateFile g d c.inputRoot r p).2 after ∧
      (outcome.isParseFailed ↔ ∃ e, Unloadable d p e) ∧
      (∀ e, Unloadable d p e → outcome = .ofError (.file e) ∧ (LoadError.file e).path? = some p) ∧
      ∀ t, Tree.load d p = .ok t →
        (∀ text, outcome = .referenceFailed text ↔
          ∃ e, ((Schema.ofTree p c.inputRoot t).validate g d r).1 = .error e ∧ e.message = text) ∧
        ∀ e, ((Schema.ofTree p c.inputRoot t).validate g d r).1 = .error e →
          e.Justified c.resolver.idBase d d.Holds) ∧
    ∀ (s : Schema) (r : Resolver) e, (s.validate g d r).1 = .error e →
      e.isReference ∧ e.Justified r.idBase d (s.Involves d r) := by
  have hr : (resolverAfter g d c.inputRoot c.resolver before).Confined d c.resolver.idBase d.Holds :=
    (c.confined_resolver d).resolverAfter before
  refine ⟨⟨resolverAfter g d c.inputRoot c.resolver before, (validateFile g d c.inputRoot
    (resolverAfter g d c.inputRoot c.resolver before) p).1, rfl, ?_, ?_, ?_, ?_⟩, ?_⟩
  · rw [validateFiles, validateFrom_append, validateFrom_cons, validateFiles]
  · rw [isParseFailed_validateFile, Schema.load]
    simp only [← Tree.load_eq_error]
    cases Tree.load d p <;> simp [Except.map, Except.isOk, Except.toBool]
  · intro e he
    rw [validateFile_of_unloadable he]
    exact ⟨rfl, congrArg some he.path_eq⟩
  · intro t ht
    exact ⟨validateFile_eq_referenceFailed ht, (Schema.validate_justified hr ⟨p, ht⟩).1⟩
  · intro s r e he
    exact ⟨Schema.isReference_of_error he, Schema.justified_of_error he⟩

end Schemata
