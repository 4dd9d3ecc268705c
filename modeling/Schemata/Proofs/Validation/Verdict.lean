import Schemata.Proofs.Validation.Descent

/-!
# What a verdict means

A validation that comes to its end has walked through the whole reference graph of the document:
it reports nothing just in case all of it is clean, all references in it resolve, and no node of it
comes back to itself.
-/

namespace Schemata

open Relation

variable {g : Tree → List Violation} {d : Disk} {r : Resolver} {s : Schema} {vs : List Violation}

theorem Violation.dropRepeats_eq_nil : dropRepeats vs = [] ↔ vs = [] := by
  induction vs using Violation.dropRepeats.induct with
  | case1 => simp [dropRepeats]
  | case2 => simp [dropRepeats]
  | case3 v rest ih => simpa [dropRepeats] using ih
  | case4 v w rest hne ih => simp [dropRepeats, hne]

theorem Violation.canonical_eq_nil : canonical vs = [] ↔ vs = [] := by
  rw [canonical, dropRepeats_eq_nil, ← List.length_eq_zero_iff, List.length_mergeSort,
    List.length_eq_zero_iff]

theorem along_start (g : Tree → List Violation) (d : Disk) (r : Resolver) (s : Schema) :
    Along g d r s [s.target d] [] True (Walk.start d r s) where
  view := .refl d _ _
  files k hk := by
    rw [List.mem_singleton.1 hk]
    exact .inr rfl
  keys := rfl
  depth := rfl
  checked := rfl
  settled := .nil
  reached _ h := by cases h
  verdict := by simp [Walk.start]

theorem served_run (hd : d.WellFormed) (g : Tree → List Violation) (r : Resolver) (s : Schema) :
    Served g d r s [s.target d] (s.target d) s.root.Refers (s.root.Clean g) [] True
      (Walk.run g d r s) :=
  Serves.check (a := s.target d)
    (fun _ base hraw => .descend hd _ base (.singleton d r s) rfl hraw rfl) [] (along_start g d r s)

/-- A validation that comes to its end leaves a settled list of all nodes, with the verdict. -/
theorem exists_settled (hd : d.WellFormed) (h : (s.validate g d r).1 = .ok vs) :
    ∃ all, Settled d (s.resolver d r) all ∧ s.target d ∈ all ∧ (∀ a ∈ all, s.Reaches d r a) ∧
      (vs = [] ↔ ∀ a ∈ all, a.value.Clean g) := by
  have hs := served_run hd g r s
  unfold Schema.validate at h
  rcases he : Walk.run g d r s with ⟨e | _, w⟩ <;> rw [he] at h hs
  · cases h
  · cases h
    obtain ⟨done, -, hw, hraws⟩ := hs
    refine ⟨done ++ [s.target d], hw.settled.concat hraws, by simp, ?_, ?_⟩
    · intro a ha
      rcases List.mem_append.1 ha with ha | ha
      · exact hw.reached a ha
      · rw [List.mem_singleton.1 ha]
        exact .refl
    · rw [Violation.canonical_eq_nil, hw.verdict, List.forall_mem_append,
        List.forall_mem_singleton, true_and]
      rfl

/-- A validation that is broken off has met a failure of the graph. -/
theorem failure_of_error (hd : d.WellFormed) {e : LoadError}
    (h : (s.validate g d r).1 = .error e) : s.Failure d r e := by
  have hs := served_run hd g r s
  unfold Schema.validate at h
  rcases he : Walk.run g d r s with ⟨e | _, w⟩ <;> rw [he] at h hs
  · cases h
    exact hs
  · cases h

def Sample.disk : Disk :=
  ⟨[(["b.json"], .file (.text "\x7b\"required\":[\"x\"]\x7d"))], []⟩

def Sample.schema : Schema :=
  .ofTree ⟨"/a.json"⟩ ⟨"/"⟩ (.mapping [("not", .mapping [("$ref", .string "b.json")])])

def Sample.violations : List Violation :=
  [⟨[.key "not", .key "$ref", .key "required", .index 0],
    "\"x\" is required but not declared in properties"⟩]

/-- A validation reports nothing just in case the document and all that it comes to are clean. -/
theorem Schema.validate_eq_nil_iff (hd : d.WellFormed) (h : (s.validate g d r).1 = .ok vs) :
    vs = [] ↔ ∀ a, s.Reaches d r a → a.value.Clean g := by
  obtain ⟨all, hall, hmem, hreach, hv⟩ := exists_settled hd h
  rw [hv]
  exact ⟨fun hc a ha => hc a (hall.mem_of_reaches hmem ha), fun hc a ha => hc a (hreach a ha)⟩

theorem Sample.not_clean : disk.WellFormed ∧
    (schema.validate (fun _ => []) disk .empty).1 = .ok violations ∧
    ¬ ∀ a, schema.Reaches disk .empty a → a.value.Clean fun _ => [] := by
  have hd : disk.WellFormed := by decide +kernel
  have h : (schema.validate (fun _ => []) disk .empty).1 = .ok violations := by decide +kernel
  exact ⟨hd, h, fun hc => by cases (Schema.validate_eq_nil_iff hd h).2 hc⟩

/-- A validation that comes to its end has met no reference that does not resolve, and no node that
comes back to its key. -/
theorem Schema.acyclic_of_validate (hd : d.WellFormed) (h : (s.validate g d r).1 = .ok vs) :
    (∀ a raw, s.Reaches d r a → a.value.Refers raw →
      ∃ b, ((s.resolver d r).resolveIn d raw a.key.file).1 = .ok b) ∧
    ∀ a b, s.Reaches d r a → TransGen (Leads d (s.resolver d r)) a b → b.key ≠ a.key := by
  obtain ⟨all, hall, hmem, hreach, -⟩ := exists_settled hd h
  constructor
  · intro a raw ha hraw
    obtain ⟨b, -, hb⟩ := hall.resolves (hall.mem_of_reaches hmem ha) hraw
    exact ⟨b, hb⟩
  · intro a b ha hab hk
    have hb : s.Reaches d r b := ha.trans hab.to_reflTransGen
    exact hall.acyclic (hall.mem_of_reaches hmem ha) hab (hb.eq_of_key hd ha hk)

theorem Sample.no_cycle : disk.WellFormed ∧
    (schema.validate (fun _ => []) disk .empty).1 = .ok violations ∧
    (∀ a raw, schema.Reaches disk .empty a → a.value.Refers raw →
      ∃ b, ((schema.resolver disk .empty).resolveIn disk raw a.key.file).1 = .ok b) ∧
    ∀ a b, schema.Reaches disk .empty a →
      TransGen (Leads disk (schema.resolver disk .empty)) a b → b.key ≠ a.key := by
  have hd : disk.WellFormed := by decide +kernel
  have h : (schema.validate (fun _ => []) disk .empty).1 = .ok violations := by decide +kernel
  exact ⟨hd, h, Schema.acyclic_of_validate hd h⟩

end Schemata
