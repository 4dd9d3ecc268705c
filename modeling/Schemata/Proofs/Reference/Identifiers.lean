import Schemata.Proofs.File.Lexical
import Schemata.Reference.Resolver

/-!
# Where identifiers lead

An identifier leads from the root of its base by what stands behind the base, read as a path. It
stays beneath the root as long as that path starts without a slash and goes up no further than it
has come down; nothing keeps it there otherwise.
-/

namespace Schemata

namespace Resolver

open Disk FilePath

variable {d : Disk} {b : IdBase} {rest : String} {origin file root : FilePath}

theorem candidate_base (b : IdBase) (rest : String) (origin : FilePath) :
    candidate (some b) (b.base ++ rest) origin = .ok (b.root.join ⟨rest⟩) := by
  have hb : (b.base ++ rest).startsWith b.base := by
    rw [String.startsWith_string_iff, String.toList_append]
    exact List.prefix_append _ _
  have hr : String.ofList ((b.base ++ rest).toList.drop b.base.length) = rest := by
    rw [String.toList_append, ← String.length_toList, List.drop_left, String.ofList_toList]
  rw [candidate, Option.bind_some, if_pos hb, hr]

/-- Without links, an identifier is located where the text behind its base leads from the root, or
from the root of all files if that text starts with a slash. This is beneath the root of the base
just in case the name says so, and then at least if the text starts without a slash and its steps
never lead above where they start. -/
theorem locate_beneath_iff (hd : d.WellFormed) (hl : d.Linkless)
    (hroot : d.canonical b.root = .ok root)
    (h : locate (some b) d (b.base ++ rest) origin = .ok file) : ∃ dir name,
      root = absolutePath dir ∧ file = absolutePath name ∧
      name = climb (if rest.startsWith "/" then [] else dir) (steps rest) ∧
      (root.parts <+: file.parts ↔ dir <+: name) ∧
      (¬ rest.startsWith "/" → inward 0 (steps rest) → root.parts <+: file.parts) := by
  obtain ⟨p, hp, hfile⟩ := locate_eq_ok.1 h
  rw [candidate_base] at hp
  cases hp
  obtain ⟨rfl, hdirs⟩ := canonical_linkless hd hl hroot
  obtain ⟨rfl, hnames⟩ := canonical_linkless hd hl hfile
  have hname : d.nameOf (b.root.join ⟨rest⟩) =
      climb (if rest.startsWith "/" then [] else d.nameOf b.root) (steps rest) := by
    split
    · exact nameOf_join_absolute b.root ‹_›
    · exact nameOf_join_relative b.root ‹_›
  have hiff := parts_absolutePath_prefix_iff hdirs hnames
  refine ⟨_, _, rfl, rfl, hname, hiff, fun hs hin => hiff.2 ?_⟩
  have hclimb : d.nameOf b.root <+: climb (d.nameOf b.root ++ []) (steps rest) := prefix_climb hin
  rw [List.append_nil] at hclimb
  rwa [hname, if_neg hs]

def Annex.disk : Disk :=
  ⟨[(["o"], .directory), (["o", "e"], .directory), (["o", "e", "p.json"], .file (.text "\x7b\x7d")),
    (["s.json"], .file (.text "\x7b\x7d"))], []⟩

def Annex.base : IdBase := ⟨"urn:", ⟨"o"⟩⟩

theorem Annex.wellFormed : disk.WellFormed := by decide +kernel

theorem Annex.linkless : disk.Linkless := by simp [Linkless, disk]

theorem Annex.canonical_root : disk.canonical base.root = .ok ⟨"/o"⟩ := by decide +kernel

theorem Annex.stays_beneath : disk.WellFormed ∧ disk.Linkless ∧
    disk.canonical base.root = .ok ⟨"/o"⟩ ∧
    locate (some base) disk (base.base ++ "e/../e/p.json") ⟨"a.json"⟩ = .ok ⟨"/o/e/p.json"⟩ ∧
    (FilePath.mk "/o").parts <+: (FilePath.mk "/o/e/p.json").parts := by
  have h : locate (some base) disk (base.base ++ "e/../e/p.json") ⟨"a.json"⟩ =
      .ok ⟨"/o/e/p.json"⟩ := by decide +kernel
  obtain ⟨_, _, -, -, -, -, hin⟩ := locate_beneath_iff wellFormed linkless canonical_root h
  exact ⟨wellFormed, linkless, canonical_root, h, hin (by decide +kernel) (by decide +kernel)⟩

/-- Two points lead out of the root, and so does a slash. -/
theorem Annex.escapes : disk.WellFormed ∧ disk.Linkless ∧
    disk.canonical base.root = .ok ⟨"/o"⟩ ∧
    (∀ target ∈ ["urn:../s.json", "urn:/s.json"], target.startsWith base.base ∧
      locate (some base) disk target ⟨"a.json"⟩ = .ok ⟨"/s.json"⟩) ∧
    ¬ (FilePath.mk "/o").parts <+: (FilePath.mk "/s.json").parts :=
  ⟨wellFormed, linkless, canonical_root, by decide +kernel, by decide +kernel⟩

end Resolver

end Schemata
