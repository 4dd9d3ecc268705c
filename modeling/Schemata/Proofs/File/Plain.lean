import Mathlib.Logic.Basic
import Schemata.Proofs.File.Spelling

/-!
# The plain spelling of a path

Among the texts of a path one holds nothing superfluous: the pieces that count, one slash between
two of them. `plain` spells a path that way. It only ever drops characters, and two paths are the
same just in case they are equal once spelled plainly.
-/

namespace Schemata.FilePath

/-- The text of a path by how it starts and by the pieces behind. -/
def spell : List PathPart → List (List Char) → List Char
  | [.root], qs => '/' :: ['/'].intercalate qs
  | [.here], qs => ['/'].intercalate (['.'] :: qs)
  | _, qs => ['/'].intercalate qs

def plainText (cs : List Char) : List Char := spell (lead cs) (solid cs)

def plain (p : FilePath) : FilePath := ⟨String.ofList (plainText p.text.toList)⟩

@[simp] theorem toList_plain (p : FilePath) : p.plain.text.toList = plainText p.text.toList :=
  String.toList_ofList

theorem splitOn_slash_cons (cs : List Char) : ('/' :: cs).splitOn '/' = [] :: cs.splitOn '/' := by
  rw [List.splitOn_cons_eq_if_modifyHead, if_pos (by simp)]

theorem lead_eq_root {cs : List Char} : lead cs = [.root] ↔ ∃ rest, cs = '/' :: rest := by
  cases cs with
  | nil => simp [lead]
  | cons c rest =>
    by_cases hc : c = '/'
    · simp [lead, hc]
    · rw [lead, if_neg (by simpa using hc)]
      simp only [List.cons.injEq, hc, false_and, exists_false, iff_false]
      split <;> simp

theorem lead_eq_here {cs : List Char} : lead cs = [.here] ↔ ∃ qs, cs.splitOn '/' = ['.'] :: qs := by
  by_cases h : ∃ rest, cs = '/' :: rest
  · obtain ⟨rest, rfl⟩ := h
    simp [lead, splitOn_slash_cons]
  · have hn : cs.head? ≠ some '/' := by
      cases cs with
      | nil => simp
      | cons c rest => simp_all
    rw [lead, if_neg hn]
    cases cs.splitOn '/' with
    | nil => simp
    | cons q qs => simp

theorem intercalate_sublist {ls ms : List (List Char)} (h : ls.Sublist ms) :
    (['/'].intercalate ls).Sublist (['/'].intercalate ms) := by
  induction h with
  | slnil => exact .slnil
  | @cons ls ms q h ih =>
    by_cases hm : ms = []
    · subst hm
      rw [List.sublist_nil.1 h]
      exact List.nil_sublist _
    · rw [List.intercalate_cons_of_ne_nil hm]
      exact ih.trans (List.sublist_append_right _ _)
  | @cons_cons ls ms q h ih =>
    by_cases hl : ls = []
    · subst hl
      cases ms <;> simp
    · have hm : ms ≠ [] := fun hm => hl (List.sublist_nil.1 (hm ▸ h))
      rw [List.intercalate_cons_of_ne_nil hl, List.intercalate_cons_of_ne_nil hm]
      exact (List.Sublist.refl _).append ih

theorem solid_sublist (cs : List Char) : (solid cs).Sublist (cs.splitOn '/') := List.filter_sublist

/-- The plain text of a path is any of its texts with some characters dropped. -/
theorem plainText_sublist (cs : List Char) : (plainText cs).Sublist cs := by
  rcases lead_cases cs with h | h | h
  · obtain ⟨rest, rfl⟩ := lead_eq_root.1 h
    rw [plainText, h, solid_slash_cons, spell]
    have whole : ['/'].intercalate (rest.splitOn '/') = rest := List.intercalate_splitOn '/'
    conv => rhs; rw [← whole]
    exact (intercalate_sublist (solid_sublist rest)).cons_cons '/'
  · obtain ⟨qs, hq⟩ := lead_eq_here.1 h
    have skip : solid cs = qs.filter fun q => !isHollow q := by rw [solid, hq]; rfl
    rw [plainText, h, skip, spell]
    have whole : ['/'].intercalate (cs.splitOn '/') = cs := List.intercalate_splitOn '/'
    conv => rhs; rw [← whole, hq]
    exact intercalate_sublist (List.filter_sublist.cons_cons _)
  · rw [plainText, h, spell]
    · have whole : ['/'].intercalate (cs.splitOn '/') = cs := List.intercalate_splitOn '/'
      conv => rhs; rw [← whole]
      exact intercalate_sublist (solid_sublist cs)
    all_goals simp

/-- Pieces that count and could stand between slashes. -/
def Solid (qs : List (List Char)) : Prop := ∀ q ∈ qs, isHollow q = false ∧ '/' ∉ q

theorem solid_toList {names : List String}
    (h : ∀ s ∈ names, s ≠ "" ∧ s ≠ "." ∧ '/' ∉ s.toList) : Solid (names.map String.toList) := by
  intro q hq
  obtain ⟨s, hs, rfl⟩ := List.mem_map.1 hq
  obtain ⟨hne, hpoint, hslash⟩ := h s hs
  have hp : s.toList ≠ ['.'] := fun he => hpoint (String.toList_inj.1 he)
  exact ⟨by simp [isHollow, hne, hp], hslash⟩

theorem solid_isSolid (cs : List Char) : Solid (solid cs) := fun _ h =>
  ⟨not_hollow_of_mem_solid h, not_mem_of_mem_solid h⟩

theorem Solid.filter_eq {qs : List (List Char)} (h : Solid qs) :
    qs.filter (fun q => !isHollow q) = qs :=
  List.filter_eq_self.2 fun q hq => by simp [(h q hq).1]

theorem splitOn_spell_root {qs : List (List Char)} (h : Solid qs) (hn : qs ≠ []) :
    (spell [.root] qs).splitOn '/' = [] :: qs := by
  rw [spell, splitOn_slash_cons, List.splitOn_intercalate '/' (fun q hq => (h q hq).2) hn]

theorem splitOn_spell_here {qs : List (List Char)} (h : Solid qs) :
    (spell [.here] qs).splitOn '/' = ['.'] :: qs :=
  List.splitOn_intercalate '/' (by simpa using fun q hq => (h q hq).2) (by simp)

theorem splitOn_spell_nil {qs : List (List Char)} (h : Solid qs) (hn : qs ≠ []) :
    (spell [] qs).splitOn '/' = qs :=
  List.splitOn_intercalate '/' (fun q hq => (h q hq).2) hn

theorem solid_spell {start : List PathPart} {qs : List (List Char)} (h : Solid qs) :
    solid (spell start qs) = qs := by
  have slash : ∀ q ∈ qs, '/' ∉ q := fun q hq => (h q hq).2
  unfold spell
  split
  · rw [solid_slash_cons, solid_intercalate slash, h.filter_eq]
  · rw [solid_intercalate (by simpa using slash), List.filter_cons, h.filter_eq]
    rfl
  · rw [solid_intercalate slash, h.filter_eq]

theorem lead_spell_nil {qs : List (List Char)} (h : Solid qs) : lead (spell [] qs) = [] := by
  by_cases hn : qs = []
  · subst hn
    rfl
  · obtain ⟨q, rest, rfl⟩ := List.exists_cons_of_ne_nil hn
    have first := (h q List.mem_cons_self).1
    rcases lead_cases (spell [] (q :: rest)) with hl | hl | hl
    · obtain ⟨cs, hc⟩ := lead_eq_root.1 hl
      have hq := splitOn_spell_nil h hn
      rw [hc, splitOn_slash_cons] at hq
      rw [← (List.cons.inj hq).1] at first
      cases first
    · obtain ⟨cs, hc⟩ := lead_eq_here.1 hl
      rw [splitOn_spell_nil h hn] at hc
      rw [(List.cons.inj hc).1] at first
      cases first
    · exact hl

theorem lead_spell (cs : List Char) {qs : List (List Char)} (h : Solid qs) :
    lead (spell (lead cs) qs) = lead cs := by
  rcases lead_cases cs with hl | hl | hl <;> rw [hl]
  · exact lead_eq_root.2 ⟨_, rfl⟩
  · exact lead_eq_here.2 ⟨_, splitOn_spell_here h⟩
  · exact lead_spell_nil h

@[simp] theorem solid_plainText (cs : List Char) : solid (plainText cs) = solid cs :=
  solid_spell (solid_isSolid cs)

@[simp] theorem lead_plainText (cs : List Char) : lead (plainText cs) = lead cs :=
  lead_spell cs (solid_isSolid cs)

@[simp] theorem parts_plain (p : FilePath) : p.plain.parts = p.parts := by
  rw [parts_eq, parts_eq, toList_plain, lead_plainText, solid_plainText]

theorem same_iff_plain {p q : FilePath} : p.same q ↔ p.plain = q.plain := by
  constructor
  · intro h
    obtain ⟨hl, hs⟩ := same_iff.1 h
    rw [plain, plain, plainText, plainText, hl, hs]
  · intro h
    have hp : p.plain.parts = q.plain.parts := by rw [h]
    rw [parts_plain, parts_plain] at hp
    exact decide_eq_true hp

@[simp] theorem plain_plain (p : FilePath) : p.plain.plain = p.plain :=
  (same_iff_plain.1 (decide_eq_true (parts_plain p).symm)).symm

end Schemata.FilePath
