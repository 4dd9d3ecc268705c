import Schemata.Proofs.Text.Numerals
import Schemata.Proofs.Text.Words
import Schemata.Tree.Text

/-!
# Trees as compact text

Quoting leaves no control character in a string, and nothing else in the compact text of a tree has
one. Whatever a tree holds, its compact text stays on one line wherever lines end at control
characters only.
-/

namespace Schemata

def NoControls (s : String) : Prop := ∀ c ∈ s.toList, 32 ≤ c.toNat

instance (s : String) : Decidable (NoControls s) :=
  List.decidableBAll (fun c : Char => 32 ≤ c.toNat) s.toList

section Texts

variable {a b : String} {texts : List String}

theorem NoControls.append (ha : NoControls a) (hb : NoControls b) : NoControls (a ++ b) := by
  intro c hc
  rw [String.toList_append, List.mem_append] at hc
  exact hc.elim (ha c) (hb c)

theorem NoControls.between (ha : NoControls a) (hb : NoControls b)
    (h : ∀ text ∈ texts, NoControls text) : NoControls (a ++ ",".intercalate texts ++ b) := by
  refine (ha.append fun c hc => ?_).append hb
  rw [String.toList_intercalate] at hc
  rcases mem_intercalate hc with rfl | ⟨_, htext, hc⟩
  · decide
  · obtain ⟨text, hmem, rfl⟩ := List.mem_map.1 htext
    exact h text hmem c hc

theorem noControls_number (f : FloatFormat) (n : Number) : NoControls (n.text f) :=
  (allNumeral_number f n).forall (show NoControls numerals by decide)

theorem noControls_escapedChar (c : Char) : ∀ d ∈ escapedChar c, 32 ≤ d.toNat := by
  have hpair {e : Char} (he : 32 ≤ e.toNat) : ∀ d ∈ ['\\', e], 32 ≤ d.toNat :=
    List.forall_mem_cons.2 ⟨by decide, List.forall_mem_singleton.2 he⟩
  have hopen : ∀ d ∈ ['\\', 'u', '0', '0'], 32 ≤ d.toNat := by simp
  have hdigit : ∀ n < 16, 32 ≤ (hexDigit n).toNat := by decide
  unfold escapedChar
  -- the seven characters with a short escape, then the other controls
  iterate 7
    split
    · exact hpair (by decide)
  split
  · rename_i hcontrol
    refine List.forall_mem_append.2 ⟨hopen, List.forall_mem_cons.2 ⟨hdigit _ (by omega), ?_⟩⟩
    exact List.forall_mem_singleton.2 (hdigit _ (by omega))
  · rename_i hcontrol
    exact List.forall_mem_singleton.2 (Nat.not_lt.1 hcontrol)

theorem noControls_quoted (s : String) : NoControls (quoted s) := by
  have hquote : NoControls "\"" := by decide
  refine (hquote.append fun d hd => ?_).append hquote
  rw [String.toList_ofList, List.mem_flatMap] at hd
  obtain ⟨c, -, hd⟩ := hd
  exact noControls_escapedChar c d hd

end Texts

mutual
/-- No tree has a control character in its compact text. -/
theorem noControls_compact (t : Tree) : NoControls t.compact := by
  match t with
  | .null => decide
  | .bool true => decide
  | .bool false => decide
  | .number n => exact noControls_number .tree n
  | .string s => exact noControls_quoted s
  | .list ts => exact NoControls.between (by decide) (by decide) (noControls_compactItems ts)
  | .mapping es => exact NoControls.between (by decide) (by decide) (noControls_compactEntries es)
termination_by structural t

theorem noControls_compactItems (ts : List Tree) :
    ∀ text ∈ Tree.compactItems ts, NoControls text := by
  match ts with
  | [] => exact List.forall_mem_nil _
  | t :: ts => exact List.forall_mem_cons.2 ⟨noControls_compact t, noControls_compactItems ts⟩
termination_by structural ts

theorem noControls_compactEntries (es : List (String × Tree)) :
    ∀ text ∈ Tree.compactEntries es, NoControls text := by
  match es with
  | [] => exact List.forall_mem_nil _
  | (k, t) :: es =>
    have hcolon : NoControls ":" := by decide
    exact List.forall_mem_cons.2 ⟨((noControls_quoted k).append hcolon).append
      (noControls_compact t), noControls_compactEntries es⟩
termination_by structural es
end

end Schemata
