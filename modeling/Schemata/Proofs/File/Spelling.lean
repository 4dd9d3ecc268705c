import Schemata.File.Path

/-!
# Spellings of a path

A path is compared by its parts, so that several texts name one path. The pieces of a text between
its slashes count unless they are empty or a lone point; what stands before the first of them tells
where the path starts.
-/

namespace Schemata.FilePath

/-- Pieces that do not count. -/
def isHollow (q : List Char) : Bool := q = [] || q = ['.']

/-- The pieces of a text that count. -/
def solid (cs : List Char) : List (List Char) := (cs.splitOn '/').filter fun q => !isHollow q

/-- Where a path starts. -/
def lead (cs : List Char) : List PathPart :=
  if cs.head? = some '/' then [.root]
  else if (cs.splitOn '/').head? = some ['.'] then [.here]
  else []

def partOf (q : List Char) : PathPart := if q = ['.', '.'] then .up else .name (String.ofList q)

theorem slashParts_eq (cs current : List Char) (h : '/' ∉ current) :
    slashParts cs current = (current.reverse ++ cs).splitOn '/' := by
  induction cs generalizing current with
  | nil =>
    rw [slashParts, List.append_nil, List.splitOn_eq_singleton (by simpa using h)]
  | cons c cs ih =>
    rw [slashParts]
    split
    · rename_i hc
      subst hc
      rw [ih [] (by simp), List.splitOn_append_cons_self_of_not_mem (by simpa using h)]
      rfl
    · rename_i hc
      rw [ih (c :: current) (by simp [h, Ne.symm hc])]
      simp

theorem pieces_eq (text : String) : pieces text = (text.toList.splitOn '/').map String.ofList := by
  rw [pieces, slashParts_eq _ _ (by simp)]
  rfl

theorem partOf?_ofList (q : List Char) :
    partOf? (String.ofList q) = if isHollow q then none else some (partOf q) := by
  have blank : (decide (String.ofList q = "") || decide (String.ofList q = ".")) = isHollow q := by
    simp [isHollow, ← String.toList_inj]
  have points : String.ofList q = ".." ↔ q = ['.', '.'] := by rw [← String.toList_inj]; simp
  rw [partOf?, blank, partOf]
  cases isHollow q with
  | true => rfl
  | false =>
    simp only [points, Bool.false_eq_true, if_false]
    split <;> rfl

theorem isAbsolute_iff (p : FilePath) : p.isAbsolute ↔ p.text.toList.head? = some '/' := by
  rw [isAbsolute, String.startsWith_string_iff]
  cases h : p.text.toList <;> simp [eq_comm]

theorem parts_eq (p : FilePath) :
    p.parts = lead p.text.toList ++ (solid p.text.toList).map partOf := by
  have named : (pieces p.text).filterMap partOf? = (solid p.text.toList).map partOf := by
    rw [pieces_eq, List.filterMap_map, solid]
    induction p.text.toList.splitOn '/' with
    | nil => rfl
    | cons q qs ih =>
      rw [List.filterMap_cons, Function.comp_apply, partOf?_ofList, List.filter_cons, ih]
      cases isHollow q <;> rfl
  have first : (pieces p.text).head? = some "." ↔
      (p.text.toList.splitOn '/').head? = some ['.'] := by
    rw [pieces_eq, List.head?_map]
    cases (p.text.toList.splitOn '/').head? with
    | none => simp
    | some q => simp [← String.toList_inj]
  simp only [parts, named, lead, isAbsolute_iff, first]
  split
  · rfl
  · split <;> rfl

theorem map_partOf_toList {names : List String} (h : ∀ s ∈ names, s ≠ "..") :
    (names.map String.toList).map partOf = names.map PathPart.name := by
  rw [List.map_map]
  refine List.map_congr_left fun s hs => ?_
  have hp : s.toList ≠ ['.', '.'] := fun he => h s hs (String.toList_inj.1 he)
  rw [Function.comp_apply, partOf, if_neg hp, String.ofList_toList]

theorem partOf_injective {q q' : List Char} (h : partOf q = partOf q') : q = q' := by
  unfold partOf at h
  split at h <;> split at h <;> simp_all [String.ofList_inj]

theorem lead_cases (cs : List Char) : lead cs = [.root] ∨ lead cs = [.here] ∨ lead cs = [] := by
  unfold lead
  split
  · exact .inl rfl
  · split
    · exact .inr (.inl rfl)
    · exact .inr (.inr rfl)

theorem partOf_ne_root (q : List Char) : partOf q ≠ .root := by unfold partOf; split <;> simp

theorem partOf_ne_here (q : List Char) : partOf q ≠ .here := by unfold partOf; split <;> simp

/-- Two texts of one path start alike and have the same pieces that count. -/
theorem same_iff {p q : FilePath} : p.same q ↔
    lead p.text.toList = lead q.text.toList ∧ solid p.text.toList = solid q.text.toList := by
  rw [same, decide_eq_true_iff, parts_eq, parts_eq]
  refine ⟨fun h => ?_, fun h => by rw [h.1, h.2]⟩
  have pieces {as bs : List (List Char)} (h : as.map partOf = bs.map partOf) : as = bs :=
    (List.map_inj_right fun _ _ => partOf_injective).1 h
  have start {part : PathPart} (hp : ∀ q, partOf q ≠ part) {as : List (List Char)}
      {ps : List PathPart} : as.map partOf ≠ part :: ps := by
    intro he
    obtain ⟨q, _, _, hq, _⟩ := List.map_eq_cons_iff.1 he
    exact hp q hq
  rcases lead_cases p.text.toList with hp | hp | hp <;>
    rcases lead_cases q.text.toList with hq | hq | hq <;> rw [hp, hq] at h ⊢
  · exact ⟨rfl, pieces (List.cons.inj h).2⟩
  · cases (List.cons.inj h).1
  · exact absurd h.symm (start partOf_ne_root)
  · cases (List.cons.inj h).1
  · exact ⟨rfl, pieces (List.cons.inj h).2⟩
  · exact absurd h.symm (start partOf_ne_here)
  · exact absurd h (start partOf_ne_root)
  · exact absurd h (start partOf_ne_here)
  · exact ⟨rfl, pieces h⟩

theorem not_mem_of_mem_splitOn {cs q : List Char} (h : q ∈ cs.splitOn '/') : '/' ∉ q := by
  induction cs generalizing q with
  | nil => simp_all
  | cons c cs ih =>
    rw [List.splitOn_cons_eq_if_modifyHead] at h
    split at h
    · rcases List.mem_cons.1 h with rfl | h
      · simp
      · exact ih h
    · rename_i hc
      cases hs : cs.splitOn '/' with
      | nil => exact absurd hs (List.splitOn_ne_nil '/' cs)
      | cons r rs =>
        rw [hs, List.modifyHead_cons] at h
        rcases List.mem_cons.1 h with rfl | h
        · have hr : '/' ∉ r := ih (hs ▸ List.mem_cons_self)
          intro hm
          rcases List.mem_cons.1 hm with he | hm
          · exact hc (by simp [← he])
          · exact hr hm
        · exact ih (hs ▸ List.mem_cons_of_mem _ h)

theorem solid_append_slash (as bs : List Char) :
    solid (as ++ '/' :: bs) = solid as ++ solid bs := by
  simp only [solid, List.splitOn_append_cons_self, List.filter_append]

@[simp] theorem solid_nil : solid [] = [] := rfl

theorem solid_slash_cons (cs : List Char) : solid ('/' :: cs) = solid cs :=
  solid_append_slash [] cs

theorem not_hollow_of_mem_solid {cs q : List Char} (h : q ∈ solid cs) : isHollow q = false := by
  simpa using (List.mem_filter.1 h).2

theorem not_mem_of_mem_solid {cs q : List Char} (h : q ∈ solid cs) : '/' ∉ q :=
  not_mem_of_mem_splitOn (List.mem_filter.1 h).1

theorem solid_intercalate {qs : List (List Char)} (h : ∀ q ∈ qs, '/' ∉ q) :
    solid (['/'].intercalate qs) = qs.filter fun q => !isHollow q := by
  cases qs with
  | nil => rfl
  | cons q qs => rw [solid, List.splitOn_intercalate '/' h (List.cons_ne_nil q qs)]

end Schemata.FilePath
