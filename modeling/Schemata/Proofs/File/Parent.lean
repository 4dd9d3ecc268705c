import Schemata.Proofs.File.Plain

/-!
# The directory above a path

Trimming a text drops blank pieces at its end and nothing that counts. Therefore the path above a
path has the parts of that path but the last, and a path spelled plainly has a plain path above it.
-/

namespace Schemata.FilePath

theorem startLength_eq (cs : List Char) : startLength cs = (lead cs).length := by
  unfold startLength
  split
  · rw [lead_eq_root.2 ⟨_, rfl⟩]
    rfl
  · rfl
  · rename_i rest
    have first : ('.' :: '/' :: rest).splitOn '/' = ['.'] :: rest.splitOn '/' :=
      List.splitOn_append_cons_self_of_not_mem (show '/' ∉ ['.'] by simp) rest
    rw [lead_eq_here.2 ⟨_, first⟩]
    rfl
  · rename_i noRoot noPoint noPoints
    rcases lead_cases cs with h | h | h
    · obtain ⟨rest, hr⟩ := lead_eq_root.1 h
      exact absurd hr (noRoot rest)
    · obtain ⟨qs, hq⟩ := lead_eq_here.1 h
      have whole : ['/'].intercalate (cs.splitOn '/') = cs := List.intercalate_splitOn '/'
      rw [hq] at whole
      cases qs with
      | nil => exact absurd whole.symm noPoint
      | cons q qs => exact absurd whole.symm (noPoints _)
    · rw [h]
      rfl

theorem exists_last_piece (cs : List Char) : ∃ above q, cs = above ++ q ∧ '/' ∉ q ∧
    (above = [] ∨ ∃ above', above = above' ++ ['/']) := by
  induction cs with
  | nil => exact ⟨[], [], rfl, by simp, .inl rfl⟩
  | cons c cs ih =>
    obtain ⟨above, q, rfl, hq, ha⟩ := ih
    rcases ha with rfl | ⟨above', rfl⟩
    · by_cases hc : c = '/'
      · exact ⟨['/'], q, by simp [hc], hq, .inr ⟨[], rfl⟩⟩
      · exact ⟨[], c :: q, rfl, by simp [hq, Ne.symm hc], .inl rfl⟩
    · exact ⟨c :: (above' ++ ['/']), q, rfl, hq, .inr ⟨c :: above', rfl⟩⟩

/-- A piece that counts and may stand behind a text as the last one. -/
structure LastPiece (before q : List Char) : Prop where
  slash_notMem : '/' ∉ q
  counts : isHollow q = false
  boundary : before = [] ∨ ∃ before', before = before' ++ ['/']

/-- Nothing is left to trim: only the start of the path is there, or the last piece counts. -/
def Tight (cs : List Char) : Prop :=
  cs.length = startLength cs ∨ ∃ before q, cs = before ++ q ∧ LastPiece before q

theorem lead_append_slash {cs : List Char} (h : cs ≠ []) (rest : List Char) :
    lead (cs ++ '/' :: rest) = lead cs := by
  obtain ⟨c, cs, rfl⟩ := List.exists_cons_of_ne_nil h
  obtain ⟨q, qs, hq⟩ := List.exists_cons_of_ne_nil (List.splitOn_ne_nil '/' (c :: cs))
  unfold lead
  rw [List.splitOn_append_cons_self, hq]
  rfl

theorem solid_append_point (cs : List Char) : solid (cs ++ ['/', '.']) = solid (cs ++ ['/']) := by
  rw [solid_append_slash, solid_append_slash]
  rfl

theorem lead_append_point (cs : List Char) : lead (cs ++ ['/', '.']) = lead (cs ++ ['/']) := by
  by_cases h : cs = []
  · subst h
    rfl
  · rw [lead_append_slash h, lead_append_slash h]

theorem length_lead_le (cs : List Char) : (lead cs).length ≤ cs.length := by
  cases cs with
  | nil => exact Nat.le_refl 0
  | cons c cs =>
    rcases lead_cases (c :: cs) with h | h | h <;> rw [h] <;> simp

theorem trimEnd_spec (fuel : Nat) (back : List Char) (h : back.length < fuel) :
    lead (trimEnd fuel back).reverse = lead back.reverse ∧
      solid (trimEnd fuel back).reverse = solid back.reverse ∧
      Tight (trimEnd fuel back).reverse := by
  induction fuel generalizing back with
  | zero => omega
  | succ fuel ih =>
    simp only [trimEnd]
    split
    · rename_i rest
      simp only [List.length_cons] at h
      split
      · rename_i room
        obtain ⟨hl, hs, ht⟩ := ih rest (by omega)
        have hr : rest.reverse ≠ [] := by
          intro hr
          rw [List.reverse_eq_nil_iff.1 hr] at room
          exact absurd room (by decide)
        refine ⟨?_, ?_, ht⟩
        · rw [hl, List.reverse_cons, lead_append_slash hr]
        · rw [hs, List.reverse_cons, solid_append_slash, solid_nil, List.append_nil]
      · rename_i room
        refine ⟨rfl, rfl, .inl ?_⟩
        have := length_lead_le ('/' :: rest).reverse
        rw [← startLength_eq] at this
        rw [List.length_reverse] at this ⊢
        omega
    · rename_i rest
      simp only [List.length_cons] at h
      obtain ⟨hl, hs, ht⟩ := ih ('/' :: rest) (by simp only [List.length_cons]; omega)
      refine ⟨?_, ?_, ht⟩
      · rw [hl]
        simpa using (lead_append_point rest.reverse).symm
      · rw [hs]
        simpa using (solid_append_point rest.reverse).symm
    · rename_i noSlash noPoint
      refine ⟨rfl, rfl, ?_⟩
      obtain ⟨above, q, he, hq, ha⟩ := exists_last_piece back.reverse
      have hback : back = q.reverse ++ above.reverse := by
        rw [← List.reverse_append, ← he, List.reverse_reverse]
      by_cases hb : isHollow q
      -- a last piece that does not count would have been trimmed unless it is all there is
      · left
        rw [he]
        simp only [isHollow, Bool.or_eq_true, decide_eq_true_eq] at hb
        rcases hb with rfl | rfl <;> rcases ha with rfl | ⟨above', rfl⟩
        · rfl
        · exact absurd (by simpa using hback) (noSlash _)
        · rfl
        · exact absurd (by simpa using hback) (noPoint _)
      · exact .inr ⟨above, q, he, hq, by simpa using hb, ha⟩

theorem trimmed_spec (cs : List Char) :
    lead (trimmed cs) = lead cs ∧ solid (trimmed cs) = solid cs ∧ Tight (trimmed cs) := by
  have := trimEnd_spec (cs.length + 1) cs.reverse (by simp)
  rwa [List.reverse_reverse] at this

theorem eq_of_length_eq_startLength {cs : List Char} (h : cs.length = startLength cs) :
    cs = [] ∨ cs = ['/'] ∨ cs = ['.'] := by
  rw [startLength_eq] at h
  rcases lead_cases cs with hl | hl | hl <;> rw [hl] at h
  · obtain ⟨rest, rfl⟩ := lead_eq_root.1 hl
    exact .inr (.inl (by simpa using h))
  · obtain ⟨c, rfl⟩ := List.length_eq_one_iff.1 h
    obtain ⟨qs, hq⟩ := lead_eq_here.1 hl
    have whole : ['/'].intercalate ([c].splitOn '/') = [c] := List.intercalate_splitOn '/'
    rw [hq] at whole
    cases qs with
    | nil => exact .inr (.inr whole.symm)
    | cons q qs => simp at whole
  · exact .inl (List.length_eq_zero_iff.1 h)

def above (cs : List Char) : List Char :=
  if (cs.drop (startLength cs)).isEmpty then []
  else trimmed (cs.take (startLength cs)
    ++ ((cs.drop (startLength cs)).reverse.dropWhile (· ≠ '/')).reverse)

namespace LastPiece

variable {before q : List Char}

theorem ne_nil (h : LastPiece before q) : q ≠ [] := by
  rintro rfl
  cases h.counts

theorem solid_eq (h : LastPiece before q) : solid q = [q] := by
  rw [solid, List.splitOn_eq_singleton h.slash_notMem, List.filter_cons, h.counts]
  rfl

theorem lead_eq (h : LastPiece before q) : lead q = [] := by
  rcases lead_cases q with hl | hl | hl
  · obtain ⟨rest, rfl⟩ := lead_eq_root.1 hl
    exact absurd List.mem_cons_self h.slash_notMem
  · obtain ⟨qs, hs⟩ := lead_eq_here.1 hl
    have hb := h.counts
    rw [List.splitOn_eq_singleton h.slash_notMem] at hs
    rw [(List.cons.inj hs).1] at hb
    cases hb
  · exact hl

theorem lead_append (h : LastPiece before q) : lead (before ++ q) = lead before := by
  rcases h.boundary with rfl | ⟨before', rfl⟩
  · exact h.lead_eq
  · by_cases hn : before' = []
    · subst hn
      rw [List.nil_append, List.singleton_append, lead_eq_root.2 ⟨q, rfl⟩]
      rfl
    · rw [List.append_assoc, List.singleton_append, lead_append_slash hn, lead_append_slash hn]

theorem solid_append (h : LastPiece before q) : solid (before ++ q) = solid before ++ [q] := by
  rcases h.boundary with rfl | ⟨before', rfl⟩
  · exact h.solid_eq
  · rw [List.append_assoc, List.singleton_append, solid_append_slash, solid_append_slash,
      h.solid_eq, solid_nil, List.append_nil]

theorem startLength_le (h : LastPiece before q) : startLength (before ++ q) ≤ before.length := by
  rw [startLength_eq, h.lead_append]
  exact length_lead_le before

theorem above_append (h : LastPiece before q) : above (before ++ q) = trimmed before := by
  have hs := h.startLength_le
  have pass : ∀ c ∈ q.reverse, decide (c ≠ '/') = true := by
    intro c hc
    simp only [decide_eq_true_eq]
    rintro rfl
    exact h.slash_notMem (List.mem_reverse.1 hc)
  have stop : (before.drop (startLength (before ++ q))).reverse.dropWhile (· ≠ '/') =
      (before.drop (startLength (before ++ q))).reverse := by
    rcases h.boundary with rfl | ⟨before', rfl⟩
    · rw [List.drop_nil]
      rfl
    · generalize startLength (before' ++ ['/'] ++ q) = n at hs
      rcases Nat.lt_or_ge n (before' ++ ['/']).length with hn | hn
      · have hn' : n ≤ before'.length := by
          rw [List.length_append, List.length_singleton] at hn
          omega
        rw [List.drop_append_of_le_length hn', List.reverse_append]
        rfl
      · rw [List.drop_of_length_le hn]
        rfl
  rw [above, List.drop_append_of_le_length hs, List.take_append_of_le_length hs,
    if_neg (by simp [h.ne_nil]), List.reverse_append, List.dropWhile_append_of_pos pass, stop,
    List.reverse_reverse, List.take_append_drop]

end LastPiece

theorem parent?_eq_none {p : FilePath} (h : p.parts = [] ∨ p.parts = [.root]) :
    p.parent? = none := by
  unfold parent?
  rcases h with h | h <;> rw [h] <;> rfl

theorem parent?_eq_some {p : FilePath} {part : PathPart} (h : p.parts.getLast? = some part)
    (hr : part ≠ .root) : p.parent? = some ⟨String.ofList (above (trimmed p.text.toList))⟩ := by
  unfold parent? above
  rw [h]
  split
  · rename_i hn
    cases hn
  · rename_i hn
    cases hn
    exact absurd rfl hr
  · simp only
    split <;> rfl

theorem trimEnd_eq_of_tight {cs : List Char} (h : Tight cs) (fuel : Nat) :
    trimEnd (fuel + 1) cs.reverse = cs.reverse := by
  rcases h with h | ⟨before, q, rfl, h⟩
  · rcases eq_of_length_eq_startLength h with rfl | rfl | rfl <;> rfl
  · have hq' : '/' ∉ q.reverse := by
      rw [List.mem_reverse]
      exact h.slash_notMem
    have hb' : isHollow q.reverse = false := by
      rw [← h.counts, isHollow, isHollow]
      simp [List.reverse_eq_iff]
    rw [List.reverse_append]
    generalize q.reverse = back at hq' hb'
    simp only [trimEnd]
    split
    · rename_i he
      cases back with
      | nil => cases hb'
      | cons c back =>
        rw [(List.cons.inj he).1] at hq'
        exact absurd List.mem_cons_self hq'
    · rename_i he
      rcases back with _ | ⟨c, _ | ⟨c', back⟩⟩
      · cases hb'
      · rw [(List.cons.inj he).1] at hb'
        cases hb'
      · rw [(List.cons.inj (List.cons.inj he).2).1] at hq'
        simp at hq'
    · rfl

theorem trimmed_eq_of_tight {cs : List Char} (h : Tight cs) : trimmed cs = cs := by
  rw [trimmed, trimEnd_eq_of_tight h, List.reverse_reverse]

theorem intercalate_concat {qs : List (List Char)} (h : qs ≠ []) (q : List Char) :
    ['/'].intercalate (qs ++ [q]) = ['/'].intercalate qs ++ ['/'] ++ q := by
  induction qs with
  | nil => exact absurd rfl h
  | cons q' qs ih =>
    by_cases hn : qs = []
    · subst hn
      simp
    · rw [List.cons_append, List.intercalate_cons_of_ne_nil (by simp), ih hn,
        List.intercalate_cons_of_ne_nil hn]
      simp

theorem spell_concat (cs : List Char) (qs : List (List Char)) (q : List Char) :
    ∃ before, spell (lead cs) (qs ++ [q]) = before ++ q ∧
      (before = spell (lead cs) qs ∧ qs = [] ∨ before = spell (lead cs) qs ++ ['/']) ∧
      (before = [] ∨ ∃ before', before = before' ++ ['/']) := by
  by_cases hn : qs = []
  · subst hn
    rcases lead_cases cs with hl | hl | hl <;> rw [hl]
    · exact ⟨['/'], by simp [spell], .inl ⟨rfl, rfl⟩, .inr ⟨[], rfl⟩⟩
    · exact ⟨['.', '/'], by simp [spell], .inr rfl, .inr ⟨['.'], rfl⟩⟩
    · exact ⟨[], by simp [spell], .inl ⟨rfl, rfl⟩, .inl rfl⟩
  · refine ⟨spell (lead cs) qs ++ ['/'], ?_, .inr rfl, .inr ⟨_, rfl⟩⟩
    rcases lead_cases cs with hl | hl | hl <;> rw [hl]
    · simp [spell, intercalate_concat hn]
    · exact intercalate_concat (List.cons_ne_nil ['.'] qs) q
    · exact intercalate_concat hn q

theorem tight_spell (cs : List Char) {qs : List (List Char)} (h : Solid qs) :
    Tight (spell (lead cs) qs) := by
  rcases List.eq_nil_or_concat qs with rfl | ⟨qs, q, rfl⟩
  · left
    rcases lead_cases cs with hl | hl | hl <;> rw [hl] <;> rfl
  · obtain ⟨before, he, -, ha⟩ := spell_concat cs qs q
    obtain ⟨hb, hq⟩ := h q (by simp)
    exact .inr ⟨before, q, by simpa using he, hq, hb, ha⟩

theorem trimmed_append_slash {cs : List Char} (h : cs ≠ []) :
    trimmed (cs ++ ['/']) = trimmed cs := by
  have room : (cs ++ ['/']).length - startLength (cs ++ ['/']) ≥ 1 := by
    have := length_lead_le cs
    rw [startLength_eq, lead_append_slash h, List.length_append, List.length_singleton]
    omega
  have back : (cs ++ ['/']).reverse = '/' :: cs.reverse := by simp
  rw [trimmed, back, trimEnd, ← back, List.reverse_reverse, List.length_reverse]
  simp only [back, room, if_true]
  rw [List.length_append, List.length_singleton, trimmed]

theorem above_spec {cs : List Char} (ht : Tight cs) {qs : List (List Char)} {q : List Char}
    (h : solid cs = qs ++ [q]) : ∃ before, cs = before ++ q ∧ above cs = trimmed before ∧
      solid before = qs ∧ lead before = lead cs := by
  rcases ht with ht | ⟨before, q', rfl, hpiece⟩
  · have none : solid cs = [] := by
      rcases eq_of_length_eq_startLength ht with rfl | rfl | rfl <;> rfl
    rw [none] at h
    simp at h
  · rw [hpiece.solid_append] at h
    obtain ⟨hbefore, hlast⟩ := List.append_inj' h rfl
    cases hlast
    exact ⟨before, rfl, hpiece.above_append, hbefore, hpiece.lead_append.symm⟩

/-- Plainly spelled, the directory above is the path without its last piece. -/
theorem above_spell (cs : List Char) {qs : List (List Char)} {q : List Char}
    (h : Solid (qs ++ [q])) : above (spell (lead cs) (qs ++ [q])) = spell (lead cs) qs := by
  obtain ⟨before, he, hbefore, ha⟩ := spell_concat cs qs q
  obtain ⟨hb, hq⟩ := h q (by simp)
  have hpiece : LastPiece before q := ⟨hq, hb, ha⟩
  have hqs : Solid qs := fun q' hq' => h q' (by simp [hq'])
  rw [he, hpiece.above_append]
  rcases hbefore with ⟨rfl, -⟩ | rfl
  · exact trimmed_eq_of_tight (tight_spell cs hqs)
  · by_cases hn : spell (lead cs) qs = []
    · have hl := lead_spell cs hqs
      have hs : solid (spell (lead cs) qs) = qs := solid_spell hqs
      rw [hn] at hl hs
      rw [← hs, ← hl] at he
      have := congrArg List.length he
      simp [spell, lead] at this
    · rw [trimmed_append_slash hn, trimmed_eq_of_tight (tight_spell cs hqs)]

/-- A path that nothing is left to trim of is plain when none of its pieces counts. -/
theorem Tight.plainText_eq {cs : List Char} (h : Tight cs) (hs : solid cs = []) :
    plainText cs = cs := by
  rcases h with h | ⟨before, q, rfl, hpiece⟩
  · rcases eq_of_length_eq_startLength h with rfl | rfl | rfl <;> rfl
  · rw [hpiece.solid_append] at hs
    simp at hs

theorem Tight.exists_lastPiece {cs : List Char} (h : Tight cs) (hs : solid cs ≠ []) :
    ∃ before q, cs = before ++ q ∧ LastPiece before q := by
  refine h.resolve_left fun h => hs ?_
  rcases eq_of_length_eq_startLength h with rfl | rfl | rfl <;> rfl

theorem parent?_plain (p : FilePath) : p.plain.parent? = p.parent?.map plain := by
  obtain ⟨hl, hs, ht⟩ := trimmed_spec p.text.toList
  have hp := parts_eq p
  have hpp := parts_plain p
  rcases List.eq_nil_or_concat (solid p.text.toList) with hn | ⟨qs, q, hn⟩
  · rw [hn, List.map_nil, List.append_nil] at hp
    rcases lead_cases p.text.toList with hc | hc | hc <;> rw [hc] at hp
    · rw [parent?_eq_none (.inr hp), parent?_eq_none (.inr (hpp.trans hp))]
      rfl
    · have hlast : p.parts.getLast? = some .here := by rw [hp]; rfl
      rw [parent?_eq_some hlast (by simp), parent?_eq_some (by rw [hpp, hlast]) (by simp),
        ← ht.plainText_eq (hs.trans hn), plainText, hl, hs, toList_plain, plainText, hc, hn]
      rfl
    · rw [parent?_eq_none (.inl hp), parent?_eq_none (.inl (hpp.trans hp))]
      rfl
  · rw [List.concat_eq_append] at hn
    have hlast : p.parts.getLast? = some (partOf q) := by simp [hp, hn]
    have hsolid : Solid (qs ++ [q]) := hn ▸ solid_isSolid p.text.toList
    obtain ⟨before, -, habove, hqs, hbefore⟩ := above_spec ht (hs.trans hn)
    obtain ⟨hl', hs', -⟩ := trimmed_spec before
    rw [parent?_eq_some hlast (partOf_ne_root q),
      parent?_eq_some (by rw [hpp, hlast]) (partOf_ne_root q), toList_plain, plainText, hn,
      trimmed_eq_of_tight (tight_spell _ hsolid), above_spell _ hsolid, habove, Option.map_some,
      plain, String.toList_ofList, plainText, hl', hs', hbefore, hl, hqs]

theorem trimEnd_suffix (fuel : Nat) (back : List Char) : trimEnd fuel back <:+ back := by
  fun_induction trimEnd fuel back with
  | case1 => exact List.suffix_refl _
  | case2 fuel rest room _ ih => exact ih.trans (List.suffix_cons '/' rest)
  | case3 => exact List.suffix_refl _
  | case4 fuel rest ih => exact ih.trans (List.suffix_cons '.' ('/' :: rest))
  | case5 => exact List.suffix_refl _

theorem trimmed_isPrefix (cs : List Char) : trimmed cs <+: cs := by
  have := List.reverse_prefix.2 (trimEnd_suffix (cs.length + 1) cs.reverse)
  rwa [List.reverse_reverse] at this

/-- Above a path with pieces that count there is the path without the last of them. -/
theorem exists_parent? {p : FilePath} {qs : List (List Char)} {q : List Char}
    (h : solid p.text.toList = qs ++ [q]) : ∃ dir, p.parent? = some dir ∧
      dir.text.toList <+: p.text.toList ∧ lead dir.text.toList = lead p.text.toList ∧
      solid dir.text.toList = qs := by
  obtain ⟨hl, hs, ht⟩ := trimmed_spec p.text.toList
  have hlast : p.parts.getLast? = some (partOf q) := by simp [parts_eq, h]
  obtain ⟨before, hcut, habove, hqs, hbefore⟩ := above_spec ht (hs.trans h)
  obtain ⟨hl', hs', -⟩ := trimmed_spec before
  refine ⟨_, parent?_eq_some hlast (partOf_ne_root q), ?_⟩
  rw [String.toList_ofList, habove]
  refine ⟨?_, by rw [hl', hbefore, hl], by rw [hs', hqs]⟩
  have hpart : before <+: trimmed p.text.toList := ⟨q, hcut.symm⟩
  exact (trimmed_isPrefix before).trans (hpart.trans (trimmed_isPrefix _))

theorem tight_of_parent? {p dir : FilePath} (h : p.parent? = some dir) :
    Tight dir.text.toList := by
  unfold parent? at h
  split at h
  · cases h
  · cases h
  · simp only at h
    split at h <;> cases h
    · exact .inl rfl
    · rw [String.toList_ofList]
      exact (trimmed_spec _).2.2

end Schemata.FilePath
