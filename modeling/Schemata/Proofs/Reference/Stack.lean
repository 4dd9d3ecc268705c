import Schemata.Reference.Basic

/-!
# The stack of targets

A stack takes a node that it does not hold as long as it has room, and gives back the one taken
last. Leaving undoes entering, and the document itself is never left. So whatever is entered and
left, the stack begins with the document, holds no node twice and stays within its limit.
-/

namespace Schemata.ResolutionStack

variable {s s' : ResolutionStack} {root key : ResolutionKey} {e : LoadError} {limit : Nat}

theorem push_eq_ok (h : s.push key = .ok s') : ¬ s.keys.any (·.same key) ∧
    s.keys.length < s.maxDepth ∧ s' = ⟨s.keys ++ [key], s.maxDepth⟩ := by
  unfold push at h
  split at h
  · cases h
  · rename_i hc
    cases h
    rw [Bool.or_eq_true, decide_eq_true_iff, not_or, Nat.not_le] at hc
    exact ⟨hc.1, hc.2, rfl⟩

theorem push_eq_error : s.push key = .error e ↔
    (s.keys.any (·.same key) ∨ s.maxDepth ≤ s.keys.length) ∧ e = .cyclic (s.keys ++ [key]) := by
  rw [push]
  split <;> rename_i hc <;> rw [Bool.or_eq_true, decide_eq_true_iff] at hc
  · rw [Except.error.injEq, and_iff_right hc, eq_comm]
  · exact ⟨nofun, fun h => absurd h.1 hc⟩

theorem push_ne_nil (h : s.push key = .ok s') : s'.keys ≠ [] := by
  obtain ⟨-, -, rfl⟩ := push_eq_ok h
  exact List.append_ne_nil_of_right_ne_nil _ (List.cons_ne_nil _ _)

theorem currentFile_of_push (h : s.push key = .ok s') : s'.currentFile = key.file := by
  obtain ⟨-, -, rfl⟩ := push_eq_ok h
  rw [currentFile, List.getLast?_concat]

theorem pop_of_lt (h : 1 < s.keys.length) :
    s.pop = (s.keys.getLast?, { s with keys := s.keys.dropLast }) := by
  rw [pop, if_pos h]

theorem pop_of_le (h : s.keys.length ≤ 1) : s.pop = (none, s) := by
  rw [pop, if_neg (Nat.not_lt.2 h)]

theorem pop_of_push (h : s.push key = .ok s') (hn : s.keys ≠ []) : s'.pop = (some key, s) := by
  obtain ⟨-, -, rfl⟩ := push_eq_ok h
  have hlen : 1 < (s.keys ++ [key]).length := by
    rw [List.length_append, List.length_singleton]
    have := List.length_pos_iff.2 hn
    omega
  rw [pop_of_lt hlen]
  simp only [List.getLast?_concat, List.dropLast_concat]

theorem maxDepth_pop (s : ResolutionStack) : s.pop.2.maxDepth = s.maxDepth := by
  rw [pop]
  split <;> rfl

theorem pop_subset (s : ResolutionStack) : s.pop.2.keys ⊆ s.keys := by
  rw [pop]
  split
  · exact List.dropLast_subset s.keys
  · exact List.Subset.refl s.keys

theorem length_le_pop (s : ResolutionStack) : s.keys.length ≤ s.pop.2.keys.length + 1 := by
  rw [pop]
  split
  · rw [List.length_dropLast]
    omega
  · exact Nat.le_succ _

theorem pop_ne_nil (h : s.keys ≠ []) : s.pop.2.keys ≠ [] := by
  by_cases hlen : 1 < s.keys.length
  · have hpop := length_le_pop s
    exact List.ne_nil_of_length_pos (by omega)
  · rwa [pop_of_le (Nat.not_lt.1 hlen)]

inductive Move where
  | enter (key : ResolutionKey)
  | leave
deriving DecidableEq

inductive Answer where
  | entered
  | refused (e : LoadError)
  | left (key : Option ResolutionKey)
deriving DecidableEq

def move (s : ResolutionStack) : Move → Answer × ResolutionStack
  | .enter key =>
    match s.push key with
    | .ok s' => (.entered, s')
    | .error e => (.refused e, s)
  | .leave => (.left s.pop.1, s.pop.2)

def moves (s : ResolutionStack) (ms : List Move) : ResolutionStack :=
  ms.foldl (fun s m => (s.move m).2) s

theorem move_eq_entered : s.move (.enter key) = (.entered, s') ↔ s.push key = .ok s' := by
  rw [move]
  cases s.push key <;> simp

theorem move_eq_refused :
    s.move (.enter key) = (.refused e, s') ↔ s.push key = .error e ∧ s' = s := by
  rw [move]
  cases s.push key <;> simp [eq_comm]

/-- The stack begins with the document, holds no node twice and stays within its limit, which does
not keep the document itself out. -/
structure Rooted (root : ResolutionKey) (limit : Nat) (s : ResolutionStack) : Prop where
  bottom : s.keys.head? = some root
  distinct : s.keys.Pairwise fun k l => ¬ k.same l
  within : s.keys.length ≤ max 1 limit
  maxDepth_eq : s.maxDepth = limit

namespace Rooted

theorem single (root : ResolutionKey) (limit : Nat) : Rooted root limit ⟨[root], limit⟩ where
  bottom := rfl
  distinct := List.pairwise_singleton _ _
  within := Nat.le_max_left _ _
  maxDepth_eq := rfl

theorem ne_nil (h : Rooted root limit s) : s.keys ≠ [] := by
  intro hn
  have hb := h.bottom
  rw [hn] at hb
  cases hb

theorem push (h : Rooted root limit s) (hp : s.push key = .ok s') : Rooted root limit s' := by
  obtain ⟨hnew, hlt, rfl⟩ := push_eq_ok hp
  refine ⟨?_, ?_, ?_, h.maxDepth_eq⟩
  · rw [List.head?_append, h.bottom, Option.some_or]
  · refine List.pairwise_append.2 ⟨h.distinct, List.pairwise_singleton _ _, fun k hk l hl => ?_⟩
    rw [List.mem_singleton.1 hl]
    exact fun hs => hnew (List.any_eq_true.2 ⟨k, hk, hs⟩)
  · rw [List.length_append, List.length_singleton, ← h.maxDepth_eq]
    exact Nat.le_trans hlt (Nat.le_max_right _ _)

theorem pop (h : Rooted root limit s) : Rooted root limit s.pop.2 := by
  by_cases hlen : 1 < s.keys.length
  · rw [pop_of_lt hlen]
    refine ⟨?_, h.distinct.sublist (List.dropLast_sublist _), ?_, h.maxDepth_eq⟩
    · rw [List.head?_dropLast, if_pos hlen, h.bottom]
    · rw [List.length_dropLast]
      exact Nat.le_trans (Nat.sub_le _ _) h.within
  · rw [pop_of_le (Nat.not_lt.1 hlen)]
    exact h

theorem move (h : Rooted root limit s) (m : Move) : Rooted root limit (s.move m).2 := by
  cases m with
  | leave => exact h.pop
  | enter key =>
    rw [ResolutionStack.move]
    split
    · rename_i hp
      exact h.push hp
    · exact h

theorem moves (h : Rooted root limit s) (ms : List Move) : Rooted root limit (s.moves ms) := by
  induction ms generalizing s with
  | nil => exact h
  | cons m ms ih => exact ih (h.move m)

end Rooted

/-- The stack of a document, whatever has been entered and left before. A node is refused just in
case it is on the stack or there is no room, and the stack is left as it is. A node that is entered
says which file fragments refer to, and to leave it at once gives it back together with the stack
before it was entered. The document itself is not left. -/
theorem rooted_moves (d : Disk) (origin : FilePath) (limit : Nat) (ms : List Move) :
    let s := moves { new d origin with maxDepth := limit } ms
    s.keys ≠ [] ∧ s.Rooted (.root d origin) limit ∧
      (∀ key e s', s.move (.enter key) = (.refused e, s') ↔
        (s.keys.any (·.same key) ∨ limit ≤ s.keys.length) ∧
          e = .cyclic (s.keys ++ [key]) ∧ s' = s) ∧
      (∀ key s', s.move (.enter key) = (.entered, s') →
        s'.currentFile = key.file ∧ s'.move .leave = (.left (some key), s)) ∧
      (s.keys = [.root d origin] → s.move .leave = (.left none, s)) := by
  intro s
  have hs : s.Rooted (.root d origin) limit := (Rooted.single _ _).moves ms
  refine ⟨hs.ne_nil, hs, fun key e s' => ?_, fun key s' h => ?_, fun hbare => ?_⟩
  · rw [move_eq_refused, push_eq_error, hs.maxDepth_eq, and_assoc]
  · have hp := move_eq_entered.1 h
    refine ⟨currentFile_of_push hp, ?_⟩
    rw [move, pop_of_push hp hs.ne_nil]
  · have hlen : s.keys.length ≤ 1 := by
      rw [hbare]
      exact Nat.le_refl 1
    rw [move, pop_of_le hlen]

/-- Where there is no room, a node is refused as if it were on the stack. -/
example :
    let s := moves ⟨[⟨⟨"/deal.json"⟩, ""⟩], 2⟩ [.enter ⟨⟨"/party.json"⟩, ""⟩]
    (s.move (.enter ⟨⟨"/money.json"⟩, ""⟩)).1 = .refused (.cyclic
      [⟨⟨"/deal.json"⟩, ""⟩, ⟨⟨"/party.json"⟩, ""⟩, ⟨⟨"/money.json"⟩, ""⟩]) := by
  decide +kernel

end Schemata.ResolutionStack
