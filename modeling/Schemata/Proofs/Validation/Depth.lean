import Schemata.Grammar.Check
import Schemata.Proofs.Validation.Verdict

/-!
# Why a validation is refused as cyclic

Either nodes come back to a key, or a chain of nothing but references does, or a path is longer
than the stack admits. The last is no cycle: a ladder, each rung of which refers to the next, is
refused as soon as it has more rungs than the stack has room for.
-/

namespace Schemata

open Relation

variable {g : Tree → List Violation} {d : Disk} {r : Resolver} {s : Schema}

/-- A validation is refused as cyclic only where nodes come back to a key, a chain of nothing but
references does, or a path is longer than the stack admits. So a document whose references all
resolve, without a cycle and without such a path, is never refused as cyclic. -/
theorem Schema.reason_of_cyclic (hd : d.WellFormed) (g : Tree → List Violation) (r : Resolver)
    (s : Schema) :
    (∀ chain, (s.validate g d r).1 = .error (.cyclic chain) →
      (∃ a b, s.Reaches d r a ∧ TransGen (Leads d (s.resolver d r)) a b ∧ b.key = a.key) ∨
      (∃ a raw, s.Reaches d r a ∧ a.value.Refers raw ∧
        Circles d (s.resolver d r) raw a.key.file) ∨
      ∃ path, s.IsPath d r path ∧ path.length = ResolutionStack.defaultDepth + 1) ∧
    ((∀ a raw, s.Reaches d r a → a.value.Refers raw →
        ∃ b, ((s.resolver d r).resolveIn d raw a.key.file).1 = .ok b) →
      (∀ a b, s.Reaches d r a → TransGen (Leads d (s.resolver d r)) a b → b.key ≠ a.key) →
      (∀ path, s.IsPath d r path → path.length ≤ ResolutionStack.defaultDepth) →
      ∀ chain, (s.validate g d r).1 ≠ .error (.cyclic chain)) := by
  refine ⟨fun chain h => failure_of_error hd h, fun hres hacyclic hshort chain h => ?_⟩
  rcases failure_of_error hd h with ⟨a, b, ha, hab, hk⟩ | ⟨a, raw, ha, hraw, hc⟩ | ⟨path, hp, hl⟩
  · exact hacyclic a b ha hab hk
  · obtain ⟨b, hb⟩ := hres a raw ha hraw
    exact not_circles_of_resolves hd (ha.isPlain hd) hb hc
  · have := hshort path hp
    omega

namespace Ladder

def disk : Disk := ⟨[], []⟩

theorem wellFormed_disk : disk.WellFormed := by decide

def file : FilePath := ⟨"deep.schema.yaml"⟩

def ring : Schema := .ofTree file ⟨""⟩ (.mapping [("not", .mapping [("$ref", .string "#")])])

theorem ring_refused : disk.WellFormed ∧
    (ring.validate (fun _ => []) disk .empty).1 = .error (.cyclic [⟨file, ""⟩, ⟨file, ""⟩]) ∧
    ((∃ a b, ring.Reaches disk .empty a ∧
        TransGen (Leads disk (ring.resolver disk .empty)) a b ∧ b.key = a.key) ∨
      (∃ a raw, ring.Reaches disk .empty a ∧ a.value.Refers raw ∧
        Circles disk (ring.resolver disk .empty) raw a.key.file) ∨
      ∃ path, ring.IsPath disk .empty path ∧
        path.length = ResolutionStack.defaultDepth + 1) := by
  have h : (ring.validate (fun _ => []) disk .empty).1 =
    .error (.cyclic [⟨file, ""⟩, ⟨file, ""⟩]) := by decide +kernel
  exact ⟨wellFormed_disk, h, (Schema.reason_of_cyclic wellFormed_disk _ _ _).1 _ h⟩

/-- The pointer to the rung at a depth. -/
def pointer : Nat → List Char
  | 0 => []
  | k + 1 => '/' :: 'x' :: pointer k

def raw (k : Nat) : String := String.ofList ('#' :: pointer k)

def reference (k : Nat) : Tree := .mapping [("$ref", .string (raw k))]

/-- A rung at depth `k` with so many rungs beneath, the next one of which it refers to. -/
def rung : Nat → Nat → Tree
  | 0, _ => .mapping []
  | n + 1, k => .mapping [("not", reference (k + 1)), ("x", rung n (k + 1))]

def schema (n : Nat) : Schema := .ofTree file ⟨""⟩ (rung n 0)

def node (n k : Nat) : Target := ⟨⟨file, String.ofList (pointer k)⟩, rung (n - k) k⟩

variable {n k : Nat}

theorem length_pointer (k : Nat) : (pointer k).length = 2 * k := by
  induction k with
  | zero => rfl
  | succ k ih =>
    rw [pointer, List.length_cons, List.length_cons, ih]
    omega

theorem key_injective {n m i j : Nat} (h : (node n i).key = (node m j).key) : i = j := by
  have := congrArg (fun k : ResolutionKey => k.pointer.toList.length) h
  simp only [node, String.toList_ofList, length_pointer] at this
  omega

theorem slashed_pointer (k : Nat) (current : List Char) :
    Pointer.slashed (pointer k) current = current.reverse :: List.replicate k ['x'] := by
  induction k generalizing current with
  | zero => rfl
  | succ k ih =>
    rw [pointer, Pointer.slashed, if_pos rfl, Pointer.slashed, if_neg (by decide), ih]
    rfl

theorem tokens_pointer (k : Nat) :
    Pointer.tokens (String.ofList (pointer k)) = List.replicate k "x" := by
  have : Pointer.unescape (String.ofList ['x']) = "x" := by decide +kernel
  rw [Pointer.tokens, Pointer.pieces, String.toList_ofList, slashed_pointer, List.map_cons,
    List.drop_one, List.tail_cons, List.map_replicate, List.map_replicate, this]

theorem descend_rung (j m k : Nat) :
    Pointer.descend (rung (j + m) k) (List.replicate j "x") = .ok (rung m (k + j)) := by
  induction j generalizing k with
  | zero => rw [Nat.zero_add, Nat.add_zero, List.replicate_zero, Pointer.descend]
  | succ j ih =>
    rw [Nat.succ_add, rung, List.replicate_succ, Pointer.descend]
    have : Entries.get? [("not", reference (k + 1)), ("x", rung (j + m) (k + 1))] "x" =
      some (rung (j + m) (k + 1)) := rfl
    simp only [this, ih]
    congr 2
    omega

theorem resolve_rung (h : k ≤ n) :
    Pointer.resolve (rung n 0) (String.ofList (pointer k)) = .ok (rung (n - k) k) := by
  cases k with
  | zero => rfl
  | succ k =>
    have hd := descend_rung (k + 1) (n - (k + 1)) 0
    rw [Nat.add_sub_cancel' h, Nat.zero_add] at hd
    rw [Pointer.resolve, if_neg, if_pos, tokens_pointer, hd]
    · simp [pointer]
    · simp [pointer]

theorem reference?_rung (n k : Nat) : (rung n k).reference? = none := by
  cases n <;> rfl

theorem positions_rung (n k : Nat) :
    Position.all [("not", reference (k + 1)), ("x", rung n (k + 1))] =
      [([.key "not"], reference (k + 1))] := rfl

theorem inside_rung {t : Tree} :
    Inside [("not", reference (k + 1)), ("x", rung n (k + 1))] t ↔ t = reference (k + 1) := by
  rw [← Position.exists_mem_all, positions_rung]
  simp [eq_comm]

theorem refers_reference {raw' : String} : (reference k).Refers raw' ↔ raw' = raw k :=
  Tree.refers_of_reference? rfl

theorem refers_rung {raw' : String} :
    (rung n k).Refers raw' ↔ 0 < n ∧ raw' = raw (k + 1) := by
  cases n with
  | zero =>
    have : Position.all [] = [] := rfl
    rw [rung, Tree.refers_of_inside rfl]
    simp [← Position.exists_mem_all, this]
  | succ n =>
    rw [rung, Tree.refers_of_inside (reference?_rung (n + 1) k)]
    simp [inside_rung, refers_reference]

theorem target_schema (n : Nat) : (schema n).target disk = node n 0 := by
  have : (ResolutionKey.root disk file).plain = ⟨file, ""⟩ := by decide +kernel
  rw [Schema.target, node]
  exact congrArg (Target.mk · (rung n 0)) this

theorem document_file (n : Nat) (r : Resolver) :
    ((schema n).resolver disk r).document disk file = .ok (rung n 0) := by
  have := (schema n).isAt_target disk r
  rw [target_schema] at this
  obtain ⟨t, ht, hv⟩ := this
  cases hv
  exact ht

theorem keyOf_raw (idBase : Option IdBase) (k : Nat) : Resolver.keyOf idBase disk (raw k) file =
    .ok ⟨file, String.ofList (pointer k)⟩ := by
  have : Reference.parse (raw k) = .fragment (String.ofList (pointer k)) := by
    simp [Reference.parse, raw]
  rw [Resolver.keyOf, this]

theorem isPlain_node (n k : Nat) : (node n k).IsPlain := by
  have : file.plain = file := by decide +kernel
  exact this

theorem resolveIn_raw (h : k ≤ n) : (((schema n).resolver disk r).resolveIn disk (raw k) file).1 =
    .ok (node n k) := by
  refine (resolveIn_eq_iff_follows wellFormed_disk (isPlain_node n k)).2 ?_
  exact .arrives (keyOf_raw _ k) rfl (document_file n r) (resolve_rung h) (reference?_rung _ _)

theorem leads_node {b : Target} :
    Leads disk ((schema n).resolver disk r) (node n k) b ↔ k < n ∧ b = node n (k + 1) := by
  constructor
  · rintro ⟨raw', hr, hb⟩
    obtain ⟨hk, rfl⟩ := refers_rung.1 hr
    have hk : k < n := by omega
    rw [node, resolveIn_raw hk] at hb
    exact ⟨hk, (Except.ok.inj hb).symm⟩
  · rintro ⟨hk, rfl⟩
    exact ⟨_, refers_rung.2 ⟨by omega, rfl⟩, resolveIn_raw hk⟩

theorem reaches_node {a : Target} (h : (schema n).Reaches disk r a) : ∃ k, a = node n k := by
  rw [Schema.Reaches, target_schema] at h
  induction h with
  | refl => exact ⟨0, rfl⟩
  | tail _ hl ih =>
    obtain ⟨k, rfl⟩ := ih
    exact ⟨k + 1, (leads_node.1 hl).2⟩

theorem depth_lt {b : Target}
    (h : TransGen (Leads disk ((schema n).resolver disk r)) (node n k) b) :
    ∃ j, k < j ∧ b = node n j := by
  induction h with
  | single hl => exact ⟨k + 1, Nat.lt_succ_self k, (leads_node.1 hl).2⟩
  | tail _ hl ih =>
    obtain ⟨j, hj, rfl⟩ := ih
    exact ⟨j + 1, by omega, (leads_node.1 hl).2⟩

/-- The walk stands on the rung at depth `k`. -/
structure Up (n : Nat) (r : Resolver) (k : Nat) (w : Walk) : Prop where
  view : Resolver.Agrees disk (fun f => f.plain = f) ((schema n).resolver disk r) w.resolver
  stack : w.stack = ⟨(List.range (k + 1)).map fun i => (node n i).key, ResolutionStack.defaultDepth⟩
  checked : w.checked = []

variable {w : Walk}

theorem Up.report (hw : Up n r k w) (base : TreePath) (vs : List Violation) :
    Up n r k (w.report base vs) :=
  { hw with }

theorem Up.resolve (hw : Up n r k w) (h : k < n) :
    ∃ r', w.resolver.resolve disk (raw (k + 1)) w.stack = (.ok (node n (k + 1)), r') ∧
      Up n r k { w with resolver := r' } := by
  have hf : w.stack.currentFile = file := by
    rw [hw.stack, ResolutionStack.currentFile, List.range_succ, List.map_append, List.map_singleton]
    simp only [List.getLast?_concat]
    rfl
  have hc := ((schema n).resolver disk r).closed_plain wellFormed_disk
  have hp : file.plain = file := isPlain_node n k
  refine ⟨_, Prod.ext ?_ rfl, { hw with view := ?_ }⟩
  · rw [Resolver.resolve, hf, Resolver.resolveIn_congr hc hw.view hp, resolveIn_raw h]
  · rw [Resolver.resolve, hf]
    exact Resolver.agrees_resolveIn hc hw.view hp _

theorem Up.not_on_stack (hw : Up n r k w) :
    w.stack.keys.any (·.same (node n (k + 1)).key) = false := by
  rw [hw.stack, List.any_eq_false]
  intro key hkey hs
  obtain ⟨i, hi, rfl⟩ := List.mem_map.1 hkey
  have plain (j : Nat) : (node n j).key.plain = (node n j).key := by
    rw [ResolutionKey.plain, isPlain_node n j]
  rw [ResolutionKey.same_iff_plain, plain, plain] at hs
  have := key_injective hs
  rw [List.mem_range] at hi
  omega

theorem through_rung {down : String → TreePath → Walk → Walk.Outcome} (hk : k < n)
    (h : ∀ base w, Up n r k w → ∃ chain w',
      down (raw (k + 1)) base w = (.error (.cyclic chain), w'))
    (hw : Up n r k w) (base : TreePath) :
    ∃ chain w', Walk.through down (node n k).value base w = (.error (.cyclic chain), w') := by
  obtain ⟨m, hm⟩ : ∃ m, n - k = m + 1 := ⟨n - k - 1, by omega⟩
  have hv : (node n k).value = .mapping [("not", reference (k + 1)), ("x", rung m (k + 1))] := by
    rw [node, hm, rung]
  have hr : (reference (k + 1)).reference? = some (raw (k + 1)) := rfl
  have hn : (Tree.mapping [("not", reference (k + 1)), ("x", rung m (k + 1))]).reference? = none :=
    reference?_rung (m + 1) k
  obtain ⟨chain, w', he⟩ := h (base ++ [.key "not"]) _ (hw.report base
    (undeclared [("not", reference (k + 1)), ("x", rung m (k + 1))]))
  refine ⟨chain, w', ?_⟩
  rw [hv, Walk.through_inside hn]
  have hd : Walk.through down (reference (k + 1)) (base ++ [.key "not"]) =
    down (raw (k + 1)) (base ++ [.key "not"]) := Walk.through_reference hr
  simp only [positions_rung, List.attach_cons, List.attach_nil, List.map_nil, Walk.inTurn]
  rw [hd, he]

/-- On a ladder that is high enough the stack has no room in the end. -/
theorem climb (hn : ResolutionStack.defaultDepth ≤ n) (room : Nat)
    (hroom : room + k + 1 = ResolutionStack.defaultDepth) (hw : Up n r k w) (base : TreePath) :
    ∃ chain w', Walk.descend g disk room (raw (k + 1)) base w = (.error (.cyclic chain), w') := by
  induction room generalizing k w base with
  | zero =>
    obtain ⟨r', hres, -⟩ := hw.resolve (by omega)
    have hpush : w.stack.push (node n (k + 1)).key = .error (.cyclic _) :=
      if_pos (by simp [hw.stack]; omega)
    exact ⟨_, _, Walk.descend_refused hres (by simp [hw.checked]) hpush⟩
  | succ room ih =>
    obtain ⟨r', hres, hw'⟩ := hw.resolve (by omega)
    have hpush : w.stack.push (node n (k + 1)).key =
        .ok ⟨w.stack.keys ++ [(node n (k + 1)).key], w.stack.maxDepth⟩ := by
      rw [ResolutionStack.push, hw.not_on_stack, if_neg]
      simp [hw.stack]
      omega
    have hup : Up n r (k + 1) ⟨r', ⟨w.stack.keys ++ [(node n (k + 1)).key], w.stack.maxDepth⟩,
        w.checked, w.violations⟩ :=
      { view := hw'.view
        stack := by rw [hw.stack, List.range_succ (n := k + 1), List.map_append]; rfl
        checked := hw.checked }
    obtain ⟨chain, w', he⟩ := through_rung (by omega)
      (fun base' w' hw' => ih (by omega) hw' base')
      (hup.report (base ++ [.key "$ref"]) (g (node n (k + 1)).value)) (base ++ [.key "$ref"])
    refine ⟨chain, { w' with stack := w'.stack.pop.2 }, ?_⟩
    rw [Walk.descend_entered hres (by simp [hw.checked]) hpush, Walk.check, he, Walk.leave]

/-- A ladder with more rungs than the stack has room for is refused as cyclic. -/
theorem validate_schema (g : Tree → List Violation) (r : Resolver)
    (hn : ResolutionStack.defaultDepth ≤ n) :
    ∃ chain, ((schema n).validate g disk r).1 = .error (.cyclic chain) := by
  have hup : Up n r 0 (Walk.start disk r (schema n)) :=
    { view := .refl _ _ _
      stack := by
        have : ResolutionKey.root disk file = ⟨file, ""⟩ := by decide +kernel
        exact congrArg (fun k => ResolutionStack.mk [k] ResolutionStack.defaultDepth) this
      checked := rfl }
  have hroot : (schema n).root = (node n 0).value := rfl
  obtain ⟨chain, w, he⟩ := through_rung (by unfold ResolutionStack.defaultDepth at hn; omega)
    (fun base w hw => climb (g := g) hn 63 rfl hw base) (hup.report [] (g (schema n).root)) []
  refine ⟨chain, ?_⟩
  have hrun : Walk.run g disk r (schema n) = (.error (.cyclic chain), w) := by
    rw [Walk.run, Walk.check, hroot]
    exact he
  rw [Schema.validate, hrun]

/-- A ladder one rung higher than the stack is refused as cyclic, though all references in it
resolve and none comes back. -/
theorem refused_without_cycle :
    (∃ chain, ((schema 64).validate draft07 disk .empty).1 = .error (.cyclic chain)) ∧
    (∀ a raw, (schema 64).Reaches disk .empty a → a.value.Refers raw →
      (∃ b, (((schema 64).resolver disk .empty).resolveIn disk raw a.key.file).1 = .ok b) ∧
      ¬ Circles disk ((schema 64).resolver disk .empty) raw a.key.file) ∧
    ∀ a b, (schema 64).Reaches disk .empty a →
      TransGen (Leads disk ((schema 64).resolver disk .empty)) a b → b.key ≠ a.key := by
  refine ⟨validate_schema draft07 .empty (by decide), fun a raw' ha hr => ?_,
    fun a b ha hab hk => ?_⟩
  · obtain ⟨k, rfl⟩ := reaches_node ha
    obtain ⟨hk, rfl⟩ := refers_rung.1 hr
    have hb : (((schema 64).resolver disk .empty).resolveIn disk (raw (k + 1)) file).1 =
      .ok (node 64 (k + 1)) := resolveIn_raw (by omega)
    exact ⟨⟨_, hb⟩, not_circles_of_resolves wellFormed_disk (isPlain_node 64 k) hb⟩
  · obtain ⟨k, rfl⟩ := reaches_node ha
    obtain ⟨j, hj, rfl⟩ := depth_lt hab
    have := key_injective hk
    omega

end Ladder

end Schemata
