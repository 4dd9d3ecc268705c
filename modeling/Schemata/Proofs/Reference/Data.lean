import Schemata.Proofs.Reference.View
import Schemata.Proofs.Tree.Data

/-!
# References past data

`Applies` tells the course of a reference with the pointers that are applied on the way. Resolvers
whose documents differ only in their data follow a reference alike, as long as its pointers lead to
roots and definitions: the next reference is met at the same node, and what is kept on the way
differs only in the data again.
-/

namespace Schemata

namespace Resolver

/-- Following a reference through nodes not in `visited` applies the pointers one by one and ends
with the outcome. -/
inductive Applies (d : Disk) : Resolver → String → FilePath → List ResolutionKey → List String →
    Except LoadError Target × Resolver → Prop
  | astray {r raw origin visited e} (hk : keyOf r.idBase d raw origin = .error e) :
    Applies d r raw origin visited [] (.error (.unresolved raw origin e), r)
  | again {r raw origin visited key} (hk : keyOf r.idBase d raw origin = .ok key)
    (hv : unvisited visited key = false) :
    Applies d r raw origin visited [] (.error (.cyclic (visited ++ [key])), r)
  | unread {r raw origin visited key e} (hk : keyOf r.idBase d raw origin = .ok key)
    (hv : unvisited visited key = true) (ht : r.document d key.file = .error e) :
    Applies d r raw origin visited [] (.error (.unresolved raw origin (.notLoaded e)), r)
  | lost {r raw origin visited key t e} (hk : keyOf r.idBase d raw origin = .ok key)
    (hv : unvisited visited key = true) (ht : r.document d key.file = .ok t)
    (hu : Pointer.resolve t key.pointer = .error e) :
    Applies d r raw origin visited [key.pointer]
      (.error (.unresolved raw origin (.pointer e)), r.keep key.file t)
  | arrives {r raw origin visited key t u} (hk : keyOf r.idBase d raw origin = .ok key)
    (hv : unvisited visited key = true) (ht : r.document d key.file = .ok t)
    (hu : Pointer.resolve t key.pointer = .ok u) (hr : u.reference? = none) :
    Applies d r raw origin visited [key.pointer] (.ok ⟨key, u⟩, r.keep key.file t)
  | passes {r raw origin visited key t u raw' pointers o}
    (hk : keyOf r.idBase d raw origin = .ok key) (hv : unvisited visited key = true)
    (ht : r.document d key.file = .ok t) (hu : Pointer.resolve t key.pointer = .ok u)
    (hr : u.reference? = some raw')
    (next : Applies d (r.keep key.file t) raw' key.file (visited ++ [key]) pointers o) :
    Applies d r raw origin visited (key.pointer :: pointers) o

variable {d : Disk} {r r₀ : Resolver} {raw raw₀ : String} {origin origin₀ : FilePath}
  {visited : List ResolutionKey} {pointers pointers' : List String}
  {o o' : Except LoadError Target × Resolver}

theorem applies_follow (h : InReach r₀ d raw₀ origin₀ r raw origin) :
    ∃ pointers, Applies d r raw origin visited pointers
      (follow d r₀ raw₀ origin₀ r raw origin visited h) := by
  fun_induction follow d r₀ raw₀ origin₀ r raw origin visited h with
  | case1 r raw origin visited h e hk => exact ⟨_, .astray hk⟩
  | case2 r raw origin visited h key hk hv e ht => exact ⟨_, .unread hk hv ht⟩
  | case3 r raw origin visited h key hk hv t ht e hu => exact ⟨_, .lost hk hv ht hu⟩
  | case4 r raw origin visited h key hk hv t ht u hu hr => exact ⟨_, .arrives hk hv ht hu hr⟩
  | case5 r raw origin visited h key hk hv t ht u hu raw' hr ih =>
    obtain ⟨pointers, hnext⟩ := ih
    exact ⟨_, .passes hk hv ht hu hr hnext⟩
  | case6 r raw origin visited h key hk hv => exact ⟨_, .again hk (by simpa using hv)⟩

theorem applies_resolve (r : Resolver) (d : Disk) (raw : String) (stack : ResolutionStack) :
    ∃ pointers, Applies d r raw stack.currentFile [] pointers (r.resolve d raw stack) :=
  applies_follow _

theorem Applies.unique (h : Applies d r raw origin visited pointers o)
    (h' : Applies d r raw origin visited pointers' o') : pointers = pointers' ∧ o = o' := by
  -- the same rule applies to both at every node
  induction h generalizing pointers' <;> cases h' <;> grind

/-- All pointers applied to follow a reference lead to roots and definitions. -/
def StaysLocal (r : Resolver) (d : Disk) (raw : String) (origin : FilePath) : Prop :=
  ∀ pointers o, Applies d r raw origin [] pointers o → ∀ p ∈ pointers, Pointer.IsLocal p

end Resolver

def Target.withoutData (a : Target) : Target := { a with value := a.value.withoutData }

/-- Pointers to roots and definitions lead to the same schema but for data. -/
theorem Pointer.resolve_congr {t t' : Tree} {pointer : String} (hp : IsLocal pointer)
    (h : t.withoutData = t'.withoutData) :
    (resolve t pointer).map Tree.withoutData = (resolve t' pointer).map Tree.withoutData := by
  rw [← resolve_withoutData hp, h, resolve_withoutData hp]

theorem exists_ok_of_map_eq {ε α β : Type} {f : α → β} {x y : Except ε α} {a : α}
    (h : x.map f = y.map f) (hx : x = .ok a) : ∃ b, y = .ok b ∧ f a = f b := by
  subst hx
  cases y with
  | error e => cases h
  | ok b => exact ⟨b, rfl, Except.ok.inj h⟩

theorem eq_error_of_map_eq {ε α β : Type} {f : α → β} {x y : Except ε α} {e : ε}
    (h : x.map f = y.map f) (hx : x = .error e) : y = .error e := by
  subst hx
  cases y with
  | error e' =>
    cases h
    rfl
  | ok b => cases h

namespace Resolver

variable {d : Disk} {r r' : Resolver} {raw : String} {origin file : FilePath}
  {visited : List ResolutionKey} {pointers : List String} {t t' : Tree}
  {o : Except LoadError Target × Resolver}

def withoutData (r : Resolver) : Resolver :=
  { r with cache := r.cache.map fun e => (e.1, e.2.withoutData) }

theorem idBase_of_withoutData_eq (h : r.withoutData = r'.withoutData) : r.idBase = r'.idBase :=
  (Resolver.mk.inj h).2

theorem cached?_withoutData (r : Resolver) (file : FilePath) :
    r.withoutData.cached? file = (r.cached? file).map Tree.withoutData := by
  simp only [cached?, withoutData, List.find?_map, Option.map_map]
  rfl

theorem put_withoutData (r : Resolver) (file : FilePath) (t : Tree) :
    (r.put file t).withoutData = r.withoutData.put file t.withoutData := by
  have hany : (r.withoutData.cache.any fun e => e.1.same file) =
      r.cache.any fun e => e.1.same file := by
    simp only [withoutData, List.any_map]
    rfl
  rw [put, put, hany]
  by_cases h : r.cache.any fun e => e.1.same file
  · rw [if_pos h, if_pos h]
    simp only [withoutData, List.map_map, mk.injEq, and_true]
    refine List.map_congr_left fun e _ => ?_
    simp only [Function.comp_apply]
    split <;> rfl
  · rw [if_neg h, if_neg h]
    simp only [withoutData, List.map_append, List.map_cons, List.map_nil]

theorem keep_withoutData (r : Resolver) (file : FilePath) (t : Tree) :
    (r.keep file t).withoutData = r.withoutData.keep file t.withoutData := by
  rw [keep, keep, cached?_withoutData, Option.isSome_map]
  split
  · rfl
  · exact put_withoutData r file t

theorem put_withoutData_congr (h : r.withoutData = r'.withoutData)
    (ht : t.withoutData = t'.withoutData) :
    (r.put file t).withoutData = (r'.put file t').withoutData := by
  rw [put_withoutData, put_withoutData, h, ht]

theorem keep_withoutData_congr (h : r.withoutData = r'.withoutData)
    (ht : t.withoutData = t'.withoutData) :
    (r.keep file t).withoutData = (r'.keep file t').withoutData := by
  rw [keep_withoutData, keep_withoutData, h, ht]

theorem document_withoutData (h : r.withoutData = r'.withoutData) (d : Disk) (file : FilePath) :
    (r.document d file).map Tree.withoutData = (r'.document d file).map Tree.withoutData := by
  have hc : (r.cached? file).map Tree.withoutData = (r'.cached? file).map Tree.withoutData := by
    rw [← cached?_withoutData, ← cached?_withoutData, h]
  unfold document
  cases hr : r.cached? file with
  | none =>
    rw [hr, Option.map_none, eq_comm, Option.map_eq_none_iff] at hc
    rw [hc]
  | some t =>
    rw [hr, Option.map_some, eq_comm, Option.map_eq_some_iff] at hc
    obtain ⟨t', ht', he⟩ := hc
    rw [ht']
    exact congrArg Except.ok he.symm

def outcomeWithoutData (o : Except LoadError Target × Resolver) :
    Except LoadError Target × Resolver :=
  (o.1.map Target.withoutData, o.2.withoutData)

/-- Documents that differ only in their data give a reference the same course. -/
theorem Applies.withoutData (h : Applies d r raw origin visited pointers o)
    (hr : r.withoutData = r'.withoutData) (hp : ∀ p ∈ pointers, Pointer.IsLocal p) :
    ∃ o', Applies d r' raw origin visited pointers o' ∧
      outcomeWithoutData o = outcomeWithoutData o' := by
  induction h generalizing r' with
  | astray hk =>
    rw [idBase_of_withoutData_eq hr] at hk
    exact ⟨_, .astray hk, Prod.ext rfl hr⟩
  | again hk hv =>
    rw [idBase_of_withoutData_eq hr] at hk
    exact ⟨_, .again hk hv, Prod.ext rfl hr⟩
  | unread hk hv ht =>
    rw [idBase_of_withoutData_eq hr] at hk
    have ht' := eq_error_of_map_eq (document_withoutData hr d _) ht
    exact ⟨_, .unread hk hv ht', Prod.ext rfl hr⟩
  | lost hk hv ht hu =>
    rw [idBase_of_withoutData_eq hr] at hk
    obtain ⟨t', ht', htt⟩ := exists_ok_of_map_eq (document_withoutData hr d _) ht
    have hu' := eq_error_of_map_eq (Pointer.resolve_congr (hp _ List.mem_cons_self) htt) hu
    exact ⟨_, .lost hk hv ht' hu', Prod.ext rfl (keep_withoutData_congr hr htt)⟩
  | arrives hk hv ht hu hn =>
    rw [idBase_of_withoutData_eq hr] at hk
    obtain ⟨t', ht', htt⟩ := exists_ok_of_map_eq (document_withoutData hr d _) ht
    have hlocal := Pointer.resolve_congr (hp _ List.mem_cons_self) htt
    obtain ⟨u', hu', huu⟩ := exists_ok_of_map_eq hlocal hu
    rw [Tree.reference?_congr huu] at hn
    refine ⟨_, .arrives hk hv ht' hu' hn, Prod.ext ?_ (keep_withoutData_congr hr htt)⟩
    exact congrArg (fun u => Except.ok (Target.mk _ u)) huu
  | passes hk hv ht hu hn next ih =>
    rw [idBase_of_withoutData_eq hr] at hk
    obtain ⟨t', ht', htt⟩ := exists_ok_of_map_eq (document_withoutData hr d _) ht
    have hlocal := Pointer.resolve_congr (hp _ List.mem_cons_self) htt
    obtain ⟨u', hu', huu⟩ := exists_ok_of_map_eq hlocal hu
    rw [Tree.reference?_congr huu] at hn
    obtain ⟨o', ho', hoo⟩ := ih (keep_withoutData_congr hr htt)
      fun p hp' => hp p (List.mem_cons_of_mem _ hp')
    exact ⟨o', .passes hk hv ht' hu' hn ho', hoo⟩

/-- Resolvers with the same documents but for data fail alike or lead to the same schema but for
data, as long as the pointers lead to roots and definitions. -/
theorem resolve_withoutData {stack : ResolutionStack} (hr : r.withoutData = r'.withoutData)
    (hp : r.StaysLocal d raw stack.currentFile) :
    ∃ q q', q.withoutData = q'.withoutData ∧
      ((∃ e, r.resolve d raw stack = (.error e, q) ∧ r'.resolve d raw stack = (.error e, q')) ∨
        ∃ key u u', u.withoutData = u'.withoutData ∧ r.resolve d raw stack = (.ok ⟨key, u⟩, q) ∧
          r'.resolve d raw stack = (.ok ⟨key, u'⟩, q')) := by
  obtain ⟨pointers, h⟩ := applies_resolve r d raw stack
  obtain ⟨pointers', h'⟩ := applies_resolve r' d raw stack
  obtain ⟨o', ho', hoo⟩ := h.withoutData hr (hp pointers _ h)
  rw [(ho'.unique h').2] at hoo
  obtain ⟨hout, hkept⟩ := Prod.mk.inj hoo
  refine ⟨_, _, hkept, ?_⟩
  rcases hres : r.resolve d raw stack with ⟨e | ⟨key, u⟩, q⟩ <;> rw [hres] at hout
  · have he := eq_error_of_map_eq hout rfl
    exact .inl ⟨e, rfl, Prod.ext he rfl⟩
  · obtain ⟨⟨key', u'⟩, ha, hau⟩ := exists_ok_of_map_eq hout rfl
    obtain ⟨rfl, hu⟩ := Target.mk.inj hau
    exact .inr ⟨key, u, u', hu, rfl, Prod.ext ha rfl⟩

end Resolver

end Schemata
