import Schemata.Json.Record
import Schemata.Proofs.Json.Trees

/-!
# Records written as JSON

A tree conforms to a layout if it has fields of the layout only, each once and with a value of its
kind. Such a record is read back from its compact text, and so is a record of records.
-/

namespace Schemata

/-- The fields of the tree are fields of the layout, each once and with a value that fits. -/
def RecordLayout.Conforms {κ : Type} (layout : RecordLayout κ) (fits : κ → Tree → Prop) (t : Tree) :
    Prop :=
  ∃ es : Entries, t = .mapping es ∧ es.keys.Nodup ∧
    ∀ e ∈ es, ∃ kind, layout.fields.lookup e.1 = some kind ∧ fits kind e.2

namespace Json

variable {κ : Type} {layout : RecordLayout κ} {fits : κ → Tree → Prop} {t : Tree} {c : Char}
  {rest : List Char}

theorem scalar_of_admits {kind : FieldKind} (h : kind.admits t) : Scalar t := by
  cases t with
  | null => exact .null
  | bool b => exact .bool b
  | string s => exact .string s
  | number n =>
    cases n with
    | int n =>
      cases kind with
      | count =>
        have hmax : Number.maxInt = ((Nat.pow 2 64 - 1 : Nat) : Int) := by decide
        simp only [FieldKind.admits, Bool.and_eq_true, decide_eq_true_eq, hmax] at h
        obtain ⟨n, rfl⟩ := Int.eq_ofNat_of_zero_le h.1
        have hpos : 0 < Nat.pow 2 64 := by decide
        exact .count (by omega)
      | _ => cases h
    | float x => cases kind <;> cases h
  | list ts => cases kind <;> cases h
  | mapping es => cases kind <;> cases h

theorem readField_of_admits {kind : FieldKind} {cur after : Cursor} (h : kind.admits t)
    (hkind : ∀ names, kind ≠ .choice names)
    (hopening : readOpening .keep cur.skipSpace = .ok (.scalar t, after)) :
    readField kind cur = .ok (t, after) := by
  have admitted (x : Except Error (Tree × Cursor)) :
      (if kind.admits t then .ok (t, after) else x) = .ok (t, after) := if_pos h
  cases kind with
  | choice names => exact absurd rfl (hkind names)
  | count =>
    cases t with
    | number n =>
      cases n with
      | int n =>
        have hn : ¬ n < 0 := by
          simp only [FieldKind.admits, Bool.and_eq_true, decide_eq_true_eq] at h
          omega
        unfold readField
        simp only [hopening]
        exact if_neg hn
      | float x => cases h
    | _ => cases h
  | _ =>
    unfold readField
    simp only [hopening]
    exact admitted _

/-- Whatever fits is read back where the next field or the end of a record follows. -/
def ReadsBack (readValueOf : κ → Cursor → Except Error (Tree × Cursor)) (fits : κ → Tree → Prop) :
    Prop :=
  ∀ ⦃kind t rest⦄, fits kind t → Stops rest → Takes (readValueOf kind) t.compact.toList t rest

theorem readsBack_readField : ReadsBack readField fun kind t => kind.admits t := by
  intro kind t rest h hrest place
  cases kind with
  | choice names =>
    cases t with
    | string s =>
      obtain ⟨place', hread⟩ := takes_readString s rest (Cursor.Place.after place '"')
      have hname : ofChoice names s ⟨rest, place'⟩ = .ok (.string s, ⟨rest, place'⟩) :=
        if_pos h
      refine ⟨place', ?_⟩
      rw [Tree.compact, toList_quoted]
      refine (congrArg (· >>= fun p => ofChoice names p.1 p.2) hread).trans ?_
      exact hname
    | _ => cases h
  | _ =>
    obtain ⟨place', hopening⟩ := takes_readOpening (scalar_of_admits h) hrest place
    exact ⟨place', readField_of_admits h (fun names he => by cases he) hopening⟩

def entryTexts (es : Entries) : List (List Char) :=
  es.map fun e => Spacing.none.entry e.1 e.2.compact.toList

variable {readValueOf : κ → Cursor → Except Error (Tree × Cursor)} {done es : Entries} {key : String}
  {first : Bool} {fuel : Nat} {kind : κ}

theorem readNamedFields_succ {cur₀ cur₁ cur₂ cur₃ cur₄ : Cursor}
    (hentry : afterEntry cur₀ first .keep = .ok (true, cur₁))
    (hkey : readString .keep cur₁ = .ok (key, cur₂)) (hkind : layout.fields.lookup key = some kind)
    (hnew : (done.get? key).isSome = false) (hcolon : readColon cur₂ = .ok cur₃)
    (hvalue : readValueOf kind cur₃ = .ok (t, cur₄)) :
    readNamedFields layout readValueOf (fuel + 1) cur₀ first done =
      readNamedFields layout readValueOf fuel cur₄ false (done ++ [(key, t)]) := by
  simp only [readNamedFields, hentry, hkey, hkind, hnew, hcolon, hvalue, bind, Except.bind, if_true,
    Bool.false_eq_true, if_false]

theorem takes_readNamedFields (hread : ReadsBack readValueOf fits) (done : Entries) (first : Bool)
    (hkeys : (done ++ es).keys.Nodup)
    (hfits : ∀ e ∈ es, ∃ kind, layout.fields.lookup e.1 = some kind ∧ fits kind e.2)
    (hfuel : (Spacing.none.members 0 '\x7d' first (entryTexts es)).length ≤ fuel)
    (rest : List Char) :
    Takes (readNamedFields layout readValueOf fuel · first done)
      (Spacing.none.members 0 '\x7d' first (entryTexts es)) (.mapping (done ++ es)) rest := by
  induction es generalizing done first fuel with
  | nil =>
    intro place
    have hpos := Spacing.none.length_members_pos 0 '\x7d' first (entryTexts [])
    obtain ⟨fuel, rfl⟩ := Nat.exists_eq_succ_of_ne_zero (show fuel ≠ 0 by omega)
    obtain ⟨place', h⟩ := Spacing.none.afterEntry_closing 0 first rest place
    refine ⟨place', ?_⟩
    rw [List.append_nil, entryTexts, List.map_nil]
    simp only [readNamedFields, h]
    rfl
  | cons e es ih =>
    intro place
    obtain ⟨key, t⟩ := e
    obtain ⟨kind, hkind, ht⟩ := hfits (key, t) List.mem_cons_self
    have hnew : (done.get? key).isSome = false := by
      cases h : done.get? key with
      | none => rfl
      | some u =>
        have hmem : key ∈ done.keys := List.mem_map_of_mem (Entries.mem_of_get? h)
        rw [Entries.keys, List.map_append] at hkeys
        exact absurd rfl ((List.nodup_append.1 hkeys).2.2 key hmem key List.mem_cons_self)
    rw [List.append_cons] at hkeys ⊢
    have hlength := Spacing.none.length_members 0 '\x7d' first
      (Spacing.none.entry key t.compact.toList) (entryTexts es)
    have hpos : 0 < (Spacing.none.entry key t.compact.toList).length := by
      simp only [Spacing.entry, List.length_append, List.length_cons]
      omega
    have hcons : entryTexts ((key, t) :: es) =
        Spacing.none.entry key t.compact.toList :: entryTexts es := rfl
    rw [hcons] at hfuel ⊢
    obtain ⟨fuel, rfl⟩ := Nat.exists_eq_succ_of_ne_zero (show fuel ≠ 0 by omega)
    obtain ⟨place₁, hentry⟩ := Spacing.none.afterEntry_member 0 first key t.compact.toList
      (entryTexts es) rest place
    obtain ⟨place₂, hkey⟩ := takes_readString key _ place₁
    obtain ⟨place₃, hvalue⟩ :=
      hread ht (Spacing.none.stops_members 0 (.inr rfl) (entryTexts es) rest)
      (Cursor.Place.after place₂ ':')
    have hless : (Spacing.none.members 0 '\x7d' false (entryTexts es)).length ≤ fuel := by omega
    obtain ⟨place₄, hrest⟩ := ih (done ++ [(key, t)]) false hkeys
      (fun e he => hfits e (List.mem_cons_of_mem _ he)) hless place₃
    exact ⟨place₄, (readNamedFields_succ hentry hkey hkind hnew rfl hvalue).trans hrest⟩

theorem takes_readRecord (hread : ReadsBack readValueOf fits) (ht : layout.Conforms fits t)
    (rest : List Char) : Takes (readRecord layout readValueOf) t.compact.toList t rest := by
  obtain ⟨es, rfl, hkeys, hfits⟩ := ht
  intro place
  have htext : (Tree.mapping es).compact.toList =
      '\x7b' :: Spacing.none.members 0 '\x7d' true (entryTexts es) :=
    Spacing.spaces_compact.mapping (d := 0)
  have hfuel : (Spacing.none.members 0 '\x7d' true (entryTexts es)).length ≤
      (Spacing.none.members 0 '\x7d' true (entryTexts es) ++ rest).length + 1 := by
    rw [List.length_append]
    omega
  obtain ⟨place', hfields⟩ := takes_readNamedFields hread [] true hkeys hfits hfuel rest
    (Cursor.Place.after place '\x7b')
  refine ⟨place', ?_⟩
  rw [htext]
  exact hfields

/-- A record of records is read back from its compact text. -/
theorem readSections_compact {layout : RecordLayout (RecordLayout FieldKind)}
    (ht : layout.Conforms (fun inner => inner.Conforms fun kind t => kind.admits t) t) :
    readSections layout t.compact = .ok t := by
  have hsections : ReadsBack (fun inner => readRecord inner readField)
      (fun inner => inner.Conforms fun kind t => kind.admits t) := by
    intro inner u rest hu _
    exact takes_readRecord readsBack_readField hu rest
  obtain ⟨place, hread⟩ := takes_readRecord hsections ht [] ⟨1, 0⟩
  rw [List.append_nil] at hread
  rw [readSections, Cursor.ofText, hread]
  rfl

end Json

end Schemata
