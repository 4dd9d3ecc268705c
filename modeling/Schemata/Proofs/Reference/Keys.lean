import Mathlib.Data.List.Forall2
import Mathlib.Data.List.Induction
import Mathlib.Tactic.IntervalCases
import Schemata.Proofs.Tree.Writing
import Schemata.Proofs.Validation.Steps

/-!
# Pointers that name one node

A pointer can be spelled in several ways: with a tilde that stands alone in place of an escaped one,
or with a plus sign or zeros in front of an index. Each node has just one pointer without any of
this, and so keys that are spelled like that are equal whenever they are of one node. A node with
two keys counts as two.
-/

namespace Schemata

namespace Pointer

/-- Every tilde is the first character of an escape. -/
def isEscaped : List Char → Bool
  | '~' :: c :: rest => (c = '0' || c = '1') && isEscaped rest
  | c :: rest => c ≠ '~' && isEscaped rest
  | [] => true

theorem isEscaped_flatMap (ds : List Char) : isEscaped (ds.flatMap escapedChar) := by
  induction ds with
  | nil => rfl
  | cons c ds ih =>
    rw [List.flatMap_cons, escapedChar]
    split
    · exact ih
    split
    · exact ih
    · rename_i hc _
      rw [List.singleton_append, isEscaped]
      · simpa [hc] using ih
      · rintro c' rest he -
        exact hc he

theorem exists_of_isEscaped {cs : List Char} (h : isEscaped cs) (hs : '/' ∉ cs) :
    ∃ ds : List Char, cs = ds.flatMap escapedChar := by
  fun_induction isEscaped cs with
  | case1 c rest ih =>
    simp only [Bool.and_eq_true, Bool.or_eq_true, decide_eq_true_iff] at h
    obtain ⟨ds, rfl⟩ := ih h.2 fun hm => hs (by simp [hm])
    rcases h.1 with rfl | rfl
    · exact ⟨'~' :: ds, rfl⟩
    · exact ⟨'/' :: ds, rfl⟩
  | case2 c rest hpair ih =>
    simp only [Bool.and_eq_true, decide_eq_true_iff] at h
    obtain ⟨hc, hrest⟩ : '/' ≠ c ∧ '/' ∉ rest := by simpa using hs
    obtain ⟨ds, rfl⟩ := ih h.2 hrest
    exact ⟨c :: ds, by simp [escapedChar, h.1, hc.symm]⟩
  | case3 => exact ⟨[], rfl⟩

/-- A text between slashes is what a key is written as just in case its tildes are escapes. -/
theorem escape_unescape_iff {s : String} (hs : '/' ∉ s.toList) :
    escape (unescape s) = s ↔ isEscaped s.toList := by
  constructor
  · intro h
    rw [← h, escape, String.toList_ofList]
    exact isEscaped_flatMap _
  · intro h
    obtain ⟨ds, hd⟩ := exists_of_isEscaped h hs
    rw [unescape, escape, String.toList_ofList, hd, replaceTilde_flatMap, ← hd,
      String.ofList_toList]

def isDecimal (cs : List Char) : Bool :=
  cs.all Char.isDigit && (cs = ['0'] || cs ≠ [] && cs.head? ≠ some '0')

theorem exists_digitChar {c : Char} (h : c.isDigit) : ∃ k < 10, c = Nat.digitChar k := by
  obtain ⟨hle, hge⟩ := Char.isDigit_iff_toNat.1 h
  refine ⟨c.toNat - 48, by simp at hle hge; omega, ?_⟩
  rw [← Char.toNat_inj]
  simp at hle hge
  interval_cases c.toNat <;> rfl

theorem head?_toDigits {n : Nat} (h : 0 < n) : (Nat.toDigits 10 n).head? ≠ some '0' := by
  induction n using Nat.strongRecOn with
  | ind n ih =>
    rw [Nat.toDigits_eq_if (by decide)]
    split
    · rename_i hlt
      interval_cases n <;> decide
    · rw [List.head?_append, Option.or_of_isSome (by simp [Nat.toDigits_ne_nil])]
      exact ih (n / 10) (by omega) (by omega)

theorem toDigits_ofDigitChars {ds : List Char} (hd : ∀ c ∈ ds, c.isDigit) (hn : ds ≠ [])
    (hz : ds.head? ≠ some '0') : Nat.toDigits 10 (Nat.ofDigitChars 10 ds 0) = ds := by
  induction ds using List.reverseRecOn with
  | nil => exact absurd rfl hn
  | append_singleton ds c ih =>
    obtain ⟨k, hk, rfl⟩ := exists_digitChar (hd c (by simp))
    rw [Nat.ofDigitChars_append, Nat.ofDigitChars_cons_digitChar_of_lt_ten hk,
      Nat.ofDigitChars_nil]
    by_cases he : ds = []
    · subst he
      rw [Nat.ofDigitChars_nil, Nat.mul_zero, Nat.zero_add, Nat.toDigits_of_lt_base hk,
        List.nil_append]
    · rw [List.head?_append, Option.or_of_isSome (by simpa using he)] at hz
      have hds := ih (fun c hc => hd c (by simp [hc])) he hz
      have hpos : 0 < Nat.ofDigitChars 10 ds 0 := by
        -- otherwise the digits in front would be a lone zero
        refine Nat.pos_of_ne_zero fun h0 => hz ?_
        rw [h0, Nat.toDigits_zero] at hds
        rw [← hds, List.head?_cons]
      rw [← Nat.toDigits_append_toDigits (by decide) hpos hk, hds, Nat.toDigits_of_lt_base hk]

theorem isDecimal_toString (i : Nat) : isDecimal (toString i).toList := by
  rw [isDecimal, Bool.and_eq_true, List.all_eq_true]
  refine ⟨fun c hc => isDigit_toString hc, ?_⟩
  rw [Nat.toString_eq_ofList_toDigits, String.toList_ofList]
  rcases Nat.eq_zero_or_pos i with rfl | hpos
  · rfl
  · simp [head?_toDigits hpos, Nat.toDigits_ne_nil]

theorem toString_of_isDecimal {token : String} {i : Nat} (h : index? token = some i)
    (hd : isDecimal token.toList) : toString i = token := by
  obtain ⟨ds, hds, hne, hdigits, hvalue, -⟩ := index?_eq_some.1 h
  rw [isDecimal, Bool.and_eq_true, List.all_eq_true] at hd
  have hds : token.toList = ds := by
    refine hds.resolve_right fun hsign => ?_
    have hplus := hd.1 '+' (hsign ▸ List.mem_cons_self)
    cases hplus
  rw [hds] at hd
  rw [← String.toList_inj, Nat.toString_eq_ofList_toDigits, String.toList_ofList, hds, ← hvalue]
  rcases (by simpa using hd.2 : ds = ['0'] ∨ ds ≠ [] ∧ ds.head? ≠ some '0') with rfl | ⟨-, hz⟩
  · rfl
  · exact toDigits_ofDigitChars hdigits hne hz

end Pointer

namespace Step

open Pointer

def spells : Step → String → Bool
  | key _, piece => isEscaped piece.toList
  | index _, piece => isDecimal piece.toList

variable {piece : String}

theorem written_key_iff (hs : '/' ∉ piece.toList) :
    (key (unescape piece)).written = piece ↔ (key (unescape piece)).spells piece :=
  escape_unescape_iff hs

theorem written_index_iff {i : Nat} (h : index? (unescape piece) = some i) :
    (index i).written = piece ↔ (index i).spells piece := by
  rw [written_index, spells]
  refine ⟨fun he => he ▸ isDecimal_toString i, fun hd => ?_⟩
  have hdigits : ∀ c ∈ piece.toList, c.isDigit := by
    rw [isDecimal, Bool.and_eq_true, List.all_eq_true] at hd
    exact hd.1
  -- there is nothing to unescape among digits
  rw [← escape_of_isDigit hdigits, unescape_escape] at h
  exact toString_of_isDecimal h hd

end Step

namespace Pointer

open TreePath

/-- Every piece of a pointer is spelled as its step is written in the tree. -/
def Plain (pointer : String) (t : Tree) : Prop :=
  List.Forall₂ (fun s piece => s.spells piece) (ofPointer pointer t) (spelled pointer)

instance (pointer : String) (t : Tree) : Decidable (Plain pointer t) :=
  inferInstanceAs (Decidable (List.Forall₂ _ _ _))

variable {p q : String} {t u v : Tree}

/-- The steps that pieces are read as are written as these pieces if they are spelled like that. -/
theorem map_written_iff {ps : List String} (hs : ∀ s ∈ ps, '/' ∉ s.toList)
    (h : t.at? (ofTokens (ps.map unescape) (some t)) = some u) :
    (ofTokens (ps.map unescape) (some t)).map Step.written = ps ↔
      List.Forall₂ (fun s piece => s.spells piece) (ofTokens (ps.map unescape) (some t)) ps := by
  induction ps generalizing t with
  | nil => simp [ofTokens]
  | cons piece ps ih =>
    have hslash := hs piece List.mem_cons_self
    have ih {t : Tree} := ih (t := t) fun s hm => hs s (List.mem_cons_of_mem _ hm)
    rw [List.map_cons] at h ⊢
    cases t with
    | list items =>
      cases hi : index? (unescape piece) with
      | none => simp [ofTokens, Tree.at?, hi] at h
      | some i =>
        cases hv : items[i]? with
        | none => simp [ofTokens, Tree.at?, hi, hv] at h
        | some v =>
          simp only [ofTokens, Tree.at?, hi, hv, Option.bind_some] at h
          simp only [ofTokens, hi, hv, List.map_cons, List.cons.injEq, List.forall₂_cons,
            Step.written_index_iff hi, ih h]
    | mapping es =>
      cases hv : Entries.get? es (unescape piece) with
      | none => simp [ofTokens, Tree.at?, hv] at h
      | some v =>
        simp only [ofTokens, Tree.at?, hv, Option.bind_some] at h
        simp only [ofTokens, hv, List.map_cons, List.cons.injEq, List.forall₂_cons,
          Step.written_key_iff hslash, ih h]
    | null | bool | number | string => simp [ofTokens, Tree.at?] at h

/-- A pointer that names a node is what its path is written as just in case it is spelled plainly.
-/
theorem pointer_ofPointer_iff (h : resolve t p = .ok u) :
    (ofPointer p t).pointer = p ↔ Plain p t := by
  obtain ⟨hp, hu⟩ := resolve_eq_ok.1 h
  have written := map_written_iff (fun s => slash_notMem_spelled) hu
  refine Iff.trans ?_ written
  rw [← tokens_eq, ← ofPointer]
  constructor
  · intro he
    rw [← spelled_pointer, he]
  · intro he
    rw [pointer_eq, he, ofSpelled_spelled hp]

theorem index_lt_of_mem_ofPointer {i : Nat} (h : .index i ∈ ofPointer p t) : i < 2 ^ 64 := by
  rw [ofPointer] at h
  generalize tokens p = ts, some t = o at h
  fun_induction ofTokens ts o with
  | case1 => cases h
  | case2 token rest items j hj ih =>
    rcases List.mem_cons.1 h with he | h
    · cases he
      obtain ⟨_, _, _, _, _, hlt⟩ := index?_eq_some.1 hj
      exact hlt
    · exact ih h
  | case3 token rest items _ ih | case4 token rest es ih | case5 token rest t _ _ ih =>
    exact ih (by simpa using h)

/-- Pointers that are spelled plainly lead to different places unless they are equal, and so keys of
one file are equal if they are of one place. A pointer to a node that is spelled in any other way
is not the only one to its place. -/
theorem ofPointer_ne_of_plain (hp : resolve t p = .ok u) (hq : resolve t q = .ok v) :
    (Plain p t → Plain q t → (p ≠ q → ofPointer p t ≠ ofPointer q t) ∧
      ∀ k l : ResolutionKey, k.pointer = p → l.pointer = q → k.file.same l.file →
        ofPointer p t = ofPointer q t → k.same l) ∧
    (¬ Plain p t → ∃ p', p' ≠ p ∧ Plain p' t ∧ resolve t p' = .ok u ∧
      ofPointer p' t = ofPointer p t) := by
  constructor
  · intro plain plain'
    have one (he : ofPointer p t = ofPointer q t) : p = q := by
      rw [← (pointer_ofPointer_iff hp).2 plain, he, (pointer_ofPointer_iff hq).2 plain']
    refine ⟨fun hne he => hne (one he), ?_⟩
    rintro k l rfl rfl hf he
    rw [ResolutionKey.same, hf, one he]
    simp
  · intro hnot
    obtain ⟨-, hu⟩ := resolve_eq_ok.1 hp
    have small (i : Nat) (hi : .index i ∈ ofPointer p t) : i < 2 ^ 64 :=
      index_lt_of_mem_ofPointer hi
    have back := ofPointer_pointer small hu
    have there : t.at? (ofPointer (ofPointer p t).pointer t) = some u := by
      rw [back, hu]
    have hp' : resolve t (ofPointer p t).pointer = .ok u :=
      resolve_eq_ok.2 ⟨pointer_nil_or_slash (ofPointer p t), there⟩
    refine ⟨(ofPointer p t).pointer, fun he => hnot ((pointer_ofPointer_iff hp).1 he), ?_, hp', back⟩
    rw [← pointer_ofPointer_iff hp', back]

def Tilde.tree : Tree :=
  .mapping [("properties", .mapping [("x", .mapping [("$ref", .string "#/defs/a~b")]),
      ("y", .mapping [("$ref", .string "#/defs/a~0b")])]),
    ("defs", .mapping [("a~b", .mapping [("required", .list [.string "n"])])])]

theorem Tilde.told_apart : ∃ u v, resolve tree "/defs/a~0b" = .ok u ∧
    resolve tree "/defs/a~0b/required/0" = .ok v ∧ Plain "/defs/a~0b" tree ∧
    Plain "/defs/a~0b/required/0" tree ∧ "/defs/a~0b" ≠ "/defs/a~0b/required/0" ∧
    ofPointer "/defs/a~0b" tree ≠ ofPointer "/defs/a~0b/required/0" tree := by
  have hu : resolve tree "/defs/a~0b" = .ok (.mapping [("required", .list [.string "n"])]) := by
    decide +kernel
  have hv : resolve tree "/defs/a~0b/required/0" = .ok (.string "n") := by decide +kernel
  have plain : Plain "/defs/a~0b" tree := by decide +kernel
  have plain' : Plain "/defs/a~0b/required/0" tree := by decide +kernel
  have hne : "/defs/a~0b" ≠ "/defs/a~0b/required/0" := by decide
  exact ⟨_, _, hu, hv, plain, plain', hne, ((ofPointer_ne_of_plain hu hv).1 plain plain').1 hne⟩

def Tilde.schema : Schema := .ofTree ⟨"/a.json"⟩ ⟨"/"⟩ tree

def Tilde.violations : List Violation :=
  [⟨[.key "properties", .key "x", .key "$ref", .key "required", .index 0],
      "\"n\" is required but not declared in properties"⟩,
    ⟨[.key "properties", .key "y", .key "$ref", .key "required", .index 0],
      "\"n\" is required but not declared in properties"⟩]

/-- A node has two keys, and is checked under both. -/
theorem Tilde.checked_twice : "/defs/a~b" ≠ "/defs/a~0b" ∧
    ofPointer "/defs/a~b" tree = ofPointer "/defs/a~0b" tree ∧
    resolve tree "/defs/a~b" = .ok (.mapping [("required", .list [.string "n"])]) ∧
    resolve tree "/defs/a~0b" = .ok (.mapping [("required", .list [.string "n"])]) ∧
    (schema.validate (fun _ => []) ⟨[], []⟩ .empty).1 = .ok violations := by
  refine ⟨by decide, by decide +kernel, by decide +kernel, by decide +kernel, ?_⟩
  exact Schema.validate_eq_of_run (by decide +kernel) (by decide +kernel) (by decide +kernel)

end Pointer

end Schemata
