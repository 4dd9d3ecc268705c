import Mathlib.Data.String.Basic

/-!
# Texts and their bytes

A character with a greater code point has greater bytes: they differ in the first byte if it has
more of them, and else where its code point does. Therefore texts are ordered as their bytes are.
-/

namespace Schemata

def bytesOf (s : String) : List UInt8 := s.toUTF8.data.toList

theorem bytesOf_eq (s : String) : bytesOf s = s.toList.flatMap String.utf8EncodeChar := by
  have hbytes : s.toUTF8 = s.toList.utf8Encode := String.utf8Encode_toList.symm
  rw [bytesOf, hbytes, List.utf8Encode, List.data_toByteArray]

variable {m n : Nat} {xs ys : List UInt8} {c d : Char} {cs ds : List Char} {s t : String}

theorem lt_of_first_lt (h : m < n) (hn : n < 256) (xs ys : List UInt8) :
    UInt8.ofNat m :: xs < UInt8.ofNat n :: ys := by
  refine List.cons_lt_cons_iff.2 (.inl (UInt8.lt_iff_toNat_lt.2 ?_))
  rwa [UInt8.toNat_ofNat_of_lt' (h.trans hn), UInt8.toNat_ofNat_of_lt' hn]

/-- Bytes are compared by those behind only where the first are equal. -/
theorem lt_of_first_le (h : m ≤ n) (hn : n < 256) (hrest : m = n → xs < ys) :
    UInt8.ofNat m :: xs < UInt8.ofNat n :: ys := by
  rcases Nat.lt_or_eq_of_le h with hlt | rfl
  · exact lt_of_first_lt hlt hn xs ys
  · exact List.cons_lt_cons_iff.2 (.inr ⟨rfl, hrest rfl⟩)

/-- Whatever follows, a greater character has greater bytes. -/
theorem utf8EncodeChar_append_lt (h : c < d) (xs ys : List UInt8) :
    String.utf8EncodeChar c ++ xs < String.utf8EncodeChar d ++ ys := by
  have hlt : c.val.toNat < d.val.toNat := UInt32.lt_iff_toNat_lt.1 (Char.lt_def.1 h)
  have hmax : d.val.toNat < 0x110000 := by
    rcases d.valid with hd | ⟨-, hd⟩
    · exact hd.trans (by decide)
    · exact hd
  simp only [String.utf8EncodeChar]
  generalize c.val.toNat = m at hlt ⊢
  generalize d.val.toNat = n at hlt hmax ⊢
  -- by the length of the first character, then by that of the second, which is no shorter
  split
  · split
    · exact lt_of_first_lt hlt (by omega) _ _
    split
    · exact lt_of_first_lt (by omega) (by omega) _ _
    split
    · exact lt_of_first_lt (by omega) (by omega) _ _
    · exact lt_of_first_lt (by omega) (by omega) _ _
  rw [if_neg (show ¬ n ≤ 127 by omega)]
  split
  · split
    · exact lt_of_first_le (by omega) (by omega) fun _ => lt_of_first_lt (by omega) (by omega) _ _
    split
    · exact lt_of_first_lt (by omega) (by omega) _ _
    · exact lt_of_first_lt (by omega) (by omega) _ _
  rw [if_neg (show ¬ n ≤ 2047 by omega)]
  split
  · split
    · exact lt_of_first_le (by omega) (by omega) fun _ => lt_of_first_le (by omega) (by omega)
        fun _ => lt_of_first_lt (by omega) (by omega) _ _
    · exact lt_of_first_lt (by omega) (by omega) _ _
  rw [if_neg (show ¬ n ≤ 65535 by omega)]
  exact lt_of_first_le (by omega) (by omega) fun _ => lt_of_first_le (by omega) (by omega)
    fun _ => lt_of_first_le (by omega) (by omega) fun _ => lt_of_first_lt (by omega) (by omega) _ _

theorem flatMap_utf8EncodeChar_lt (h : cs < ds) :
    cs.flatMap String.utf8EncodeChar < ds.flatMap String.utf8EncodeChar := by
  induction cs generalizing ds with
  | nil =>
    cases ds with
    | nil => exact absurd h (List.lt_irrefl _)
    | cons d ds =>
      have hd : String.utf8EncodeChar d ≠ [] := by
        intro hn
        exact absurd (d.utf8Size_pos) (by simp [← String.length_utf8EncodeChar, hn])
      obtain ⟨byte, bytes, hbytes⟩ := List.exists_cons_of_ne_nil hd
      rw [List.flatMap_nil, List.flatMap_cons, hbytes]
      exact List.nil_lt_cons byte _
  | cons c cs ih =>
    cases ds with
    | nil => cases h
    | cons d ds =>
      rw [List.flatMap_cons, List.flatMap_cons]
      rcases List.cons_lt_cons_iff.1 h with hlt | ⟨rfl, hrest⟩
      · exact utf8EncodeChar_append_lt hlt _ _
      · exact List.append_left_lt (ih hrest)

theorem bytesOf_lt_iff : bytesOf s < bytesOf t ↔ s < t := by
  rw [bytesOf_eq, bytesOf_eq, String.lt_iff_toList_lt]
  refine ⟨fun h => ?_, flatMap_utf8EncodeChar_lt⟩
  by_contra hn
  rcases lt_trichotomy s.toList t.toList with hlt | heq | hgt
  · exact hn hlt
  · rw [heq] at h
    exact List.lt_irrefl _ h
  · exact List.lt_asymm h (flatMap_utf8EncodeChar_lt hgt)

end Schemata
