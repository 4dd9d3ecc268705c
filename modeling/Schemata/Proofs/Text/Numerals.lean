import Mathlib.Data.List.Basic
import Schemata.Number.Basic

/-!
# The characters of numbers

A number is written with digits, signs, a point and a few letters, in whatever format, and its text
is never empty.
-/

namespace Schemata

variable {a b : String}

theorem exists_of_mem_toDigits {base n : Nat} (hbase : 1 < base) {c : Char}
    (h : c ∈ Nat.toDigits base n) : ∃ d < base, c = Nat.digitChar d := by
  induction n using Nat.strongRecOn with
  | ind n ih =>
    rw [Nat.toDigits_eq_if hbase] at h
    by_cases hn : n < base
    · rw [if_pos hn, List.mem_singleton] at h
      exact ⟨n, hn, h⟩
    · rw [if_neg hn, List.mem_append, List.mem_singleton] at h
      rcases h with h | h
      · exact ih (n / base) (Nat.div_lt_self (by omega) hbase) h
      · exact ⟨n % base, Nat.mod_lt n (by omega), h⟩

theorem ne_of_mem_toDigits {n : Nat} {c d : Char} (hc : c ∈ Nat.toDigits 10 n)
    (hd : d.isDigit = false) :
    c ≠ d := by
  rintro rfl
  rw [Nat.isDigit_of_mem_toDigits (by decide) (by decide) hc] at hd
  cases hd

/-- A decimal ends where its digits do. -/
theorem toDigits_inj {n m : Nat} {c d : Char} {x y : List Char} (hc : c.isDigit = false)
    (hd : d.isDigit = false) (h : Nat.toDigits 10 n ++ c :: x = Nat.toDigits 10 m ++ d :: y) :
    n = m ∧ c :: x = d :: y := by
  have hall (n : Nat) : ∀ c ∈ Nat.toDigits 10 n, c.isDigit :=
    fun c => Nat.isDigit_of_mem_toDigits (by decide) (by decide)
  have htake := congrArg (List.takeWhile Char.isDigit) h
  rw [List.takeWhile_append_of_pos (hall n), List.takeWhile_append_of_pos (hall m),
    List.takeWhile_cons_of_neg (by simp [hc]), List.takeWhile_cons_of_neg (by simp [hd]),
    List.append_nil, List.append_nil] at htake
  rw [htake, List.append_cancel_left_eq] at h
  have hvalue := congrArg (Nat.ofDigitChars 10 · 0) htake
  simp only [Nat.ofDigitChars_ten_toDigits] at hvalue
  exact ⟨hvalue, h⟩

def numerals : String := "0123456789+-.aefin"

def isNumeral (c : Char) : Bool := numerals.toList.contains c

/-- A text of such characters only. -/
def AllNumeral (s : String) : Prop := ∀ c ∈ s.toList, isNumeral c

instance (s : String) : Decidable (AllNumeral s) :=
  List.decidableBAll (fun c => isNumeral c) s.toList

/-- What holds of each of the characters holds of those of a number. -/
theorem AllNumeral.forall {p : Char → Prop} (h : AllNumeral a)
    (hp : ∀ c ∈ numerals.toList, p c) : ∀ c ∈ a.toList, p c :=
  fun c hc => hp c (List.contains_iff_mem.1 (h c hc))

theorem AllNumeral.append (ha : AllNumeral a) (hb : AllNumeral b) : AllNumeral (a ++ b) := by
  intro c hc
  rw [String.toList_append, List.mem_append] at hc
  exact hc.elim (ha c) (hb c)

theorem allNumeral_toDigits (n : Nat) : ∀ c ∈ Nat.toDigits 10 n, isNumeral c := by
  intro c hc
  obtain ⟨d, hd, rfl⟩ := exists_of_mem_toDigits (by decide) hc
  have hdigits : ∀ d < 10, isNumeral (Nat.digitChar d) := by decide
  exact hdigits d hd

theorem allNumeral_toString (n : Nat) : AllNumeral (toString n) := by
  intro c hc
  rw [Nat.toString_eq_ofList_toDigits, String.toList_ofList] at hc
  exact allNumeral_toDigits n c hc

theorem allNumeral_int (n : Int) : AllNumeral (toString n) := by
  cases n with
  | ofNat n => exact allNumeral_toString n
  | negSucc n =>
    have hsign : AllNumeral "-" := by decide
    exact hsign.append (allNumeral_toString (n + 1))

theorem allNumeral_digitChars (x : Decimal) : ∀ c ∈ x.digitChars, isNumeral c := by
  intro c hc
  unfold Decimal.digitChars at hc
  simp only at hc
  split at hc
  · rw [List.mem_singleton] at hc
    rw [hc]
    decide
  · rw [List.mem_reverse] at hc
    exact allNumeral_toDigits x.digits c (List.mem_reverse.1 ((List.dropWhile_suffix _).subset hc))

theorem allNumeral_positionalText {ds : List Char} (h : ∀ c ∈ ds, isNumeral c) (lead : Int) :
    AllNumeral (Decimal.positionalText ds lead) := by
  have hzeros (n : Nat) : ∀ c ∈ List.replicate n '0', isNumeral c := by
    intro c hc
    rw [List.eq_of_mem_replicate hc]
    decide
  have hlist {cs : List Char} (hcs : ∀ c ∈ cs, isNumeral c) : AllNumeral (String.ofList cs) := by
    rwa [AllNumeral, String.toList_ofList]
  have hstart : AllNumeral "0." := by decide
  have hend : AllNumeral ".0" := by decide
  have hpoint : AllNumeral "." := by decide
  simp only [Decimal.positionalText]
  split
  · exact hstart.append (hlist (List.forall_mem_append.2 ⟨hzeros _, h⟩))
  split
  · exact (hlist (List.forall_mem_append.2 ⟨h, hzeros _⟩)).append hend
  · exact ((hlist fun c hc => h c (List.mem_of_mem_take hc)).append hpoint).append
      (hlist fun c hc => h c (List.mem_of_mem_drop hc))

theorem allNumeral_exponentText {ds : List Char} (h : ∀ c ∈ ds, isNumeral c) (plus : Bool)
    (lead : Int) :
    AllNumeral (Decimal.exponentText plus ds lead) := by
  have hhead : AllNumeral (String.ofList (ds.take 1)) := by
    rw [AllNumeral, String.toList_ofList]
    exact fun c hc => h c (List.mem_of_mem_take hc)
  have htail : AllNumeral (String.ofList (ds.drop 1)) := by
    rw [AllNumeral, String.toList_ofList]
    exact fun c hc => h c (List.mem_of_mem_drop hc)
  have hpoint : AllNumeral "." := by decide
  have hmark : AllNumeral "e" := by decide
  have hsign : AllNumeral (if lead < 0 then "-" else if plus then "+" else "") := by
    split
    · decide
    · cases plus <;> decide
  simp only [Decimal.exponentText]
  split
  · exact ((hhead.append hmark).append hsign).append (allNumeral_toString _)
  · exact ((((hhead.append hpoint).append htail).append hmark).append hsign).append
      (allNumeral_toString _)

theorem allNumeral_number (f : FloatFormat) (n : Number) : AllNumeral (n.text f) := by
  cases n with
  | int n => exact allNumeral_int n
  | float x =>
    have hsign : AllNumeral (if x.isNegative then "-" else "") := by
      cases x.isNegative <;> decide
    have hnan : AllNumeral ".nan" := by decide
    have hinf : AllNumeral ".inf" := by decide
    have hzero : AllNumeral "0.0" := by decide
    have hdigits := allNumeral_digitChars x.shortest
    simp only [Number.text, Binary64.text]
    split
    · exact hnan
    split
    · exact hsign.append hinf
    split
    · exact hsign.append hzero
    · apply hsign.append
      simp only [Decimal.text]
      split
      · exact allNumeral_positionalText hdigits _
      · exact allNumeral_exponentText hdigits _ _

theorem append_ne_empty (h : b ≠ "") (a : String) : a ++ b ≠ "" := by
  intro he
  exact h (String.append_eq_empty_iff.1 he).2

theorem decimal_ne_empty (f : FloatFormat) (x : Decimal) : x.text f ≠ "" := by
  simp only [Decimal.text, Decimal.positionalText, Decimal.exponentText]
  split
  · split
    · intro he
      exact absurd (String.append_eq_empty_iff.1 he).1 (by decide)
    split
    · exact append_ne_empty (by decide) _
    · intro he
      exact append_ne_empty (by decide) _ (String.append_eq_empty_iff.1 he).1
  · exact append_ne_empty Nat.repr_ne_empty _

theorem number_ne_empty (f : FloatFormat) (n : Number) : n.text f ≠ "" := by
  cases n with
  | int n =>
    cases n with
    | ofNat n => exact Nat.repr_ne_empty
    | negSucc n => exact append_ne_empty Nat.repr_ne_empty "-"
  | float x =>
    simp only [Number.text, Binary64.text]
    split
    · decide
    split
    · exact append_ne_empty (by decide) _
    split
    · exact append_ne_empty (by decide) _
    · exact append_ne_empty (decimal_ne_empty f _) _

end Schemata
