import Mathlib.Tactic.Common
import Schemata.Json.Reader
import Schemata.Proofs.Text.Numerals
import Schemata.Tree.Text

/-!
# Scalars written as JSON

Words, strings and decimals are read back from their compact text, whatever stands behind them;
behind a decimal there has to stand something that cannot belong to it. Only what is left to read
matters here, and not the place where it begins.
-/

namespace Schemata.Json

/-- Reading takes the text off what stands behind it and gives the value. -/
def Takes {α : Type} (read : Cursor → Except Error (α × Cursor)) (text : List Char) (x : α)
    (rest : List Char) : Prop :=
  ∀ place, ∃ place', read ⟨text ++ rest, place⟩ = .ok (x, ⟨rest, place'⟩)

def Stops (rest : List Char) : Prop :=
  ∀ c ∈ rest.head?, isDigit c = false ∧ c ≠ '.' ∧ c ≠ 'e' ∧ c ≠ 'E'

variable {c : Char} {cs ds rest taken : List Char} {fuel n : Nat} {place : Place} {t : Tree}

theorem stops_cons (hc : c = ',' ∨ c = ']' ∨ c = '\x7d' ∨ Cursor.isSpace c) (rest : List Char) :
    Stops (c :: rest) := by
  intro x hx
  cases Option.mem_some.1 hx
  rcases hc with rfl | rfl | rfl | hspace
  · decide
  · decide
  · decide
  · simp only [Cursor.isSpace, Bool.or_eq_true, decide_eq_true_eq] at hspace
    rcases hspace with ((rfl | rfl) | rfl) | rfl <;> decide

theorem skip_append (cs rest : List Char) (place : Place) :
    ∃ place', (Cursor.mk (cs ++ rest) place).skip cs.length = ⟨rest, place'⟩ := by
  induction cs generalizing place with
  | nil => exact ⟨place, rfl⟩
  | cons c cs ih => exact ih _

theorem skipSpace_append (hspace : cs.all Cursor.isSpace) (rest : List Char)
    (hrest : ∀ c ∈ rest.head?, Cursor.isSpace c = false) (place : Place) :
    ∃ place', (Cursor.mk (cs ++ rest) place).skipSpace = ⟨rest, place'⟩ := by
  induction cs generalizing place with
  | nil =>
    refine ⟨place, ?_⟩
    cases rest with
    | nil => rfl
    | cons c rest => exact if_neg (by simp [hrest c rfl])
  | cons c cs ih =>
    rw [List.all_cons, Bool.and_eq_true] at hspace
    obtain ⟨place', h⟩ := ih hspace.2 (Cursor.Place.after place c)
    exact ⟨place', (if_pos hspace.1).trans h⟩

theorem skipSpace_of_not (hc : Cursor.isSpace c = false) (rest : List Char) (place : Place) :
    (Cursor.mk (c :: rest) place).skipSpace = ⟨c :: rest, place⟩ := by
  rw [Cursor.skipSpace, Cursor.skipSpace.go, hc]
  rfl

theorem readWord_append (cs rest : List Char) (place : Place) :
    ∃ place', readWord ⟨cs ++ rest, place⟩ cs = .ok ⟨rest, place'⟩ := by
  induction cs generalizing place with
  | nil => exact ⟨place, rfl⟩
  | cons c cs ih =>
    obtain ⟨place', h⟩ := ih (Cursor.Place.after place c)
    refine ⟨place', ?_⟩
    rw [readWord]
    exact (if_pos rfl).trans h

theorem hexValue?_hexDigit {d : Nat} (h : d < 16) : hexValue? (hexDigit d) = some d := by
  have digits : ∀ d < 16, hexValue? (hexDigit d) = some d := by decide
  exact digits d h

theorem readUnit_hexDigits (h : n < 256) (rest : List Char) (place : Place) :
    ∃ place', readUnit ⟨'0' :: '0' :: hexDigit (n / 16) :: hexDigit (n % 16) :: rest, place⟩ =
      .ok (n, ⟨rest, place'⟩) := by
  have hhigh := hexValue?_hexDigit (d := n / 16) (by omega)
  have hlow := hexValue?_hexDigit (d := n % 16) (by omega)
  have hzero : hexValue? '0' = some 0 := rfl
  have hunit : ((0 * 16 + 0) * 16 + n / 16) * 16 + n % 16 = n := by omega
  obtain ⟨place', hskip⟩ := skip_append ['0', '0', hexDigit (n / 16), hexDigit (n % 16)] rest place
  refine ⟨place', ?_⟩
  simp only [readUnit, hzero, hhigh, hlow, hunit]
  exact congrArg (fun c => Except.ok (n, c)) hskip

/-- A control character is read back from its code. -/
theorem readCode_hexDigits (h : c.toNat < 32) (rest : List Char) (place : Place) :
    ∃ place', readCode .keep
      ⟨'0' :: '0' :: hexDigit (c.toNat / 16) :: hexDigit (c.toNat % 16) :: rest, place⟩ =
        .ok (c, ⟨rest, place'⟩) := by
  obtain ⟨place', hunit⟩ := readUnit_hexDigits (show c.toNat < 256 by omega) rest place
  have hlow : ¬ (0xDC00 ≤ c.toNat ∧ c.toNat ≤ 0xDFFF) := by omega
  have hhigh : c.toNat < 0xD800 ∨ 0xDBFF < c.toNat := by omega
  refine ⟨place', ?_⟩
  rw [readCode, hunit]
  change (if 0xDC00 ≤ c.toNat ∧ c.toNat ≤ 0xDFFF then _ else if _ then _ else _) = _
  rw [if_neg hlow, if_pos hhigh, Char.ofNat_toNat]
  rfl

theorem readChars_escapedChar (c : Char) (fuel : Nat) (rest taken : List Char) (place : Place) :
    ∃ place', readChars .keep (fuel + 1) ⟨escapedChar c ++ rest, place⟩ taken =
      readChars .keep fuel ⟨rest, place'⟩ (c :: taken) := by
  have hcode (n : Nat) (h : c.toNat = n) : c = Char.ofNat n := by rw [← h, Char.ofNat_toNat]
  unfold escapedChar
  -- the five characters with a name, the two known by their codes, the other controls, and the rest
  iterate 5
    split
    · subst c
      exact ⟨_, rfl⟩
  split
  · rename_i h
    rw [hcode 8 h]
    exact ⟨_, rfl⟩
  split
  · rename_i h
    rw [hcode 12 h]
    exact ⟨_, rfl⟩
  split
  · rename_i h
    obtain ⟨place', hread⟩ := readCode_hexDigits h rest
      (Cursor.Place.after (Cursor.Place.after place '\\') 'u')
    refine ⟨place', ?_⟩
    change (readCode .keep ⟨'0' :: '0' :: hexDigit (c.toNat / 16) :: hexDigit (c.toNat % 16) :: rest,
      Cursor.Place.after (Cursor.Place.after place '\\') 'u'⟩
        >>= fun p => readChars .keep fuel p.2 (p.1 :: taken)) = _
    rw [hread]
    rfl
  · rename_i hquote hslash _ _ _ _ _ hcontrol
    refine ⟨Cursor.Place.after place c, ?_⟩
    rw [List.singleton_append, readChars]
    simp only [if_neg hquote, if_neg hslash, if_neg hcontrol]
    rfl

theorem readChars_quoted (cs : List Char) (hfuel : cs.length < fuel) (rest taken : List Char)
    (place : Place) :
    ∃ place', readChars .keep fuel ⟨cs.flatMap escapedChar ++ '"' :: rest, place⟩ taken =
      .ok (String.ofList (taken.reverse ++ cs), ⟨rest, place'⟩) := by
  induction cs generalizing fuel place taken with
  | nil =>
    obtain ⟨fuel, rfl⟩ := Nat.exists_eq_succ_of_ne_zero (Nat.ne_of_gt hfuel)
    exact ⟨_, by rw [List.append_nil]; rfl⟩
  | cons c cs ih =>
    obtain ⟨fuel, rfl⟩ := Nat.exists_eq_succ_of_ne_zero (Nat.ne_of_gt (Nat.zero_lt_of_lt hfuel))
    obtain ⟨place₁, hstep⟩ := readChars_escapedChar c fuel
      (cs.flatMap escapedChar ++ '"' :: rest) taken place
    obtain ⟨place₂, hrest⟩ := ih (Nat.lt_of_succ_lt_succ hfuel) (c :: taken) place₁
    refine ⟨place₂, ?_⟩
    rw [List.flatMap_cons, List.append_assoc, hstep, hrest, List.reverse_cons, List.append_assoc]
    rfl

theorem length_le_length_escaped (cs : List Char) : cs.length ≤ (cs.flatMap escapedChar).length := by
  induction cs with
  | nil => exact Nat.zero_le _
  | cons c cs ih =>
    have hc : 1 ≤ (escapedChar c).length := by
      unfold escapedChar
      iterate 8
        split
        · simp
      simp
    rw [List.flatMap_cons, List.length_append, List.length_cons]
    omega

theorem takes_readString (s : String) (rest : List Char) :
    Takes (readString .keep) (s.toList.flatMap escapedChar ++ ['"']) s rest := by
  intro place
  have hfuel : s.toList.length <
      (Cursor.mk (s.toList.flatMap escapedChar ++ '"' :: rest) place).rest.length + 1 := by
    have := length_le_length_escaped s.toList
    simp only [List.length_append, List.length_cons]
    omega
  obtain ⟨place', hread⟩ := readChars_quoted s.toList hfuel rest [] place
  refine ⟨place', ?_⟩
  rw [List.append_assoc, List.singleton_append, readString, hread, List.reverse_nil,
    List.nil_append, String.ofList_toList]

theorem isDigit_of_mem_toDigits (h : c ∈ Nat.toDigits 10 n) : isDigit c := by
  obtain ⟨d, hd, rfl⟩ := exists_of_mem_toDigits (by decide) h
  have digits : ∀ d < 10, isDigit (Nat.digitChar d) := by decide
  exact digits d hd

/-- Only zero begins with the digit zero. -/
theorem eq_zero_of_toDigits (h : Nat.toDigits 10 n = '0' :: ds) : n = 0 ∧ ds = [] := by
  induction n using Nat.strongRecOn generalizing ds with
  | ind n ih =>
    rw [Nat.toDigits_eq_if (by decide)] at h
    split at h
    · rename_i hn
      have digits : ∀ d < 10, Nat.digitChar d = '0' → d = 0 := by decide
      rw [List.cons.injEq] at h
      exact ⟨digits n hn h.1, h.2.symm⟩
    · rename_i hn
      obtain ⟨d, more, hmore⟩ :=
        List.exists_cons_of_ne_nil (Nat.toDigits_ne_nil (b := 10) (n := n / 10))
      rw [hmore, List.cons_append, List.cons.injEq] at h
      rw [h.1] at hmore
      have := (ih (n / 10) (by omega) hmore).1
      omega

theorem le_ofDigitChars (ds : List Char) (m : Nat) : m ≤ Nat.ofDigitChars 10 ds m := by
  induction ds generalizing m with
  | nil => exact Nat.le_refl m
  | cons d ds ih =>
    rw [Nat.ofDigitChars_cons]
    exact Nat.le_trans (by omega) (ih _)

/-- A number of 64 bits keeps all its digits. -/
theorem absorb_eq {m : Nat} (h : Nat.ofDigitChars 10 ds m < Nat.pow 2 64) :
    absorb m ds = (Nat.ofDigitChars 10 ds m, 0) := by
  induction ds generalizing m with
  | nil => rfl
  | cons d ds ih =>
    rw [Nat.ofDigitChars_cons] at h ⊢
    have hmore : m * 10 + digitValue d = 10 * m + (d.toNat - '0'.toNat) := by
      rw [digitValue, Nat.mul_comm]
    have hlt : 10 * m + (d.toNat - '0'.toNat) < Nat.pow 2 64 :=
      Nat.lt_of_le_of_lt (le_ofDigitChars ds _) h
    rw [absorb, hmore, if_pos hlt, ih h]

theorem takes_readNumber (hn : n < Nat.pow 2 64) (hrest : Stops rest) :
    Takes (readNumber .keep · false) (Nat.toDigits 10 n) (.int n) rest := by
  have hvalue : absorb 0 (Nat.toDigits 10 n) = (n, 0) := by
    have hdigits : Nat.ofDigitChars 10 (Nat.toDigits 10 n) 0 = n := Nat.ofDigitChars_ten_toDigits
    rw [absorb_eq (by rwa [hdigits]), hdigits]
  have hall (d : Char) (hd : d ∈ Nat.toDigits 10 n) : isDigit d := isDigit_of_mem_toDigits hd
  have hstop : rest.takeWhile isDigit = [] := by
    cases rest with
    | nil => rfl
    | cons c rest => exact List.takeWhile_cons_of_neg (by simp [(hrest c rfl).1])
  intro place
  obtain ⟨x, xs, hx⟩ := List.exists_cons_of_ne_nil (Nat.toDigits_ne_nil (b := 10) (n := n))
  have hdigits : (if x = '0' then ['0'] else (x :: xs ++ rest).takeWhile isDigit) = x :: xs := by
    split
    · rename_i hzero
      rw [hzero] at hx ⊢
      rw [(eq_zero_of_toDigits hx).2]
    · rw [← hx, List.takeWhile_append_of_pos hall, hstop, List.append_nil]
  obtain ⟨place', hafter⟩ := skip_append (x :: xs) rest place
  refine ⟨place', ?_⟩
  rw [hx] at hvalue hall ⊢
  have hfirst : isDigit x := hall x List.mem_cons_self
  have hpeek : (Cursor.mk (x :: xs ++ rest) place).peek? = some x := rfl
  have hbehind : (Cursor.mk rest place').peek? = rest.head? := rfl
  change readNumber .keep ⟨x :: xs ++ rest, place⟩ false = _
  unfold readNumber
  simp only [hpeek, hfirst, Bool.not_true, Bool.false_eq_true, if_false, hdigits, hafter, hvalue,
    startsExponent, hbehind]
  cases rest with
  | nil => simp
  | cons c rest =>
    obtain ⟨hdigit, hpoint, hsmall, hcapital⟩ := hrest c rfl
    simp [hdigit, hpoint, hsmall, hcapital]

/-- The values that are read back wherever the next field or the end of a record follows. -/
inductive Scalar : Tree → Prop where
  | null : Scalar .null
  | bool (b : Bool) : Scalar (.bool b)
  | count {n : Nat} (hn : n < Nat.pow 2 64) : Scalar (.int n)
  | string (s : String) : Scalar (.string s)

theorem toList_quoted (s : String) :
    (quoted s).toList = '"' :: (s.toList.flatMap escapedChar ++ ['"']) := by
  simp only [quoted, String.toList_append, String.toList_ofList]
  rfl

theorem toList_compact_int (n : Nat) : (Tree.int n).compact.toList = Nat.toDigits 10 n := by
  change (toString n).toList = _
  rw [Nat.toString_eq_ofList_toDigits, String.toList_ofList]

theorem readOpening_of_isDigit (hc : isDigit c) (rest : List Char) (place : Place) :
    readOpening .keep (Cursor.mk (c :: rest) place).skipSpace =
      readNumber .keep ⟨c :: rest, place⟩ false >>= fun p => .ok (.scalar (.number p.1), p.2) := by
  have hne {d : Char} (hd : isDigit d = false) : c ≠ d := by
    rintro rfl
    rw [hd] at hc
    cases hc
  have hspace : Cursor.isSpace c = false := by
    simp [Cursor.isSpace, hne (show isDigit ' ' = false from rfl),
      hne (show isDigit '\n' = false from rfl), hne (show isDigit '\t' = false from rfl),
      hne (show isDigit '\r' = false from rfl)]
  rw [skipSpace_of_not hspace]
  change (if c = 'n' then _ else if c = 't' then _ else if c = 'f' then _ else if c = '-' then _ else
    if isDigit c then _ else _) = _
  rw [if_neg (hne rfl), if_neg (hne rfl), if_neg (hne rfl), if_neg (hne rfl), if_pos hc]
  rfl

theorem takes_readOpening (ht : Scalar t) (hrest : Stops rest) :
    Takes (fun cur => readOpening .keep cur.skipSpace) t.compact.toList (.scalar t) rest := by
  intro place
  cases ht with
  | null =>
    obtain ⟨place', h⟩ := readWord_append ['u', 'l', 'l'] rest (Cursor.Place.after place 'n')
    exact ⟨place', congrArg (· >>= fun after => Except.ok (Opening.scalar .null, after)) h⟩
  | bool b =>
    cases b with
    | true =>
      obtain ⟨place', h⟩ :=
        readWord_append ['r', 'u', 'e'] rest (Cursor.Place.after place 't')
      exact ⟨place', congrArg (· >>= fun after => Except.ok (Opening.scalar (.bool true), after)) h⟩
    | false =>
      obtain ⟨place', h⟩ :=
        readWord_append ['a', 'l', 's', 'e'] rest (Cursor.Place.after place 'f')
      exact ⟨place', congrArg (· >>= fun after => Except.ok (Opening.scalar (.bool false), after)) h⟩
  | @count n hn =>
    obtain ⟨d, ds, hds⟩ := List.exists_cons_of_ne_nil (Nat.toDigits_ne_nil (b := 10) (n := n))
    have hd : isDigit d := isDigit_of_mem_toDigits (hds ▸ List.mem_cons_self)
    obtain ⟨place', h⟩ := takes_readNumber hn hrest place
    refine ⟨place', ?_⟩
    rw [hds] at h
    rw [toList_compact_int, hds]
    refine (readOpening_of_isDigit hd (ds ++ rest) place).trans ?_
    exact congrArg (· >>= fun p => Except.ok (Opening.scalar (.number p.1), p.2)) h
  | string s =>
    obtain ⟨place', h⟩ := takes_readString s rest (Cursor.Place.after place '"')
    refine ⟨place', ?_⟩
    rw [Tree.compact, toList_quoted]
    exact congrArg (· >>= fun p => Except.ok (Opening.scalar (.string p.1), p.2)) h

end Schemata.Json
