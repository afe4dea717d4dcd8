import MdxPages.Json.Reader
import MdxPages.Json.Writer
import MdxPages.Proofs.Value

/-!
# Proofs/Json/Scalar — what is written as a string or a whole number is read back

A string reads back whatever its characters (`readString_stringText`), and a whole number reads back
wherever no character follows that could go on with it, unless it has too many digits
(`readScalar_toString`).
-/

namespace MdxPages.Json

variable {rest : List Char} {n : Nat}

/-! ## Strings

Each character is written in one of three ways: as it is, behind a backslash, or by its number.  The
reader undoes them one by one. -/

/-- A control character has a number of two hexadecimal digits, which are written with two zeros in
front. -/
theorem hexDigits_four (hn : n < 32) :
    Text.hexDigits 4 n = ['0', '0', (n / 16).digitChar, (n % 16).digitChar] := by
  have h : ∀ n < 32,
      Text.hexDigits 4 n = ['0', '0', (n / 16).digitChar, (n % 16).digitChar] := by
    decide
  exact h n hn

/-- A control character is written by its number in four hexadecimal digits. -/
theorem readString_unitEscape (hn : n < 32) (rest : List Char) :
    readString none (unitEscape n ++ rest) = prepend [Char.ofNat n] (readString none rest) := by
  have hunit : ∀ n < 32, unit? '0' '0' (n / 16).digitChar (n % 16).digitChar = some n := by decide
  have hlow : ¬ (0xD800 ≤ n ∧ n < 0xDC00) := by omega
  have hhigh : ¬ (0xDC00 ≤ n ∧ n < 0xE000) := by omega
  simp only [unitEscape, hexDigits_four hn, List.cons_append, List.nil_append]
  rw [readString, hunit n hn]
  simp only [if_neg hlow, if_neg hhigh]

/-- A character is read from what is written for it. -/
theorem readString_charText (c : Char) (rest : List Char) :
    readString none (charText false c ++ rest) = prepend [c] (readString none rest) := by
  unfold charText
  split
  · next h => subst h; rfl
  split
  · next h => subst h; rfl
  split
  · next h => subst h; rfl
  split
  · next h => subst h; rfl
  split
  · next h => subst h; rfl
  split
  · next h => subst h; rfl
  split
  · next h => subst h; rfl
  split
  · next h => rw [readString_unitEscape h, Char.ofNat_toNat]
  · next hquote hslash _ _ _ _ _ hcontrol =>
    simp only [Bool.false_and, Bool.false_eq_true, if_false, List.singleton_append]
    rw [readString]
    · simp [hcontrol, loneHalf]
    all_goals simp_all

/-- **A string is read back**, up to its closing quote. -/
theorem readString_flatMap (cs rest : List Char) :
    readString none (cs.flatMap (charText false) ++ '"' :: rest) = some (cs, rest) := by
  induction cs with
  | nil => rfl
  | cons c cs ih =>
    rw [List.flatMap_cons, List.append_assoc, readString_charText, ih]
    rfl

/-- A string is written between quotes, character by character. -/
theorem stringText_append (k : String) (rest : List Char) :
    stringText false k ++ rest = '"' :: (k.toList.flatMap (charText false) ++ '"' :: rest) := by
  simp [stringText]

/-! ## Whole numbers

A number is read as far as its digits go, so what follows matters as well: a point or an exponent
would make it a fraction. -/

/-- What may stand after a number: no character that goes on with it. -/
def EndsNumber (rest : List Char) : Prop :=
  ∀ c ∈ rest.head?, c.isDigit = false ∧ c ≠ '.' ∧ c ≠ 'e' ∧ c ≠ 'E'

/-- Digits are taken up to what ends the number. -/
theorem takeDigits_append {ds : List Char} (hds : ∀ c ∈ ds, c.isDigit = true)
    (hrest : EndsNumber rest) :
    takeDigits (ds ++ rest) = (ds.map fun c => c.toNat - 48, rest) := by
  have hstop : rest.takeWhile Char.isDigit = [] ∧ rest.dropWhile Char.isDigit = rest := by
    cases rest with
    | nil => exact ⟨rfl, rfl⟩
    | cons c rest =>
      have hc := (hrest c rfl).1
      simp [hc]
  rw [takeDigits, List.takeWhile_append_of_pos hds, List.dropWhile_append_of_pos hds, hstop.1,
    hstop.2, List.append_nil]

/-- A number that ends there has no fraction. -/
theorem readFraction_eq_none (hrest : EndsNumber rest) : readFraction rest = (none, rest) := by
  unfold readFraction
  split
  · exact absurd rfl (hrest '.' rfl).2.1
  · rfl

/-- Nor has it an exponent. -/
theorem readExponent_eq_none (hrest : EndsNumber rest) : readExponent rest = (none, rest) := by
  unfold readExponent
  split
  · next c tail =>
    obtain ⟨-, -, hlower, hupper⟩ := hrest c rfl
    rw [if_neg (not_or.2 ⟨hlower, hupper⟩)]
  · rfl

theorem takeDigits_toDigits (n : Nat) (hrest : EndsNumber rest) :
    takeDigits (Nat.toDigits 10 n ++ rest) =
      ((Nat.toDigits 10 n).map fun c => c.toNat - 48, rest) :=
  takeDigits_append (fun _ hc => Nat.isDigit_of_mem_toDigits (by decide) (by decide) hc) hrest

/-- Where a number starts with a zero, it is zero. -/
theorem takeDigits_of_zero {tail : List Char} (hrest : EndsNumber rest)
    (h : Nat.toDigits 10 n ++ rest = '0' :: tail) :
    takeDigits (Nat.toDigits 10 n ++ rest) = ([0], tail) := by
  obtain ⟨c, cs, hcs, -⟩ := Number.exists_toDigits_eq_cons n
  have hhead : c = '0' := by
    rw [hcs] at h
    exact (List.cons.inj h).1
  obtain rfl : n = 0 := Number.eq_zero_of_toDigits_eq_cons (hhead ▸ hcs)
  obtain rfl : rest = tail := (List.cons.inj h).2
  exact takeDigits_toDigits 0 hrest

/-- The digits of a number are read as that number, unless there are too many. -/
theorem readNumber_toDigits (negative : Bool) (n : Nat) (hrest : EndsNumber rest) :
    readNumber negative (Nat.toDigits 10 n ++ rest) =
      if (Nat.toDigits 10 n).length ≤ Number.maxDigits then
        .ok (.int (if negative then -(n : Int) else n), rest)
      else .error (.fault .tooManyDigits) := by
  have hempty : ((Nat.toDigits 10 n).map fun c => c.toNat - 48).isEmpty = false := by
    simp [Nat.toDigits_ne_nil]
  unfold readNumber
  split
  next whole rest' htaken =>
  have hwhole : (whole, rest') = ((Nat.toDigits 10 n).map fun c => c.toNat - 48, rest) := by
    rw [← takeDigits_toDigits n hrest, ← htaken]
    split
    · next h => exact (takeDigits_of_zero hrest h).symm
    · rfl
  obtain ⟨rfl, rfl⟩ := Prod.mk.inj hwhole
  simp only [hempty, readFraction_eq_none hrest, readExponent_eq_none hrest, Option.isNone_none,
    Bool.and_self, Bool.false_eq_true, if_true, if_false, List.length_map,
    Number.ofDigits_toDigits]
  by_cases h : (Nat.toDigits 10 n).length ≤ Number.maxDigits
  · rw [if_neg (Nat.not_lt.2 h), if_pos h]
  · rw [if_pos (Nat.lt_of_not_le h), if_neg h]

/-- No word starts with a digit, nor with a sign before one. -/
theorem readWord?_digit {c : Char} {cs : List Char} (hc : c.isDigit = true) :
    readWord? (c :: cs) = none ∧ readWord? ('-' :: c :: cs) = none := by
  have hne (d : Char) (hd : d.isDigit = false) : d ≠ c := by
    rintro rfl
    rw [hc] at hd
    cases hd
  simp [readWord?, afterWord?, List.isPrefixOf, hne]

/-- What starts with a digit is a number. -/
theorem readScalar_digit {c : Char} (cs : List Char) (hc : c.isDigit = true) :
    readScalar (c :: cs) = (readNumber false (c :: cs)).map fun (n, rest) => (.num n, rest) := by
  unfold readScalar
  rw [(readWord?_digit hc).1]
  dsimp only
  split
  · next heq =>
    rw [(List.cons.inj heq).1] at hc
    exact absurd hc (by decide)
  · rfl

/-- So is what starts with a sign before a digit. -/
theorem readScalar_minus {c : Char} (cs : List Char) (hc : c.isDigit = true) :
    readScalar ('-' :: c :: cs) =
      (readNumber true (c :: cs)).map fun (n, rest) => (.num n, rest) := by
  unfold readScalar
  rw [(readWord?_digit hc).2]
  rfl

theorem toList_toString_negSucc (n : Nat) :
    (toString (Int.negSucc n)).toList = '-' :: Nat.toDigits 10 (n + 1) := by
  change ("-" ++ (n + 1).repr).toList = _
  rw [String.toList_append, Nat.toList_repr]
  rfl

/-- **A whole number is read back**, unless it has too many digits to be read. -/
theorem readScalar_toString (i : Int) (hrest : EndsNumber rest) :
    readScalar ((toString i).toList ++ rest) =
      if (Nat.toDigits 10 i.natAbs).length ≤ Number.maxDigits then .ok (.int i, rest)
      else .error (.fault .tooManyDigits) := by
  obtain ⟨c, cs, hcs, hdigit⟩ := Number.exists_toDigits_eq_cons i.natAbs
  have hnumber (negative : Bool) := readNumber_toDigits negative i.natAbs hrest
  rw [hcs, List.cons_append] at hnumber
  cases i with
  | ofNat n =>
    have htext : (toString (Int.ofNat n)).toList = c :: cs := Nat.toList_repr.trans hcs
    rw [htext, List.cons_append, readScalar_digit _ hdigit, hnumber, hcs]
    split <;> rfl
  | negSucc n =>
    have htext : (toString (Int.negSucc n)).toList = '-' :: c :: cs := by
      rw [toList_toString_negSucc, ← hcs]
      rfl
    rw [htext, List.cons_append, List.cons_append, readScalar_minus _ hdigit, hnumber, hcs]
    split <;> rfl

/-- A whole number starts with a digit or a sign. -/
theorem exists_toString_eq_cons (i : Int) :
    ∃ c cs, (toString i).toList = c :: cs ∧ (c = '-' ∨ c.isDigit = true) := by
  cases i with
  | ofNat n =>
    obtain ⟨c, cs, hcs, hdigit⟩ := Number.exists_toDigits_eq_cons n
    exact ⟨c, cs, Nat.toList_repr.trans hcs, .inr hdigit⟩
  | negSucc n => exact ⟨'-', _, toList_toString_negSucc n, .inl rfl⟩

end MdxPages.Json
