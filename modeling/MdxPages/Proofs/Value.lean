import MdxPages.Number.Reading
import MdxPages.Value.Basic

/-!
# Proofs/Value — numbers, and the scalars of a value

The digits of a whole number, read one by one, give back the number (`ofDigits_toDigits`), and the
numbers that can be written are those with no more digits than can be read (`writable_iff_length`).
A property of values that holds of each scalar in a value (`Value.Scalars`) holds of its fields.
A value that counts as given has a text, unless it is a foreign scalar that is shown as nothing
(`Value.text_ne_empty`).
-/

namespace MdxPages

namespace Number

/-- A whole number that can be written: it has no more digits than can be read. -/
def Writable (i : Int) : Prop :=
  i.natAbs < leastTooLong

/-- A whole number is writable as a number exactly if it is `Writable`. -/
theorem isWritable_int {i : Int} : (int i).isWritable = true ↔ Writable i := by
  rw [isWritable, decide_eq_true_iff, Writable]

/-- The least number that is too long cannot be written. -/
theorem not_writable_leastTooLong : ¬ Writable leastTooLong := by
  rw [Writable, Int.natAbs_natCast]
  exact Nat.lt_irrefl _

/-- A number of few digits can be written. -/
theorem writable_of_lt {i : Int} (h : i.natAbs < 10000000000) : Writable i := by
  have hten (digits : Nat) (hdigits : 10 ≤ digits) : 10000000000 ≤ Nat.pow 10 digits :=
    Nat.pow_le_pow_right (n := 10) (by decide) hdigits
  unfold Writable leastTooLong
  exact Nat.lt_of_lt_of_le h (hten maxDigits (by decide))

/-- Whole numbers are compared as integers. -/
theorem compare_int (i j : Int) : (int i).compare (int j) = some (Ord.compare i j) := by
  change some (Ord.compare (i * (1 : Nat)) (j * (1 : Nat))) = _
  simp

theorem le_int (i j : Int) : (int i).le (int j) = decide (i ≤ j) := by
  rw [le, compare_int, Bool.eq_iff_iff, decide_eq_true_iff, ← Int.isLE_compare]
  cases Ord.compare i j <;> simp

theorem lt_int (i j : Int) : (int i).lt (int j) = decide (i < j) := by
  rw [lt, compare_int, Bool.eq_iff_iff, decide_eq_true_iff, ← Int.compare_eq_lt]
  cases Ord.compare i j <;> simp

theorem minFirst_int (i j : Int) : (int i).minFirst (int j) = int (min i j) := by
  rw [minFirst, lt_int]
  by_cases h : j < i
  · simp [h, Int.min_eq_right (Int.le_of_lt h)]
  · simp [h, Int.min_eq_left (Int.not_lt.1 h)]

theorem maxFirst_int (i j : Int) : (int i).maxFirst (int j) = int (max i j) := by
  rw [maxFirst, lt_int]
  by_cases h : i < j
  · simp [h, Int.max_eq_right (Int.le_of_lt h)]
  · simp [h, Int.max_eq_left (Int.not_lt.1 h)]

/-! ## Digits

A number is written digit by digit, with no zero in front unless it is zero. -/

theorem ofDigits_map (cs : List Char) :
    ofDigits (cs.map fun c => c.toNat - 48) = Nat.ofDigitChars 10 cs 0 := by
  rw [ofDigits, List.foldl_map]
  rfl

/-- The digits of a number give the number back. -/
theorem ofDigits_toDigits (n : Nat) :
    ofDigits ((Nat.toDigits 10 n).map fun c => c.toNat - 48) = n := by
  rw [ofDigits_map, Nat.ofDigitChars_ten_toDigits]

/-- A number has a first digit. -/
theorem exists_toDigits_eq_cons (n : Nat) :
    ∃ c cs, Nat.toDigits 10 n = c :: cs ∧ c.isDigit = true := by
  obtain ⟨c, cs, hcs⟩ := List.exists_cons_of_ne_nil (Nat.toDigits_ne_nil (n := n) (b := 10))
  exact ⟨c, cs, hcs,
    Nat.isDigit_of_mem_toDigits (n := n) (by decide) (by decide) (hcs ▸ List.mem_cons_self)⟩

theorem eq_zero_of_toDigits_eq_cons {n : Nat} {cs : List Char}
    (h : Nat.toDigits 10 n = '0' :: cs) : n = 0 := by
  induction n using Nat.strongRecOn generalizing cs with
  | ind n ih =>
    by_cases hn : n < 10
    · rw [Nat.toDigits_of_lt_base hn] at h
      have hdigit : n.digitChar = '0' := (List.cons.inj h).1
      have hzero : ∀ d < 10, d.digitChar = '0' → d = 0 := by decide
      exact hzero n hn hdigit
    · rw [Nat.toDigits_of_base_le (by decide) (by omega)] at h
      obtain ⟨d, ds, hds, -⟩ := exists_toDigits_eq_cons (n / 10)
      rw [hds, List.cons_append] at h
      have hquotient : n / 10 = 0 :=
        ih (n / 10) (by omega) (hds.trans (by rw [(List.cons.inj h).1]))
      omega

/-- **The numbers that can be written** are those that have no more digits than can be read. -/
theorem writable_iff_length (i : Int) :
    Writable i ↔ (Nat.toDigits 10 i.natAbs).length ≤ maxDigits := by
  have hpos : 0 < maxDigits := by decide
  unfold Writable leastTooLong
  generalize maxDigits = k at hpos
  exact (Nat.length_toDigits_le_iff (by decide) hpos).symm

end Number

namespace Value

mutual

/-- Every scalar in a value has a property. -/
def Scalars (p : Value → Prop) : Value → Prop
  | arr items => ScalarsEach p items
  | obj fields => ScalarsIn p fields
  | v => p v

/-- Every scalar in the items of a list has a property. -/
def ScalarsEach (p : Value → Prop) : List Value → Prop
  | [] => True
  | v :: vs => Scalars p v ∧ ScalarsEach p vs

/-- Every scalar in the fields of an object has a property. -/
def ScalarsIn (p : Value → Prop) : List (String × Value) → Prop
  | [] => True
  | (_, v) :: fields => Scalars p v ∧ ScalarsIn p fields

end

variable {p : Value → Prop} {key : String} {fields : List (String × Value)}

theorem scalarsIn_append {more : List (String × Value)} :
    ScalarsIn p (fields ++ more) ↔ ScalarsIn p fields ∧ ScalarsIn p more := by
  induction fields with
  | nil => simp [ScalarsIn]
  | cons entry fields ih => rw [List.cons_append, ScalarsIn, ScalarsIn, ih, and_assoc]

/-- A field of an object is null, or one of its values. -/
theorem scalars_field (hnull : p .null) (h : ScalarsIn p fields) :
    (field key fields).Scalars p := by
  induction fields with
  | nil => exact hnull
  | cons entry fields ih =>
    obtain ⟨k, v⟩ := entry
    by_cases hk : k = key
    · simpa [field, Entries.get?, hk] using h.1
    · simpa [field, Entries.get?, hk] using ih h.2

/-! ## Showing -/

/-- The same of a value that is a whole number. -/
theorem isWritable_int {i : Int} : (int i).isWritable = true ↔ Number.Writable i := by
  rw [isWritable, Number.isWritable_int]

/-! ## Texts -/

/-- A foreign scalar that is known by its text alone has one. -/
def Shown : Value → Prop
  | foreign (.other _ text _) => text ≠ ""
  | foreign (.collection _ _ _ shown?) => shown?.getD "" ≠ ""
  | _ => True

theorem toString_int_ne_empty (i : Int) : toString i ≠ "" := by
  cases i <;> simp [toString, Int.repr]

theorem decimalText_ne_nil (d : Decimal) : d.text ≠ [] := by
  simp only [Decimal.text]
  split
  · split <;> simp
  · simp

/-- A number has a text. -/
theorem numberText_ne_empty (n : Number) : n.text ≠ "" := by
  cases n with
  | int i => exact toString_int_ne_empty i
  | float x =>
    cases x with
    | nan => simp [Number.text, Double.text]
    | infinite negative => cases negative <;> simp [Number.text, Double.text]
    | finite negative m e =>
      have hdigits : (if m = 0 then ['0', '.', '0'] else (shortest m e).text) ≠ [] := by
        split
        · simp
        · exact decimalText_ne_nil _
      cases negative with
      | true => simp [Number.text, Double.text]
      | false => simpa [Number.text, Double.text] using hdigits

theorem quotedBytes_ne_empty (bs : List UInt8) : Text.quotedBytes bs ≠ "" := by
  simp [Text.quotedBytes]

/-- **A value that counts as given has a text**, if the foreign scalars in it are shown. -/
theorem text_ne_empty {v : Value} (h : v.Scalars Shown) (hgiven : v.isGiven = true) :
    v.text ≠ "" := by
  cases v with
  | null => cases hgiven
  | bool b => cases b <;> simp [text, inspect]
  | num n => exact numberText_ne_empty n
  | str s => simpa [text, isGiven] using hgiven
  | arr items => simp [text, inspect]
  | obj fields => simp [text, inspect]
  | foreign x =>
    cases x with
    | other | collection => exact h
    | bytes => exact quotedBytes_ne_empty _
    | code => simpa [isGiven, Foreign.isGiven, text, Foreign.text] using hgiven
    | long i => exact toString_int_ne_empty i

end Value

end MdxPages
