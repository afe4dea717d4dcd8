import MdxPages.Proofs.Json.Scalar
import MdxPages.References.Literal

/-!
# Proofs/References/Literal — a literal that is written is read back

The literals of the registry module are read back as the texts that they were written for: a key in
double quotes as it is (`readLiteral_quote`), a text in single quotes up to its greatest length
(`readLiteral_encode`).  A text that has been cut once stays as it is (`cutText_cutText`).

Both forms follow from how a single character is written (`WrittenAs`).  No character is written as
half of a surrogate pair, which stands for no text (`escapesHalf`).
-/

namespace MdxPages.References

/-! ## Cut texts

The greatest length leaves room for the mark that a text has been cut. -/

/-- A text cut to the greatest length. -/
def cutText (s : String) : String :=
  String.ofList (truncate s.toList)

/-- A short text is not cut. -/
theorem truncate_of_length_le {cs : List Char} (h : cs.length ≤ maxLength) : truncate cs = cs :=
  if_neg (Nat.not_lt.2 h)

/-- What has been cut is not cut again. -/
theorem truncate_truncate (cs : List Char) : truncate (truncate cs) = truncate cs := by
  by_cases h : cs.length ≤ maxLength
  · rw [truncate_of_length_le h, truncate_of_length_le h]
  · have hlong : maxLength < cs.length := Nat.lt_of_not_le h
    have htake : (cs.take maxLength).length = maxLength :=
      List.length_take_of_le (Nat.le_of_lt hlong)
    have hcut : maxLength < (cs.take maxLength ++ ['…']).length := by simp [htake]
    have hagain : (cs.take maxLength ++ ['…']).take maxLength = cs.take maxLength :=
      List.take_left' htake
    have heq : truncate cs = cs.take maxLength ++ ['…'] := if_pos hlong
    rw [heq, truncate, if_pos hcut, hagain]

/-- A text that has been cut once stays as it is. -/
theorem cutText_cutText (s : String) : cutText (cutText s) = cutText s := by
  rw [cutText, cutText, String.toList_ofList, truncate_truncate]

theorem cutText_of_length_le {s : String} (h : s.toList.length ≤ maxLength) : cutText s = s := by
  rw [cutText, truncate_of_length_le h, String.ofList_toList]

/-- A text is written as its cut form is. -/
theorem encode_cutText (s : String) : encode (cutText s) = encode s := by
  rw [encode, encode, cutText, String.toList_ofList, truncate_truncate]

/-! ## The inside of a literal

A literal is read in two steps: up to its closing quote, and then escape by escape.  Both go through
the text character by character. -/

variable {quote c d : Char} {f : Char → List Char}

/-- What is written for a character is read as a whole: it does not end the literal. -/
def ReadWhole (quote : Char) (cs : List Char) : Prop :=
  ∀ rest, readBody quote (cs ++ rest) =
    (readBody quote rest).map fun (body, rest) => (cs ++ body, rest)

/-- What is written for a character stands for that character. -/
def StandsFor (cs : List Char) (c : Char) : Prop :=
  ∀ rest, decodeFrom none (cs ++ rest) = c :: decodeFrom none rest

/-- A character that is neither a backslash nor the quote is read by itself. -/
theorem readWhole_plain (hslash : c ≠ '\\') (hquote : c ≠ quote) : ReadWhole quote [c] := by
  intro rest
  rw [List.singleton_append, readBody]
  · rw [if_neg hquote]
    rfl
  all_goals simp_all

/-- A backslash takes the next character with it. -/
theorem readWhole_escape (hd : d ≠ '\n') : ReadWhole quote ['\\', d] := by
  intro rest
  rw [List.cons_append, List.singleton_append, readBody, if_neg hd]
  rfl

/-- Texts that are read as a whole are so one after the other. -/
theorem ReadWhole.append {xs ys : List Char} (hx : ReadWhole quote xs) (hy : ReadWhole quote ys) :
    ReadWhole quote (xs ++ ys) := by
  intro rest
  rw [List.append_assoc, hx, hy, Option.map_map]
  congr 1
  funext ⟨body, rest⟩
  simp

/-- A plain character stands for itself. -/
theorem standsFor_plain (hslash : c ≠ '\\') : StandsFor [c] c := by
  intro rest
  rw [List.singleton_append, decodeFrom]
  · rfl
  all_goals simp_all

/-- An escape of one letter stands for what the letter says. -/
theorem standsFor_escape (hd : d ≠ 'u') : StandsFor ['\\', d] (escapedChar d) := by
  intro rest
  rw [List.cons_append, List.singleton_append, decodeFrom]
  · rfl
  all_goals simp_all

/-- **The inside of a literal ends at its closing quote.** -/
theorem readBody_flatMap (hf : ∀ c, ReadWhole quote (f c)) (hquote : quote ≠ '\\')
    (cs rest : List Char) :
    readBody quote (cs.flatMap f ++ quote :: rest) = some (cs.flatMap f, rest) := by
  induction cs with
  | nil =>
    rw [List.flatMap_nil, List.nil_append, readBody, if_pos rfl]
    all_goals simp_all
  | cons c cs ih =>
    rw [List.flatMap_cons, List.append_assoc, hf c, ih]
    rfl

/-- What is written character by character stands for the characters. -/
theorem decode_flatMap (hf : ∀ c, StandsFor (f c) c) (cs : List Char) :
    decode (cs.flatMap f) = String.ofList cs := by
  rw [decode]
  congr 1
  induction cs with
  | nil => rfl
  | cons c cs ih => rw [List.flatMap_cons, hf c, ih]

/-! ## How a character is written

A character is written as it is, by an escape of one letter, or by the escape of its number.  What
is written is read as a whole, and stands for the character. -/

/-- The escape of a number is read as a whole. -/
theorem readWhole_unitEscape {n : Nat} (hn : n < 32) : ReadWhole '"' (Json.unitEscape n) := by
  have hdigits : ∀ n < 32, n.digitChar ≠ '\\' ∧ n.digitChar ≠ '"' := by decide
  have hplain (n : Nat) (hn : n < 32) : ReadWhole '"' [n.digitChar] :=
    readWhole_plain (hdigits n hn).1 (hdigits n hn).2
  rw [Json.unitEscape, Json.hexDigits_four hn]
  exact (readWhole_escape (d := 'u') (by decide)).append <| (hplain 0 (by decide)).append <|
    (hplain 0 (by decide)).append <|
      (hplain (n / 16) (by omega)).append (hplain (n % 16) (by omega))

/-- It stands for the character of the number. -/
theorem standsFor_unitEscape {n : Nat} (hn : n < 32) :
    StandsFor (Json.unitEscape n) (Char.ofNat n) := by
  have hunit : ∀ n < 32, unitOf? '0' '0' (n / 16).digitChar (n % 16).digitChar = some n := by
    decide
  have hlow : ¬ (0xD800 ≤ n ∧ n < 0xDC00) := by omega
  have hhigh : ¬ (0xDC00 ≤ n ∧ n < 0xE000) := by omega
  intro rest
  simp only [Json.unitEscape, Json.hexDigits_four hn, List.cons_append, List.nil_append]
  rw [decodeFrom, hunit n hn]
  simp only [if_neg hlow, if_neg hhigh]
  rfl

/-- What is written for a character between two quotes. -/
inductive WrittenAs (quote c : Char) : List Char → Prop
  | plain (hslash : c ≠ '\\') (hquote : c ≠ quote) : WrittenAs quote c [c]
  | escape {d : Char} (hline : d ≠ '\n') (hunit : d ≠ 'u') (hd : escapedChar d = c) :
      WrittenAs quote c ['\\', d]
  | unit (hquote : quote = '"') (hc : c.toNat < 32) :
      WrittenAs quote c (Json.unitEscape c.toNat)

/-- What is written for a character is read as a whole. -/
theorem WrittenAs.readWhole {cs : List Char} (h : WrittenAs quote c cs) : ReadWhole quote cs := by
  cases h with
  | plain hslash hquote => exact readWhole_plain hslash hquote
  | escape hline => exact readWhole_escape hline
  | unit hquote hc => exact hquote ▸ readWhole_unitEscape hc

/-- And it stands for the character. -/
theorem WrittenAs.standsFor {cs : List Char} (h : WrittenAs quote c cs) : StandsFor cs c := by
  cases h with
  | plain hslash => exact standsFor_plain hslash
  | escape hline hunit hd => exact hd ▸ standsFor_escape hunit
  | unit hquote hc =>
    have hunit := standsFor_unitEscape hc
    rwa [Char.ofNat_toNat] at hunit

/-- How a character is written between single quotes. -/
theorem writtenAs_encodeChar (c : Char) : WrittenAs '\'' c (encodeChar c) := by
  unfold encodeChar
  split
  · next h => exact .escape (by decide) (by decide) h.symm
  split
  · next h => exact .escape (by decide) (by decide) h.symm
  split
  · next h => exact .escape (by decide) (by decide) h.symm
  split
  · next h => exact .escape (by decide) (by decide) h.symm
  split
  · next h => exact .escape (by decide) (by decide) h.symm
  · next hslash hquote _ _ _ => exact .plain hslash hquote

/-- How a character is written between double quotes. -/
theorem writtenAs_charText (c : Char) : WrittenAs '"' c (Json.charText false c) := by
  unfold Json.charText
  split
  · next h => exact .escape (by decide) (by decide) h.symm
  split
  · next h => exact .escape (by decide) (by decide) h.symm
  split
  · next h => exact .escape (by decide) (by decide) h.symm
  split
  · next h => exact .escape (by decide) (by decide) h.symm
  split
  · next h => exact .escape (by decide) (by decide) h.symm
  split
  · next h => exact .escape (by decide) (by decide) h.symm
  split
  · next h => exact .escape (by decide) (by decide) h.symm
  split
  · next h => exact .unit rfl h
  · next hquote hslash _ _ _ _ _ _ => exact .plain hslash hquote

/-! ## Literals

The two forms differ in the quote and in the letters that have an escape. -/

/-- **A text in single quotes is read back**, cut to the greatest length. -/
theorem readLiteral_encode (s : String) (rest : List Char) :
    ∃ body, readLiteral ((encode s).toList ++ rest) = some (body, rest) ∧
      decode body = cutText s := by
  refine ⟨(truncate s.toList).flatMap encodeChar, ?_,
    decode_flatMap (fun c => (writtenAs_encodeChar c).standsFor) _⟩
  rw [encode, String.toList_ofList]
  simp only [List.cons_append, List.append_assoc, List.nil_append]
  rw [readLiteral, if_pos (.inl rfl),
    readBody_flatMap (fun c => (writtenAs_encodeChar c).readWhole) (by decide)]

/-- **A key in double quotes is read back.** -/
theorem readLiteral_quote (s : String) (rest : List Char) :
    ∃ body, readLiteral ((Json.quote s).toList ++ rest) = some (body, rest) ∧ decode body = s := by
  refine ⟨s.toList.flatMap (Json.charText false), ?_, ?_⟩
  · rw [Json.quote, String.toList_ofList, Json.stringText_append, readLiteral, if_pos (.inr rfl),
      readBody_flatMap (fun c => (writtenAs_charText c).readWhole) (by decide)]
  · rw [decode_flatMap fun c => (writtenAs_charText c).standsFor, String.ofList_toList]

/-! ## Halves of surrogate pairs

An escape can stand for half of a surrogate pair, which is no character: a text with such a half
can be read, but not be written.  Nothing that is written here holds such an escape. -/

/-- Whether an escape in a text stands for half of a surrogate pair. -/
def escapesHalf : List Char → Bool
  | '\\' :: 'u' :: a :: b :: c :: d :: cs =>
    (unitOf? a b c d).any (fun n => decide (0xD800 ≤ n ∧ n < 0xE000)) ||
      escapesHalf (a :: b :: c :: d :: cs)
  | '\\' :: _ :: cs => escapesHalf cs
  | _ :: cs => escapesHalf cs
  | [] => false

/-- No escape that begins in a text stands for half of a surrogate pair, whatever follows it. -/
def EscapesNoHalf (cs : List Char) : Prop :=
  ∀ rest, escapesHalf (cs ++ rest) = escapesHalf rest

namespace EscapesNoHalf

variable {cs ds : List Char}

/-- Texts in which no escape is half of a pair, one after the other. -/
theorem append (hcs : EscapesNoHalf cs) (hds : EscapesNoHalf ds) : EscapesNoHalf (cs ++ ds) := by
  intro rest
  rw [List.append_assoc, hcs, hds]

theorem plain (hslash : c ≠ '\\') : EscapesNoHalf [c] := by
  intro rest
  rw [List.singleton_append, escapesHalf]
  all_goals simp_all

/-- Without a backslash there is no escape. -/
theorem of_notMem (h : '\\' ∉ cs) : EscapesNoHalf cs := by
  induction cs with
  | nil => exact fun _ => rfl
  | cons c cs ih =>
    rw [List.mem_cons, not_or] at h
    exact (plain (Ne.symm h.1)).append (ih h.2)

theorem escape (hd : d ≠ 'u') : EscapesNoHalf ['\\', d] := by
  intro rest
  rw [List.cons_append, List.singleton_append, escapesHalf]
  all_goals simp_all

theorem unitEscape {n : Nat} (hn : n < 32) : EscapesNoHalf (Json.unitEscape n) := by
  have hunit : ∀ n < 32, unitOf? '0' '0' (n / 16).digitChar (n % 16).digitChar = some n := by
    decide
  have hdigits : ∀ n < 32, '\\' ∉ ['0', '0', (n / 16).digitChar, (n % 16).digitChar] := by decide
  have hsmall : ¬(0xD800 ≤ n ∧ n < 0xE000) := by omega
  intro rest
  simp only [Json.unitEscape, Json.hexDigits_four hn, List.cons_append, List.nil_append]
  rw [escapesHalf, hunit n hn, Option.any_some, decide_eq_false hsmall, Bool.false_or]
  exact of_notMem (hdigits n hn) rest

/-- A text whose characters are all written so. -/
theorem flatMap (h : ∀ c, EscapesNoHalf (f c)) (cs : List Char) : EscapesNoHalf (cs.flatMap f) := by
  induction cs with
  | nil => exact fun _ => rfl
  | cons c cs ih => exact (h c).append ih

end EscapesNoHalf

theorem WrittenAs.escapesNoHalf {cs : List Char} (h : WrittenAs quote c cs) : EscapesNoHalf cs := by
  cases h with
  | plain hslash => exact .plain hslash
  | escape hline hunit => exact .escape hunit
  | unit hquote hc => exact .unitEscape hc

/-- A text in single quotes escapes no half of a pair. -/
theorem escapesNoHalf_encode (s : String) : EscapesNoHalf (encode s).toList := by
  rw [encode, String.toList_ofList]
  exact ((EscapesNoHalf.plain (by decide)).append
    (.flatMap (fun c => (writtenAs_encodeChar c).escapesNoHalf) _)).append (.plain (by decide))

/-- Nor does a key in double quotes. -/
theorem escapesNoHalf_quote (s : String) : EscapesNoHalf (Json.quote s).toList := by
  rw [Json.quote, String.toList_ofList, Json.stringText]
  exact ((EscapesNoHalf.plain (by decide)).append
    (.flatMap (fun c => (writtenAs_charText c).escapesNoHalf) _)).append (.plain (by decide))

/-! ## Line ends -/

/-- No carriage return stands between single quotes. -/
theorem return_notMem_encode (s : String) : '\r' ∉ (encode s).toList := by
  have hchar (c : Char) : '\r' ∉ encodeChar c := by
    unfold encodeChar
    repeat' split
    all_goals simp_all [eq_comm]
  rw [encode, String.toList_ofList]
  simp [hchar]

/-- Nor between double quotes. -/
theorem return_notMem_quote (s : String) : '\r' ∉ (Json.quote s).toList := by
  have hcontrol : ∀ n < 32, '\r' ∉ Json.charText false (Char.ofNat n) := by decide
  have hchar (c : Char) : '\r' ∉ Json.charText false c := by
    by_cases hc : c.toNat < 32
    · have h := hcontrol c.toNat hc
      rwa [Char.ofNat_toNat] at h
    · unfold Json.charText
      repeat' split
      all_goals simp_all [eq_comm]
  rw [Json.quote, String.toList_ofList, Json.stringText]
  simp [hchar]

end MdxPages.References
