import MdxPages.Proofs.Entries
import MdxPages.Proofs.Json.Scalar

/-!
# Proofs/Json/RoundTrip — what is written as JSON is read back

A value without fractions, foreign scalars and repeated keys is read back from its text, in every
layout that adds nothing but blanks (`read_write`), if its whole numbers have few enough digits.
A value with a longer one is refused before it is written (`dump_eq_error`).
-/

namespace MdxPages

namespace Value

mutual

/-- A value of texts, truth values and whole numbers that can be written, in which no object has a
key twice. -/
def Plain : Value → Prop
  | null | bool _ | str _ => True
  | num (.int i) => Number.Writable i
  | num (.float _) | foreign _ => False
  | arr items => PlainEach items
  | obj fields => (Entries.keys fields).Nodup ∧ PlainIn fields

/-- Every item of a list is such a value. -/
def PlainEach : List Value → Prop
  | [] => True
  | v :: vs => Plain v ∧ PlainEach vs

/-- Every value in the fields of an object is such a value. -/
def PlainIn : List (String × Value) → Prop
  | [] => True
  | (_, v) :: fields => Plain v ∧ PlainIn fields

end

end Value

namespace Json

open Value

variable {style : Style} {blanks cs rest : List Char} {c : Char}

/-! ## Blanks

A layout puts blanks between the signs of JSON, or a line end and blanks.  The reader skips them
all. -/

/-- A layout that adds nothing but blanks to the signs of JSON. -/
structure Style.Spaced (style : Style) : Prop where
  item : ∃ blanks, style.itemSeparator = ',' :: blanks ∧ ∀ c ∈ blanks, isBlank c = true
  key : ∃ blanks, style.keySeparator = ':' :: blanks ∧ ∀ c ∈ blanks, isBlank c = true
  margin : ∀ margin ∈ style.margin, ∀ c ∈ margin, isBlank c = true
  unicode : style.ascii = false

/-- Blanks in front are skipped. -/
theorem skipBlanks_append (h : ∀ c ∈ blanks, isBlank c = true) (cs : List Char) :
    skipBlanks (blanks ++ cs) = skipBlanks cs :=
  List.dropWhile_append_of_pos h

theorem skipBlanks_cons (h : isBlank c = false) (cs : List Char) :
    skipBlanks (c :: cs) = c :: cs :=
  List.dropWhile_cons_of_neg (by simp [h])

/-- A line of a layout starts with blanks. -/
theorem Style.Spaced.newline (h : style.Spaced) (level : Nat) :
    ∀ c ∈ style.newline level, isBlank c = true := by
  unfold Style.newline
  split
  · simp
  · next margin hmargin =>
    intro c hc
    obtain rfl | hc := List.mem_cons.1 hc
    · rfl
    · obtain ⟨m, hm, hc⟩ := List.mem_flatten.1 hc
      rw [List.eq_of_mem_replicate hm] at hc
      exact h.margin margin hmargin c hc

/-- Indenting adds nothing but blanks. -/
theorem Style.spaced_indented (indent : Option Int) : (Style.indented indent).Spaced := by
  cases indent with
  | none => exact ⟨⟨[' '], rfl, by simp [isBlank]⟩, ⟨[' '], rfl, by simp [isBlank]⟩,
      by simp [indented, line], rfl⟩
  | some n =>
    refine ⟨⟨[], rfl, by simp⟩, ⟨[' '], rfl, by simp [isBlank]⟩, fun margin hmargin c hc => ?_, rfl⟩
    obtain rfl := Option.some.inj hmargin
    rw [String.toList_ofList] at hc
    obtain rfl := List.eq_of_mem_replicate hc
    rfl

/-- What stands after an item: blanks, and then a sign of JSON. -/
theorem endsNumber_of_blanks {sign : Char} (hsign : sign ∈ [',', ']', '\x7d'])
    (h : ∀ c ∈ blanks, isBlank c = true) (rest : List Char) :
    EndsNumber (blanks ++ sign :: rest) := by
  have hsigns : ∀ c ∈ [' ', '\t', '\n', '\r', ',', ']', '\x7d'],
      c.isDigit = false ∧ c ≠ '.' ∧ c ≠ 'e' ∧ c ≠ 'E' := by simp
  have hends (c : Char) (hc : isBlank c = true ∨ c ∈ [',', ']', '\x7d']) :
      c.isDigit = false ∧ c ≠ '.' ∧ c ≠ 'e' ∧ c ≠ 'E' :=
    hsigns c (by simpa [isBlank, or_assoc] using hc)
  intro c hc
  cases blanks with
  | nil =>
    obtain rfl : sign = c := Option.some.inj hc
    exact hends sign (.inr hsign)
  | cons b blanks =>
    obtain rfl : b = c := Option.some.inj hc
    exact hends b (.inl (h b List.mem_cons_self))

/-! ## Texts of values

What a text starts with tells the reader which kind of value it is, and that a list or an object is
not at its end. -/

/-- The text of a value starts with a character that is neither blank nor the end of a list. -/
theorem exists_valueText_eq_cons (style : Style) (level : Nat) {v : Value} (hv : v.Plain) :
    ∃ c cs, valueText style level v = c :: cs ∧ isBlank c = false ∧ c ≠ ']' := by
  cases v with
  | null => exact ⟨'n', _, rfl, by decide, by decide⟩
  | bool b =>
    cases b with
    | false => exact ⟨'f', _, rfl, by decide, by decide⟩
    | true => exact ⟨'t', _, rfl, by decide, by decide⟩
  | str s => exact ⟨'"', _, rfl, by decide, by decide⟩
  | arr items => cases items <;> exact ⟨'[', _, rfl, by decide, by decide⟩
  | obj fields => cases fields <;> exact ⟨'\x7b', _, rfl, by decide, by decide⟩
  | num n =>
    cases n with
    | int i =>
      obtain ⟨c, cs, hcs, hc⟩ := exists_toString_eq_cons i
      have hdigit : isBlank c = false ∧ c ≠ ']' := by
        obtain rfl | hc := hc
        · decide
        · simp only [isBlank, Bool.or_eq_false_iff, beq_eq_false_iff_ne]
          refine ⟨⟨⟨⟨?_, ?_⟩, ?_⟩, ?_⟩, ?_⟩ <;> exact fun h => absurd hc (h ▸ by decide)
      exact ⟨c, cs, hcs, hdigit⟩
    | float x => exact hv.elim
  | foreign x => exact hv.elim

/-- The text of a value has no blanks in front. -/
theorem skipBlanks_valueText (style : Style) (level : Nat) {v : Value} (hv : v.Plain)
    (rest : List Char) :
    skipBlanks (valueText style level v ++ rest) = valueText style level v ++ rest := by
  obtain ⟨c, cs, htext, hblank, -⟩ := exists_valueText_eq_cons style level hv
  rw [htext, List.cons_append, skipBlanks_cons hblank]

theorem Style.Spaced.skipBlanks_newline (h : style.Spaced) (line level : Nat) {v : Value}
    (hv : v.Plain) (rest : List Char) :
    skipBlanks (style.newline line ++ (valueText style level v ++ rest)) =
      valueText style level v ++ rest := by
  rw [skipBlanks_append (h.newline line), skipBlanks_valueText style level hv]

/-- An item does not start with the bracket that closes its list. -/
theorem head?_valueText_ne (style : Style) (level : Nat) {v : Value} (hv : v.Plain)
    (rest : List Char) : (valueText style level v ++ rest).head? ≠ some ']' := by
  obtain ⟨c, cs, htext, -, hc⟩ := exists_valueText_eq_cons style level hv
  rw [htext]
  exact fun h => hc (Option.some.inj h)

theorem length_valueText_pos (style : Style) (level : Nat) {v : Value} (hv : v.Plain) :
    0 < (valueText style level v).length := by
  obtain ⟨c, cs, htext, -⟩ := exists_valueText_eq_cons style level hv
  rw [htext]
  exact Nat.succ_pos _

/-! ## Reading

The reader takes fuel, of which it has enough if there is more than what is left to read is long. -/

/-- What starts with no quote, bracket or brace is read as a scalar. -/
theorem readValue_eq_readScalar (fuel : Nat) (h : c ∉ ['"', '[', '\x7b']) (cs : List Char) :
    readValue (fuel + 1) (c :: cs) = readScalar (c :: cs) := by
  simp only [List.mem_cons, not_or] at h
  rw [readValue]
  · rintro tail heq
    exact h.1 (List.cons.inj heq).1
  · rintro tail heq
    exact h.2.1 (List.cons.inj heq).1
  · rintro tail heq
    exact h.2.2.1 (List.cons.inj heq).1

/-- A whole number is read up to what ends it. -/
theorem readValue_num (fuel : Nat) {i : Int} (hi : Number.Writable i) (hrest : EndsNumber rest) :
    readValue (fuel + 1) ((toString i).toList ++ rest) = .ok (.int i, rest) := by
  obtain ⟨c, cs, hcs, hc⟩ := exists_toString_eq_cons i
  have hopen : c ∉ ['"', '[', '\x7b'] := by
    obtain rfl | hc := hc
    · decide
    · simp only [List.mem_cons, not_or]
      refine ⟨?_, ?_, ?_, List.not_mem_nil⟩ <;> exact fun h => absurd hc (h ▸ by decide)
  rw [hcs, List.cons_append, readValue_eq_readScalar fuel hopen, ← List.cons_append, ← hcs,
    readScalar_toString i hrest, if_pos ((Number.writable_iff_length i).1 hi)]

/-! ## Lists and objects

One lemma for each step of the reader: the last element, one that is followed by another, and the
opening sign. -/

section

variable {fuel : Nat} {v : Value} {k : String} {tail rest' : List Char}

/-- Behind an opening bracket items are read. -/
theorem readValue_items (h : skipBlanks tail = cs) (hcs : cs.head? ≠ some ']') :
    readValue (fuel + 1) ('[' :: tail) =
      (readItems fuel cs).map fun (vs, rest) => (.arr vs, rest) := by
  rw [readValue, h]
  split
  · exact absurd rfl hcs
  · rfl

/-- An item before the closing bracket is the last one. -/
theorem readItems_last (h : readValue fuel cs = .ok (v, rest))
    (hrest : skipBlanks rest = ']' :: rest') : readItems (fuel + 1) cs = .ok ([v], rest') := by
  rw [readItems, h]
  simp only [hrest]

/-- An item before a comma is followed by another one. -/
theorem readItems_more (h : readValue fuel cs = .ok (v, rest))
    (hrest : skipBlanks rest = ',' :: rest') :
    readItems (fuel + 1) cs =
      (readItems fuel (skipBlanks rest')).map fun (vs, rest) => (v :: vs, rest) := by
  rw [readItems, h]
  simp only [hrest]

/-- Behind an opening brace fields are read. -/
theorem readValue_fields (h : skipBlanks tail = '"' :: cs) :
    readValue (fuel + 1) ('\x7b' :: tail) =
      (readFields fuel ('"' :: cs)).map fun (fs, rest) => (.obj (Entries.ofList fs), rest) := by
  rw [readValue, h]
  rfl

/-- A key is read up to the blanks before the value after it. -/
theorem exists_skipBlanks_keySeparator (hstyle : style.Spaced) (hcs : skipBlanks cs = cs) :
    ∃ tail, skipBlanks (style.keySeparator ++ cs) = ':' :: tail ∧ skipBlanks tail = cs := by
  obtain ⟨blanks, hkey, hblanks⟩ := hstyle.key
  refine ⟨blanks ++ cs, ?_, (skipBlanks_append hblanks cs).trans hcs⟩
  rw [hkey, List.cons_append, skipBlanks_cons rfl]

/-- A field before the closing brace is the last one. -/
theorem readFields_last (hstyle : style.Spaced) (hcs : skipBlanks cs = cs)
    (h : readValue fuel cs = .ok (v, rest)) (hrest : skipBlanks rest = '\x7d' :: rest') :
    readFields (fuel + 1) (stringText false k ++ (style.keySeparator ++ cs)) =
      .ok ([(k, v)], rest') := by
  obtain ⟨tail, hcolon, htail⟩ := exists_skipBlanks_keySeparator hstyle hcs
  rw [stringText_append, readFields, readString_flatMap]
  simp only [hcolon, htail, h, hrest, String.ofList_toList]

/-- A field before a comma is followed by another one. -/
theorem readFields_more (hstyle : style.Spaced) (hcs : skipBlanks cs = cs)
    (h : readValue fuel cs = .ok (v, rest)) (hrest : skipBlanks rest = ',' :: rest') :
    readFields (fuel + 1) (stringText false k ++ (style.keySeparator ++ cs)) =
      (readFields fuel (skipBlanks rest')).map fun (fs, rest) => ((k, v) :: fs, rest) := by
  obtain ⟨tail, hcolon, htail⟩ := exists_skipBlanks_keySeparator hstyle hcs
  rw [stringText_append, readFields, readString_flatMap]
  simp only [hcolon, htail, h, hrest, String.ofList_toList]

end

/-- Behind an item there is a comma, a bracket or a blank, so a number in it has ended. -/
theorem endsNumber_itemsText (hstyle : style.Spaced) (level : Nat) (vs : List Value)
    (hclose : ∀ c ∈ blanks, isBlank c = true) (rest : List Char) :
    EndsNumber (itemsText style level vs ++ (blanks ++ ']' :: rest)) := by
  cases vs with
  | nil => exact endsNumber_of_blanks (by decide) hclose rest
  | cons v vs =>
    obtain ⟨spaces, hsep, -⟩ := hstyle.item
    rw [itemsText, hsep]
    exact @endsNumber_of_blanks [] ',' (by decide) (by simp) _

/-- The same of fields. -/
theorem endsNumber_fieldsText (hstyle : style.Spaced) (level : Nat)
    (fields : List (String × Value)) (hclose : ∀ c ∈ blanks, isBlank c = true)
    (rest : List Char) :
    EndsNumber (fieldsText style level fields ++ (blanks ++ '\x7d' :: rest)) := by
  cases fields with
  | nil => exact endsNumber_of_blanks (by decide) hclose rest
  | cons entry fields =>
    obtain ⟨k, v⟩ := entry
    obtain ⟨spaces, hsep, -⟩ := hstyle.item
    rw [fieldsText, hsep]
    exact @endsNumber_of_blanks [] ',' (by decide) (by simp) _

mutual

/-- **A value is read back from its text**, whatever stands after it that ends a number. -/
theorem readValue_valueText (hstyle : style.Spaced) (fuel level : Nat) (v : Value) (hv : v.Plain)
    (hfuel : (valueText style level v).length ≤ fuel) (rest : List Char)
    (hrest : EndsNumber rest) :
    readValue fuel (valueText style level v ++ rest) = .ok (v, rest) := by
  match fuel with
  | 0 => exact absurd hfuel (Nat.not_le.2 (length_valueText_pos style level hv))
  | fuel + 1 =>
    match v with
    | .num (.int i) => exact readValue_num fuel hv hrest
    | .null | .bool true | .bool false | .arr [] | .obj [] => rfl
    | .str s =>
      rw [valueText, hstyle.unicode, stringText_append, readValue, readString_flatMap]
      simp only [String.ofList_toList]
    | .arr (v :: vs) =>
      rw [valueText] at hfuel ⊢
      simp only [List.append_assoc, List.cons_append, List.nil_append, List.length_cons,
        List.length_append] at hfuel ⊢
      have hitems := readItems_itemsText hstyle fuel (level + 1) v vs hv (by omega) _
        (hstyle.newline level) rest
      rw [readValue_items (hstyle.skipBlanks_newline (level + 1) (level + 1) hv.1 _)
        (head?_valueText_ne style _ hv.1 _), hitems]
      rfl
    | .obj ((k, v) :: fields) =>
      rw [valueText, hstyle.unicode] at hfuel ⊢
      simp only [List.append_assoc, List.cons_append, List.nil_append, List.length_cons,
        List.length_append] at hfuel ⊢
      have hfields := readFields_fieldsText hstyle fuel (level + 1) k v fields hv.2 (by omega) _
        (hstyle.newline level) rest
      rw [stringText_append] at hfields ⊢
      rw [readValue_fields ((skipBlanks_append (hstyle.newline _) _).trans (skipBlanks_cons rfl _)),
        hfields]
      exact congrArg (fun fs => Except.ok (Value.obj fs, rest)) (Entries.ofList_eq_self hv.1)

/-- Items are read up to the closing bracket. -/
theorem readItems_itemsText (hstyle : style.Spaced) (fuel level : Nat) (v : Value)
    (vs : List Value) (hvs : PlainEach (v :: vs))
    (hfuel : (valueText style level v).length + (itemsText style level vs).length < fuel)
    (close : List Char)
    (hclose : ∀ c ∈ close, isBlank c = true) (rest : List Char) :
    readItems fuel
        (valueText style level v ++ (itemsText style level vs ++ (close ++ ']' :: rest))) =
      .ok (v :: vs, rest) := by
  match fuel with
  | 0 => exact absurd hfuel (Nat.not_lt_zero _)
  | fuel + 1 =>
    have hread := readValue_valueText hstyle fuel level v hvs.1 (by omega) _
      (endsNumber_itemsText hstyle level vs hclose rest)
    match vs with
    | [] => exact readItems_last hread ((skipBlanks_append hclose _).trans (skipBlanks_cons rfl _))
    | w :: ws =>
      obtain ⟨spaces, hsep, hspaces⟩ := hstyle.item
      have hpos := length_valueText_pos style level hvs.1
      rw [itemsText, hsep] at hfuel
      simp only [List.cons_append, List.length_cons, List.length_append] at hfuel
      have hitems := readItems_itemsText hstyle fuel level w ws hvs.2 (by omega) close hclose rest
      rw [itemsText, hsep] at hread ⊢
      simp only [List.cons_append, List.append_assoc] at hread ⊢
      rw [readItems_more hread (skipBlanks_cons rfl _), skipBlanks_append hspaces,
        hstyle.skipBlanks_newline level level hvs.2.1, hitems]
      rfl

/-- Fields are read up to the closing brace. -/
theorem readFields_fieldsText (hstyle : style.Spaced) (fuel level : Nat) (k : String) (v : Value)
    (fields : List (String × Value)) (hfields : PlainIn ((k, v) :: fields))
    (hfuel : (valueText style level v).length + (fieldsText style level fields).length < fuel)
    (close : List Char)
    (hclose : ∀ c ∈ close, isBlank c = true) (rest : List Char) :
    readFields fuel
        (stringText false k ++ (style.keySeparator ++ (valueText style level v ++
          (fieldsText style level fields ++ (close ++ '\x7d' :: rest))))) =
      .ok ((k, v) :: fields, rest) := by
  match fuel with
  | 0 => exact absurd hfuel (Nat.not_lt_zero _)
  | fuel + 1 =>
    have hread := readValue_valueText hstyle fuel level v hfields.1 (by omega) _
      (endsNumber_fieldsText hstyle level fields hclose rest)
    have hskip := skipBlanks_valueText style level hfields.1
    match fields with
    | [] =>
      exact readFields_last hstyle (hskip _) hread
        ((skipBlanks_append hclose _).trans (skipBlanks_cons rfl _))
    | (l, w) :: more =>
      obtain ⟨spaces, hsep, hspaces⟩ := hstyle.item
      have hpos := length_valueText_pos style level hfields.1
      rw [fieldsText, hsep, hstyle.unicode] at hfuel
      simp only [List.cons_append, List.length_cons, List.length_append] at hfuel
      have hmore := readFields_fieldsText hstyle fuel level l w more hfields.2 (by omega) close
        hclose rest
      have hquote : ∀ cs, skipBlanks (stringText false l ++ cs) = stringText false l ++ cs :=
        fun cs => skipBlanks_cons (c := '"') rfl _
      rw [fieldsText, hsep, hstyle.unicode] at hread ⊢
      simp only [List.cons_append, List.append_assoc] at hread ⊢
      rw [readFields_more hstyle (hskip _) hread (skipBlanks_cons rfl _),
        skipBlanks_append hspaces, skipBlanks_append (hstyle.newline level), hquote, hmore]
      rfl

end

/-- **A text reads back as the value that it was written from.** -/
theorem read_write (hstyle : style.Spaced) {v : Value} (hv : v.Plain) :
    read (write style v) = .ok v := by
  have hskip := skipBlanks_valueText style 0 hv []
  rw [List.append_nil] at hskip
  have hread := readValue_valueText hstyle (2 * (valueText style 0 v).length + 2) 0 v hv (by omega)
    [] (fun _ hc => by cases hc)
  rw [List.append_nil] at hread
  rw [read, write, String.toList_ofList, hskip, hread]
  rfl

/-! ## Refusals

Writing looks at the scalars first, in the order in which they stand.  The first that is refused is
the reason given. -/

mutual

/-- A condition on the scalars of a value is one on each of them. -/
theorem scalars_iff {p : Value → Prop} (v : Value) : v.Scalars p ↔ ∀ w ∈ scalars v, p w := by
  match v with
  | .arr items => exact scalarsEach_iff items
  | .obj fields => exact scalarsIn_iff fields
  | .null | .bool _ | .num _ | .str _ | .foreign _ => simp [Scalars, scalars]

theorem scalarsEach_iff {p : Value → Prop} (vs : List Value) :
    ScalarsEach p vs ↔ ∀ w ∈ scalarsEach vs, p w := by
  cases vs with
  | nil => simp [ScalarsEach, scalarsEach]
  | cons v vs =>
    rw [scalarsEach, List.forall_mem_append, ScalarsEach, scalars_iff v, scalarsEach_iff vs]

theorem scalarsIn_iff {p : Value → Prop} (fields : List (String × Value)) :
    ScalarsIn p fields ↔ ∀ w ∈ scalarsIn fields, p w := by
  cases fields with
  | nil => simp [ScalarsIn, scalarsIn]
  | cons entry fields =>
    obtain ⟨k, v⟩ := entry
    rw [scalarsIn, List.forall_mem_append, ScalarsIn, scalars_iff v, scalarsIn_iff fields]

end

/-- A value is written if none of its scalars is refused. -/
theorem dump_eq_ok (style : Style) {v : Value} (h : v.Scalars fun w => refusal? w = none) :
    dump style v = .ok (write style v) := by
  rw [dump, List.findSome?_eq_none_iff.2 ((scalars_iff v).1 h)]

/-- A value in which the refused scalars all are refused for one reason is refused for it. -/
theorem dump_eq_error (style : Style) {v : Value} {fault : Fault}
    (hreason : v.Scalars fun w => ∀ f ∈ refusal? w, f = fault)
    (h : ¬ v.Scalars fun w => refusal? w = none) : dump style v = .error fault := by
  rw [scalars_iff, ← List.findSome?_eq_none_iff] at h
  obtain ⟨f, hf⟩ := Option.ne_none_iff_exists'.1 h
  obtain ⟨w, hw, hrefusal⟩ := List.exists_of_findSome?_eq_some hf
  rw [dump, hf, (scalars_iff v).1 hreason w hw f hrefusal]

/-- Whole numbers with few enough digits are not refused. -/
theorem refusal?_of_writable {i : Int} (h : Number.Writable i) : refusal? (.int i) = none := by
  unfold Number.Writable at h
  simp only [refusal?, if_pos h]

/-- All others are refused for their digits. -/
theorem refusal?_of_not_writable {i : Int} (h : ¬ Number.Writable i) :
    refusal? (.int i) = some .tooManyDigits := by
  unfold Number.Writable at h
  simp only [refusal?, if_neg h]

/-- A whole number is refused exactly if it has too many digits. -/
theorem refusal?_eq_none_iff (i : Int) : refusal? (.int i) = none ↔ Number.Writable i := by
  by_cases h : Number.Writable i
  · exact iff_of_true (refusal?_of_writable h) h
  · exact iff_of_false (fun hnone => nomatch (refusal?_of_not_writable h).symm.trans hnone) h

theorem eq_tooManyDigits_of_refusal? (i : Int) :
    ∀ f ∈ refusal? (.int i), f = .tooManyDigits := by
  intro f hf
  by_cases h : Number.Writable i
  · exact nomatch (refusal?_of_writable h).symm.trans hf
  · exact (Option.some.inj ((refusal?_of_not_writable h).symm.trans hf)).symm

end Json

end MdxPages
