import MdxPages.Proofs.Json.RoundTrip
import MdxPages.Proofs.Mdx.Expression
import MdxPages.Proofs.Mdx.Render
import MdxPages.Proofs.Path.Script

/-!
# Proofs/Mdx/Attributes — what a reader gets from the attributes of a tag

A literal ends at the next quote, and the character references in it are decoded; an expression ends
at its closing brace (`readAttributes?`).  In a literal the quotes are written as references, and
nothing else is, so what looks like a reference to a reader is not kept apart from one that has been
written: **a reader gets the attributes back with the references in their literals decoded**
(`readAttributes?_attributesText`).
-/

namespace MdxPages.Mdx

/-! ## Character references

A reader of the language knows many references by name.  Which ones it knows is left open, but for
the quote by its number. -/

/-- A character of what stands between the signs `&` and `;` of a reference. -/
def isReferenceChar (c : Char) : Bool :=
  c.isAlphanum || c == '#'

/-- The number of a quote in a reference to it. -/
def quoteNumber : List Char :=
  ['#', 'x', '2', '2']

/-- The characters that a reader knows references to. -/
structure References where
  /-- The character that a name or a number stands for. -/
  char? : List Char → Option Char
  quote : char? quoteNumber = some '"'

namespace References

/-- The reference to a quote by its number, and no other. -/
def quoteOnly : References where
  char? body := if body = quoteNumber then some '"' else none
  quote := rfl

variable (refs : References)

/-- The character of the reference that goes on with a text, and what stands behind it. -/
def cut? (cs : List Char) : Option (Char × List Char) :=
  match cs.dropWhile isReferenceChar with
  | ';' :: rest => (refs.char? (cs.takeWhile isReferenceChar)).map (·, rest)
  | _ => none

/-- Some text holds a reference. -/
def HeldIn (cs : List Char) : Prop :=
  ∃ before body after, cs = before ++ '&' :: (body ++ ';' :: after) ∧
    (∀ d ∈ body, isReferenceChar d = true) ∧ (refs.char? body).isSome = true

variable {refs} {cs rest : List Char} {c : Char}

/-- A reference ends at the first semicolon, if the signs before it make one. -/
theorem cut?_eq_some_iff : refs.cut? cs = some (c, rest) ↔
    ∃ body, cs = body ++ ';' :: rest ∧ (∀ d ∈ body, isReferenceChar d = true) ∧
      refs.char? body = some c := by
  unfold cut?
  constructor
  · intro h
    split at h
    · next after hafter =>
      obtain ⟨d, hd, heq⟩ := Option.map_eq_some_iff.1 h
      obtain ⟨rfl, rfl⟩ := Prod.mk.inj heq
      refine ⟨cs.takeWhile isReferenceChar, ?_, fun d => List.mem_takeWhile_imp, hd⟩
      rw [← hafter, List.takeWhile_append_dropWhile]
    · cases h
  · rintro ⟨body, rfl, hbody, hchar⟩
    rw [List.takeWhile_append_of_pos hbody, List.dropWhile_append_of_pos hbody]
    simp [isReferenceChar, hchar]

/-- A reference is not empty. -/
theorem length_lt_of_cut? (h : refs.cut? cs = some (c, rest)) : rest.length < cs.length := by
  obtain ⟨body, rfl, -⟩ := cut?_eq_some_iff.1 h
  simp
  omega

/-- A literal with its references decoded. -/
def decode (refs : References) : List Char → List Char
  | [] => []
  | c :: cs =>
    if c = '&' then
      match hcut : refs.cut? cs with
      | some (d, rest) =>
        have := length_lt_of_cut? hcut
        d :: decode refs rest
      | none => c :: decode refs cs
    else c :: decode refs cs
termination_by cs => cs.length

/-- A reference is decoded to its character. -/
theorem decode_of_cut? (h : refs.cut? cs = some (c, rest)) :
    refs.decode ('&' :: cs) = c :: refs.decode rest := by
  rw [decode, if_pos rfl]
  split
  · next hcut =>
    obtain ⟨rfl, rfl⟩ := Prod.mk.inj (Option.some.inj (h.symm.trans hcut))
    rfl
  · next hcut => cases h.symm.trans hcut

/-- An ampersand that starts no reference stays. -/
theorem decode_of_cut?_eq_none (h : refs.cut? cs = none) :
    refs.decode ('&' :: cs) = '&' :: refs.decode cs := by
  rw [decode, if_pos rfl]
  split
  · next hcut => cases h.symm.trans hcut
  · rfl

/-- All other characters stay. -/
theorem decode_cons (hc : c ≠ '&') (cs : List Char) :
    refs.decode (c :: cs) = c :: refs.decode cs := by
  rw [decode, if_neg hc]

/-- A text holds a reference at its start, or further on. -/
theorem heldIn_cons : refs.HeldIn (c :: cs) ↔
    c = '&' ∧ (refs.cut? cs).isSome = true ∨ refs.HeldIn cs := by
  constructor
  · rintro ⟨before, body, after, heq, hbody, hchar⟩
    cases before with
    | nil =>
      obtain ⟨rfl, rfl⟩ := List.cons.inj heq
      obtain ⟨d, hd⟩ := Option.isSome_iff_exists.1 hchar
      have hcut : refs.cut? (body ++ ';' :: after) = some (d, after) :=
        cut?_eq_some_iff.2 ⟨body, rfl, hbody, hd⟩
      exact .inl ⟨rfl, by rw [hcut]; rfl⟩
    | cons b before =>
      obtain ⟨rfl, rfl⟩ := List.cons.inj heq
      exact .inr ⟨before, body, after, rfl, hbody, hchar⟩
  · rintro (⟨rfl, hcut⟩ | ⟨before, body, after, rfl, hbody, hchar⟩)
    · obtain ⟨⟨d, after⟩, hd⟩ := Option.isSome_iff_exists.1 hcut
      obtain ⟨body, rfl, hbody, hchar⟩ := cut?_eq_some_iff.1 hd
      exact ⟨[], body, after, rfl, hbody, by rw [hchar]; rfl⟩
    · exact ⟨c :: before, body, after, rfl, hbody, hchar⟩

theorem not_heldIn_nil : ¬refs.HeldIn [] := by
  rintro ⟨before, body, after, heq, -⟩
  exact List.cons_ne_nil _ _ (List.append_eq_nil_iff.1 heq.symm).2

instance decidableHeldIn (refs : References) : (cs : List Char) → Decidable (refs.HeldIn cs)
  | [] => .isFalse not_heldIn_nil
  | _ :: cs =>
    have := decidableHeldIn refs cs
    decidable_of_iff' _ heldIn_cons

/-- Decoding makes no text longer. -/
theorem length_decode_le (refs : References) (cs : List Char) :
    (refs.decode cs).length ≤ cs.length := by
  fun_induction decode refs cs with
  | case1 => exact Nat.le_refl _
  | case2 cs d rest hcut ih =>
    have hlength := length_lt_of_cut? hcut
    simp only [List.length_cons]
    omega
  | case3 cs _ ih => simpa using ih
  | case4 c cs _ ih => simpa using ih

/-- **A text is its own decoding exactly if it holds no reference.** -/
theorem decode_eq_self_iff (refs : References) (cs : List Char) :
    refs.decode cs = cs ↔ ¬refs.HeldIn cs := by
  fun_induction decode refs cs with
  | case1 => exact iff_of_true rfl not_heldIn_nil
  | case2 cs d rest hcut ih =>
    refine iff_of_false (fun heq => ?_) (not_not_intro (heldIn_cons.2 (.inl ⟨rfl, by simp [hcut]⟩)))
    have hshort := length_lt_of_cut? hcut
    have hlength := length_decode_le refs rest
    rw [(List.cons.inj heq).2] at hlength
    omega
  | case3 cs hcut ih => simp [heldIn_cons, hcut, ih]
  | case4 c cs hc ih => simp [heldIn_cons, hc, ih]

end References

/-! ## Quotes in literals

A quote is always written as one reference.  An ampersand is written as it is, and so a literal may
hold what looks like a reference. -/

/-- A literal as it is written, with its quotes as references. -/
def encodeQuotes (cs : List Char) : List Char :=
  cs.flatMap fun c => if c == '"' then '&' :: (quoteNumber ++ [';']) else [c]

section

variable {refs : References} {cs rest : List Char} {c : Char}

/-- Replacing the quotes of a literal is writing them as references. -/
theorem toList_replaceChar_quote (s : String) :
    (Text.replaceChar '"' "&#x22;" s).toList = encodeQuotes s.toList := by
  have hquote : ("&#x22;" : String).toList = '&' :: (quoteNumber ++ [';']) := rfl
  rw [Text.replaceChar, Text.expand, String.toList_ofList, hquote]
  rfl

theorem encodeQuotes_quote (cs : List Char) :
    encodeQuotes ('"' :: cs) = '&' :: (quoteNumber ++ ';' :: encodeQuotes cs) :=
  rfl

theorem encodeQuotes_cons (hc : c ≠ '"') (cs : List Char) :
    encodeQuotes (c :: cs) = c :: encodeQuotes cs := by
  simp [encodeQuotes, hc]

/-- No quote is left in a literal that is written. -/
theorem ne_quote_of_mem_encodeQuotes (h : c ∈ encodeQuotes cs) : c ≠ '"' := by
  obtain ⟨d, -, hc⟩ := List.mem_flatMap.1 h
  split at hc
  · rintro rfl
    revert hc
    decide
  · next hd =>
    obtain rfl := List.mem_singleton.1 hc
    simpa using hd

/-- Writing the quotes as references changes nothing before the first of them. -/
theorem takeWhile_encodeQuotes (cs : List Char) :
    (encodeQuotes cs).takeWhile isReferenceChar = cs.takeWhile isReferenceChar ∧
      (encodeQuotes cs).dropWhile isReferenceChar =
        encodeQuotes (cs.dropWhile isReferenceChar) := by
  induction cs with
  | nil => exact ⟨rfl, rfl⟩
  | cons c cs ih =>
    by_cases hc : c = '"'
    · subst hc
      exact ⟨rfl, rfl⟩
    · rw [encodeQuotes_cons hc]
      cases hchar : isReferenceChar c with
      | true => simp [hchar, ih]
      | false => simp [hchar, encodeQuotes_cons hc]

/-- What goes on as a reference does so before and behind the writing of quotes. -/
theorem cut?_encodeQuotes (cs : List Char) : refs.cut? (encodeQuotes cs) =
    (refs.cut? cs).map fun (c, rest) => (c, encodeQuotes rest) := by
  obtain ⟨htake, hdrop⟩ := takeWhile_encodeQuotes cs
  rw [References.cut?, References.cut?, htake, hdrop]
  cases cs.dropWhile isReferenceChar with
  | nil => rfl
  | cons d ds =>
    by_cases hquote : d = '"'
    · subst hquote
      rfl
    · rw [encodeQuotes_cons hquote]
      by_cases hd : d = ';'
      · subst hd
        simp only [Option.map_map]
        rfl
      · simp [hd]

/-- The reference to a quote is decoded to a quote. -/
theorem decode_quote (refs : References) (cs : List Char) :
    refs.decode ('&' :: (quoteNumber ++ ';' :: cs)) = '"' :: refs.decode cs :=
  References.decode_of_cut?
    (References.cut?_eq_some_iff.2 ⟨quoteNumber, rfl, List.all_eq_true.1 rfl, refs.quote⟩)

/-- **A reader gets a literal with its references decoded.** -/
theorem decode_encodeQuotes (refs : References) (cs : List Char) :
    refs.decode (encodeQuotes cs) = refs.decode cs := by
  fun_induction References.decode refs cs with
  | case1 => simp [encodeQuotes, References.decode]
  | case2 cs d rest hcut _ ih =>
    have hcut' : refs.cut? (encodeQuotes cs) = some (d, encodeQuotes rest) := by
      rw [cut?_encodeQuotes, hcut]
      rfl
    rw [encodeQuotes_cons (by decide), References.decode_of_cut? hcut', ih]
  | case3 cs hcut ih =>
    have hcut' : refs.cut? (encodeQuotes cs) = none := by
      rw [cut?_encodeQuotes, hcut]
      rfl
    rw [encodeQuotes_cons (by decide), References.decode_of_cut?_eq_none hcut', ih]
  | case4 c cs hc ih =>
    by_cases hquote : c = '"'
    · rw [hquote, encodeQuotes_quote, decode_quote, ih]
    · rw [encodeQuotes_cons hquote, References.decode_cons hc, ih]

/-- A literal is written alike before and after its references to quotes have been decoded. -/
theorem encodeQuotes_decode_quoteOnly (cs : List Char) :
    encodeQuotes (References.quoteOnly.decode cs) = encodeQuotes cs := by
  fun_induction References.decode References.quoteOnly cs with
  | case1 => rfl
  | case2 cs d rest hcut _ ih =>
    obtain ⟨body, rfl, hbody, hchar⟩ := References.cut?_eq_some_iff.1 hcut
    have hquote : body = quoteNumber ∧ d = '"' := by
      simpa [References.quoteOnly, eq_comm] using hchar
    obtain ⟨rfl, rfl⟩ := hquote
    rw [encodeQuotes_quote, ih]
    rfl
  | case3 cs _ ih => rw [encodeQuotes_cons (by decide), encodeQuotes_cons (by decide), ih]
  | case4 c cs _ ih =>
    by_cases hquote : c = '"'
    · rw [hquote, encodeQuotes_quote, encodeQuotes_quote, ih]
    · rw [encodeQuotes_cons hquote, encodeQuotes_cons hquote, ih]

end

/-! ## Reading

The reader knows nothing of how attributes are written.  It takes a name, an equals sign, and a
literal or an expression. -/

open Text

section

variable (letter : Char → Bool) (refs : References)

/-- A character of the name of an attribute. -/
def isNamePart (c : Char) : Bool :=
  Script.isNameChar letter c || c == '-'

/-- A name that an attribute can have: an identifier that may hold hyphens behind its first
character. -/
structure IsAttributeName (name : String) : Prop where
  chars : ∀ c ∈ name.toList, isNamePart letter c = true
  start : ∃ c ∈ name.toList.head?, c.isDigit = false ∧ c ≠ '-'

/-- An attribute with such a name and with a literal or a JSON text as its value. -/
structure IsReadable (a : Attribute) : Prop where
  name : IsAttributeName letter a.name
  value : (∃ s, a.value = .text s) ∨
    ∃ source v, a.value = .expression source ∧ Json.read source = .ok v

/-- The value of an attribute at the start of a text, and what stands behind it. -/
def readValue? : List Char → Option (AttributeValue × List Char)
  | '"' :: cs =>
    match cs.dropWhile (· != '"') with
    | '"' :: rest => some (.text (String.ofList (refs.decode (cs.takeWhile (· != '"')))), rest)
    | _ => none
  | '\x7b' :: cs =>
    (cutExpression? 0 .code cs).map fun (source, rest) =>
      (.expression (String.ofList source), rest)
  | _ => none

/-- An attribute at the start of a text, and what stands behind it. -/
def readAttribute? (cs : List Char) : Option (Attribute × List Char) :=
  let name := cs.takeWhile (isNamePart letter)
  if name.head?.any fun c => !c.isDigit && c != '-' then
    match cs.dropWhile (isNamePart letter) with
    | '=' :: rest =>
      (readValue? refs rest).map fun (value, rest) => (⟨String.ofList name, value⟩, rest)
    | _ => none
  else none

/-- The attributes that a text is made of; `fuel` bounds their number. -/
def readEach? : Nat → List Char → Option (List Attribute)
  | 0, _ => none
  | fuel + 1, cs =>
    match cs.dropWhile Char.isWhitespace with
    | [] => some []
    | cs => do
      let (a, rest) ← readAttribute? letter refs cs
      return a :: (← readEach? fuel rest)

/-- The attributes that a text is made of. -/
def readAttributes? (s : String) : Option (List Attribute) :=
  readEach? letter refs (s.toList.length + 1) s.toList

/-- An attribute with the references in its literal decoded. -/
def decoded (a : Attribute) : Attribute :=
  match a.value with
  | .text s => { a with value := .text (String.ofList (refs.decode s.toList)) }
  | _ => a

end

/-! ## Single attributes

A literal cannot end before its quote, and an expression not before its brace, for the braces in a
JSON text are all closed. -/

variable {letter : Char → Bool} {refs : References} {a : Attribute} {attributes : List Attribute}

/-- A literal is read up to its closing quote, and decoded. -/
theorem readValue?_literal (s : String) (rest : List Char) :
    readValue? refs ('"' :: (encodeQuotes s.toList ++ '"' :: rest)) =
      some (.text (String.ofList (refs.decode s.toList)), rest) := by
  have hquotes : ∀ c ∈ encodeQuotes s.toList, (c != '"') = true :=
    fun c hc => bne_iff_ne.2 (ne_quote_of_mem_encodeQuotes hc)
  rw [readValue?, List.takeWhile_append_of_pos hquotes, List.dropWhile_append_of_pos hquotes]
  simp [decode_encodeQuotes]

/-- An expression is read up to its closing brace, and left as it is. -/
theorem readValue?_expression {source : String} {v : Value} (h : Json.read source = .ok v)
    (rest : List Char) : readValue? refs ('\x7b' :: (source.toList ++ '\x7d' :: rest)) =
      some (.expression source, rest) := by
  rw [readValue?, cutExpression?_append (Json.passes_of_read h)]
  simp

theorem isWhitespace_of_isNamePart {c : Char} (h : isNamePart letter c = true) :
    c.isWhitespace = false := by
  rw [← Bool.not_eq_true]
  intro hblank
  simp only [Char.isWhitespace, Bool.or_eq_true, decide_eq_true_eq] at hblank
  obtain ((rfl | rfl) | rfl) | rfl := hblank <;> cases h

theorem isNamePart_equals : isNamePart letter '=' = false :=
  rfl

/-- Behind the name of an attribute and an equals sign its value is read. -/
theorem readAttribute?_name {name : String} {value : AttributeValue} {cs rest : List Char}
    (hname : IsAttributeName letter name) (h : readValue? refs cs = some (value, rest)) :
    readAttribute? letter refs (name.toList ++ '=' :: cs) = some (⟨name, value⟩, rest) := by
  obtain ⟨c, hc, hstart⟩ := hname.start
  have hhead : (name.toList.head?.any fun c => !c.isDigit && c != '-') = true := by
    rw [Option.mem_def.1 hc]
    simpa using hstart
  rw [readAttribute?, List.takeWhile_append_of_pos hname.chars,
    List.dropWhile_append_of_pos hname.chars, List.takeWhile_cons, List.dropWhile_cons,
    isNamePart_equals]
  simp [hhead, h]

/-- **An attribute is read back** up to the references in its literal, whatever stands behind it. -/
theorem readAttribute?_attributeText (refs : References) (h : IsReadable letter a) :
    ∃ text, attributeText a = .ok (a.name ++ text) ∧ ∀ rest,
      readAttribute? letter refs (a.name.toList ++ (text.toList ++ rest)) =
        some (decoded refs a, rest) := by
  obtain ⟨name, value⟩ := a
  obtain ⟨s, rfl⟩ | ⟨source, v, rfl, hv⟩ := h.value
  · refine ⟨"=\"" ++ replaceChar '"' "&#x22;" s ++ "\"", ?_, fun rest => ?_⟩
    · simp [attributeText, String.append_assoc]
    · have htext : ("=\"" ++ replaceChar '"' "&#x22;" s ++ "\"").toList ++ rest =
          '=' :: '"' :: (encodeQuotes s.toList ++ '"' :: rest) := by
        simp [toList_replaceChar_quote]
      rw [htext]
      exact readAttribute?_name h.name (readValue?_literal s rest)
  · refine ⟨"=\x7b" ++ source ++ "\x7d", ?_, fun rest => ?_⟩
    · simp [attributeText, String.append_assoc]
    · have htext : ("=\x7b" ++ source ++ "\x7d").toList ++ rest =
          '=' :: '\x7b' :: (source.toList ++ '\x7d' :: rest) := by
        simp
      rw [htext]
      exact readAttribute?_name h.name (readValue?_expression hv rest)

/-! ## Attributes in a row

Attributes are parted by blanks, and a blank is in no name, so that each is read to its end. -/

/-- Each attribute stands behind a blank. -/
theorem attributesText_cons (a : Attribute) (attributes : List Attribute) :
    attributesText (a :: attributes) = do
      let first ← attributeText a
      let rest ← attributesText attributes
      return " " ++ first ++ rest := by
  rw [attributesText, List.mapM_cons, attributesText]
  cases attributeText a with
  | error f => rfl
  | ok first =>
    cases attributes.mapM attributeText with
    | error f => rfl
    | ok rest => exact congrArg Except.ok String.join_cons

/-- The blanks before a name end with it. -/
theorem dropWhile_blank_name {name : String} (hname : IsAttributeName letter name)
    (cs : List Char) :
    ∃ c tail, name.toList ++ cs = c :: tail ∧
      (' ' :: (name.toList ++ cs)).dropWhile Char.isWhitespace = c :: tail := by
  obtain ⟨c, hc, -⟩ := hname.start
  obtain ⟨tail, htail⟩ := List.head?_eq_some_iff.1 hc
  have hblank : c.isWhitespace = false :=
    isWhitespace_of_isNamePart (hname.chars c (List.mem_of_head? hc))
  refine ⟨c, tail ++ cs, by rw [htail]; rfl, ?_⟩
  rw [htail, List.cons_append, List.dropWhile_cons_of_pos rfl,
    List.dropWhile_cons_of_neg (Bool.not_eq_true _ ▸ hblank)]

/-- Attributes are read back one after the other. -/
theorem readEach?_attributesText (refs : References) (h : ∀ a ∈ attributes, IsReadable letter a) :
    ∃ text, attributesText attributes = .ok text ∧ attributes.length ≤ text.toList.length ∧
      ∀ fuel, attributes.length < fuel →
        readEach? letter refs fuel text.toList = some (attributes.map (decoded refs)) := by
  induction attributes with
  | nil =>
    refine ⟨"", rfl, Nat.le_refl _, fun fuel hfuel => ?_⟩
    obtain ⟨fuel, rfl⟩ := Nat.exists_eq_add_one.2 hfuel
    rfl
  | cons a attributes ih =>
    rw [List.forall_mem_cons] at h
    obtain ⟨first, hfirst, hread⟩ := readAttribute?_attributeText refs h.1
    obtain ⟨rest, hrest, hlength, hreadRest⟩ := ih h.2
    have htext : (" " ++ (a.name ++ first) ++ rest).toList =
        ' ' :: (a.name.toList ++ (first.toList ++ rest.toList)) := by
      simp
    refine ⟨" " ++ (a.name ++ first) ++ rest, ?_, ?_, fun fuel hfuel => ?_⟩
    · rw [attributesText_cons, hfirst, hrest]
      rfl
    · rw [htext]
      simp only [List.length_cons, List.length_append]
      omega
    · obtain ⟨fuel, rfl⟩ := Nat.exists_eq_add_one.2 (Nat.zero_lt_of_lt hfuel)
      obtain ⟨c, tail, hname, hblanks⟩ :=
        dropWhile_blank_name h.1.name (first.toList ++ rest.toList)
      rw [htext, readEach?, hblanks, List.map_cons]
      simp only [← hname, hread, Option.bind_eq_bind, Option.bind_some]
      rw [hreadRest fuel (Nat.lt_of_succ_lt_succ hfuel)]
      rfl

/-- An attribute stays as it is if its literal holds no reference. -/
theorem decoded_eq_self_iff : decoded refs a = a ↔
    ∀ s, a.value = .text s → ¬refs.HeldIn s.toList := by
  obtain ⟨name, value⟩ := a
  cases value with
  | text s =>
    have hliteral : String.ofList (refs.decode s.toList) = s ↔ ¬refs.HeldIn s.toList := by
      rw [← References.decode_eq_self_iff, ← String.toList_inj, String.toList_ofList]
    simpa [decoded] using hliteral
  | expression source => simp [decoded]
  | other v => simp [decoded]

theorem attributeText_decoded_quoteOnly (a : Attribute) :
    attributeText (decoded .quoteOnly a) = attributeText a := by
  obtain ⟨name, value⟩ := a
  cases value with
  | text s =>
    have hliteral :
        replaceChar '"' "&#x22;" (String.ofList (References.quoteOnly.decode s.toList)) =
          replaceChar '"' "&#x22;" s := by
      rw [← String.toList_inj, toList_replaceChar_quote, toList_replaceChar_quote,
        String.toList_ofList, encodeQuotes_decode_quoteOnly]
    simp only [decoded, attributeText, hliteral]
  | expression source => rfl
  | other v => rfl

/-- Attributes with their quotes written out or as references have the same text. -/
theorem attributesText_decoded_quoteOnly (attributes : List Attribute) :
    attributesText (attributes.map (decoded .quoteOnly)) = attributesText attributes := by
  have hattribute : attributeText ∘ decoded .quoteOnly = attributeText :=
    funext attributeText_decoded_quoteOnly
  rw [attributesText, attributesText, List.mapM_map, hattribute]

/-- What a reader gets from the text of some attributes. -/
theorem readAttributes?_of_attributesText {text : String} (refs : References)
    (h : ∀ a ∈ attributes, IsReadable letter a) (htext : attributesText attributes = .ok text) :
    readAttributes? letter refs text = some (attributes.map (decoded refs)) := by
  obtain ⟨written, hwritten, hlength, hread⟩ := readEach?_attributesText refs h
  obtain rfl := Except.ok.inj (hwritten.symm.trans htext)
  exact hread _ (Nat.lt_succ_of_le hlength)

/-- **A reader gets the attributes of a tag back with the references in their literals decoded**, so
it gets them back exactly if their literals hold none.  **Other attributes have the same text
exactly if they differ in nothing but quotes and references to quotes in their literals.** -/
theorem readAttributes?_attributesText (letter : Char → Bool) (refs : References)
    {attributes : List Attribute} (h : ∀ a ∈ attributes, IsReadable letter a) :
    ∃ text, attributesText attributes = .ok text ∧
      readAttributes? letter refs text = some (attributes.map (decoded refs)) ∧
      (readAttributes? letter refs text = some attributes ↔
        ∀ a ∈ attributes, ∀ s, a.value = .text s → ¬refs.HeldIn s.toList) ∧
      ∀ others : List Attribute, (∀ a ∈ others, IsReadable letter a) →
        (attributesText others = .ok text ↔
          others.map (decoded .quoteOnly) = attributes.map (decoded .quoteOnly)) := by
  obtain ⟨text, htext, -⟩ := readEach?_attributesText refs h
  have hread := readAttributes?_of_attributesText refs h htext
  refine ⟨text, htext, hread, ?_, fun others hothers => ⟨fun hsame => ?_, fun hsame => ?_⟩⟩
  · rw [hread, Option.some_inj]
    calc attributes.map (decoded refs) = attributes
      _ ↔ attributes.map (decoded refs) = attributes.map id := by rw [List.map_id]
      _ ↔ ∀ a ∈ attributes, decoded refs a = a := List.map_inj_left
      _ ↔ _ := forall₂_congr fun a _ => decoded_eq_self_iff
  · have hread := readAttributes?_of_attributesText .quoteOnly h htext
    have hreadOthers := readAttributes?_of_attributesText .quoteOnly hothers hsame
    exact Option.some_inj.1 (hreadOthers.symm.trans hread)
  · rw [← attributesText_decoded_quoteOnly, hsame, attributesText_decoded_quoteOnly, htext]

/-- References to a quote, by its number and by its name, and to the sign that references begin
with. -/
def References.common : References where
  char? body :=
    if body = quoteNumber ∨ body = ['q', 'u', 'o', 't'] then some '"'
    else if body = ['a', 'm', 'p'] then some '&'
    else none
  quote := rfl

/-- A literal with quotes and with what only looks like a reference, and an expression with a brace
in a string. -/
def sampleAttributes : List Attribute :=
  [⟨"title", .text "say \"hi\" & R&D; ok"⟩,
    ⟨"data-items", .expression (Json.write .compact (.obj [("a", .arr [.str "\x7d"])]))⟩]

/-- The sample attributes can be read. -/
theorem isReadable_sampleAttributes : ∀ a ∈ sampleAttributes, IsReadable (fun _ => false) a := by
  have hstyle : Json.Style.compact.Spaced :=
    ⟨⟨[], rfl, by simp⟩, ⟨[], rfl, by simp⟩, by simp [Json.Style.compact], rfl⟩
  have hplain : (Value.obj [("a", .arr [.str "\x7d"])]).Plain := by
    simp [Value.Plain, Value.PlainIn, Value.PlainEach, Entries.keys]
  have htitle : IsAttributeName (fun _ => false) "title" :=
    ⟨List.all_eq_true.1 rfl, _, rfl, by decide⟩
  have hitems : IsAttributeName (fun _ => false) "data-items" :=
    ⟨List.all_eq_true.1 rfl, _, rfl, by decide⟩
  exact List.forall_mem_cons.2 ⟨⟨htitle, .inl ⟨_, rfl⟩⟩,
    List.forall_mem_singleton.2 ⟨hitems, .inr ⟨_, _, rfl, Json.read_write hstyle hplain⟩⟩⟩

/-- They are read back, quotes and all. -/
theorem readAttributes?_attributesText_sample :
    (∀ a ∈ sampleAttributes, IsReadable (fun _ => false) a) ∧
      ∃ text, attributesText sampleAttributes = .ok text ∧
        readAttributes? (fun _ => false) .common text = some sampleAttributes := by
  obtain ⟨text, htext, -, hsame, -⟩ :=
    readAttributes?_attributesText (fun _ => false) .common isReadable_sampleAttributes
  refine ⟨isReadable_sampleAttributes, text, htext, hsame.2 fun a ha s hs => ?_⟩
  obtain rfl | ha := List.mem_cons.1 ha
  · obtain rfl := AttributeValue.text.inj hs
    decide
  · obtain rfl := List.mem_singleton.1 ha
    cases hs

/-- **A quote and the reference to it have the same text**, and a reader gets the quote from it. -/
theorem attributesText_of_reference :
    attributesText [⟨"title", .text "&#x22;"⟩] = .ok " title=\"&#x22;\"" ∧
      attributesText [⟨"title", .text "\""⟩] = .ok " title=\"&#x22;\"" ∧
      readAttributes? (fun _ => false) .common " title=\"&#x22;\"" =
        some [⟨"title", .text "\""⟩] := by
  have hreadable : ∀ a ∈ [(⟨"title", .text "\""⟩ : Attribute)], IsReadable (fun _ => false) a :=
    List.forall_mem_singleton.2 ⟨⟨List.all_eq_true.1 rfl, _, rfl, by decide⟩, .inl ⟨_, rfl⟩⟩
  have hdecode : References.common.decode ['"'] = ['"'] :=
    (References.decode_eq_self_iff _ _).2 (by decide)
  have htext : attributesText [⟨"title", .text "\""⟩] = .ok " title=\"&#x22;\"" := rfl
  refine ⟨rfl, htext, (readAttributes?_of_attributesText .common hreadable htext).trans ?_⟩
  simp [decoded, hdecode]

end MdxPages.Mdx
