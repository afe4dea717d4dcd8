import MdxPages.Proofs.Mdx.Attributes

/-!
# Proofs/Mdx/Destination — what a reader gets from the destination of a link

A destination stands bare, or between angle brackets where it has white space, a parenthesis or an
angle bracket in it; nothing is escaped in either form.  A reader ends a bare destination at the
first white space, control character or closing parenthesis without a partner, one in brackets at
the first bracket, and takes a backslash together with the punctuation behind it; then it decodes
what it has read.  So **a reader gets a URL back exactly if nothing in it is a sign to the reader**
(`readDestination?_nodeText`).
-/

namespace MdxPages.Mdx

open Text

/-! ## Escapes

A backslash counts only before punctuation.  Elsewhere it stands for itself, as in a path. -/

/-- Punctuation that a backslash escapes. -/
def isPunctuation (c : Char) : Bool :=
  ('!' ≤ c && c ≤ '/') || (':' ≤ c && c ≤ '@') || ('[' ≤ c && c ≤ '`') || ('\x7b' ≤ c && c ≤ '~')

/-- Some text holds a backslash before punctuation. -/
def HoldsEscape (cs : List Char) : Prop :=
  ∃ before c after, cs = before ++ '\\' :: c :: after ∧ isPunctuation c = true

variable {refs : References} {cs xs rest raw : List Char} {c d : Char}

theorem not_holdsEscape_nil : ¬HoldsEscape [] := by
  rintro ⟨before, c, after, h, -⟩
  simp at h

theorem not_holdsEscape_singleton (c : Char) : ¬HoldsEscape [c] := by
  rintro ⟨before, d, after, h, -⟩
  have hlength := congrArg List.length h
  simp at hlength
  omega

/-- A text holds an escape in its first two characters, or further on. -/
theorem holdsEscape_cons_cons :
    HoldsEscape (c :: d :: cs) ↔ c = '\\' ∧ isPunctuation d = true ∨ HoldsEscape (d :: cs) := by
  constructor
  · rintro ⟨before, e, after, h, he⟩
    rcases before with _ | ⟨b, before⟩
    · obtain ⟨hslash, h⟩ := List.cons.inj h
      obtain ⟨rfl, -⟩ := List.cons.inj h
      exact .inl ⟨hslash, he⟩
    · exact .inr ⟨before, e, after, (List.cons.inj h).2, he⟩
  · rintro (⟨rfl, hd⟩ | ⟨before, e, after, h, he⟩)
    · exact ⟨[], d, cs, rfl, hd⟩
    · exact ⟨c :: before, e, after, by rw [h]; rfl, he⟩

/-- A longer text holds the escapes of a shorter one. -/
theorem HoldsEscape.cons (h : HoldsEscape cs) (c : Char) : HoldsEscape (c :: cs) := by
  obtain ⟨before, d, after, rfl, hd⟩ := h
  exact ⟨c :: before, d, after, rfl, hd⟩

instance decidableHoldsEscape : (cs : List Char) → Decidable (HoldsEscape cs)
  | [] => .isFalse not_holdsEscape_nil
  | [c] => .isFalse (not_holdsEscape_singleton c)
  | _ :: d :: cs =>
    have := decidableHoldsEscape (d :: cs)
    decidable_of_iff' _ holdsEscape_cons_cons

/-- What a destination stands for: its escapes and its references decoded. -/
def References.unescape (refs : References) : List Char → List Char
  | [] => []
  | [c] => [c]
  | c :: d :: cs =>
    if c = '\\' ∧ isPunctuation d = true then d :: refs.unescape cs
    else if c = '&' then
      match hcut : refs.cut? (d :: cs) with
      | some (e, rest) =>
        have _hshort : rest.length < cs.length + 1 := References.length_lt_of_cut? hcut
        e :: refs.unescape rest
      | none => c :: refs.unescape (d :: cs)
    else c :: refs.unescape (d :: cs)
termination_by cs => cs.length

/-- Decoding makes no destination longer. -/
theorem References.length_unescape_le (refs : References) (cs : List Char) :
    (refs.unescape cs).length ≤ cs.length := by
  fun_induction refs.unescape cs with
  | case1 => exact Nat.le_refl _
  | case2 => exact Nat.le_refl _
  | case3 c d cs _ ih =>
    simp only [List.length_cons]
    omega
  | case4 d cs e rest _ hshort _ ih =>
    simp only [List.length_cons]
    omega
  | case5 d cs _ _ ih => simpa using ih
  | case6 c d cs _ _ ih => simpa using ih

/-- **A text stands for itself exactly if it holds neither an escape nor a reference.** -/
theorem References.unescape_eq_self_iff (refs : References) (cs : List Char) :
    refs.unescape cs = cs ↔ ¬HoldsEscape cs ∧ ¬refs.HeldIn cs := by
  fun_induction refs.unescape cs with
  | case1 => exact iff_of_true rfl ⟨not_holdsEscape_nil, References.not_heldIn_nil⟩
  | case2 c =>
    have hcut : refs.cut? [] = none := rfl
    refine iff_of_true rfl ⟨not_holdsEscape_singleton c, ?_⟩
    simp [References.heldIn_cons, hcut, References.not_heldIn_nil]
  | case3 c d cs hescape ih =>
    refine iff_of_false (fun heq => ?_) fun h => h.1 (holdsEscape_cons_cons.2 (.inl hescape))
    have hlength := refs.length_unescape_le cs
    have hsame := congrArg List.length heq
    simp only [List.length_cons] at hsame
    omega
  | case4 d cs e rest hcut hshort hescape ih =>
    refine iff_of_false (fun heq => ?_) fun h =>
      h.2 (References.heldIn_cons.2 (.inl ⟨rfl, by rw [hcut]; rfl⟩))
    have hlength := refs.length_unescape_le rest
    have hsame := congrArg List.length heq
    simp only [List.length_cons] at hsame
    omega
  | case5 d cs hcut hescape ih =>
    simp [holdsEscape_cons_cons, References.heldIn_cons, hcut, ih]
  | case6 c d cs hescape hsign ih =>
    simp [holdsEscape_cons_cons, References.heldIn_cons, hescape, hsign, ih]

/-! ## Reading

The reader takes what belongs to the destination and decodes it then, so a reference cannot end it.
-/

/-- The control characters of ASCII. -/
def isControl (c : Char) : Bool :=
  c.toNat < 32 || c.toNat == 127

/-- What stands before the bracket that closes a destination, and what stands behind it; `slash`
says whether a backslash stands just before that belongs to no character before it. -/
def cutAngle? (slash : Bool) : List Char → Option (List Char × List Char)
  | [] => none
  | c :: cs =>
    if slash && isPunctuation c then
      (cutAngle? false cs).map fun (raw, rest) => (c :: raw, rest)
    else if c = '>' then some ([], cs)
    else if c = '<' ∨ c = '\n' ∨ c = '\r' then none
    else (cutAngle? (c == '\\') cs).map fun (raw, rest) => (c :: raw, rest)

/-- How many parentheses are open behind a character, given how many are open before it. -/
def depthBehind (depth : Nat) (c : Char) : Nat :=
  if c = '(' then depth + 1 else if c = ')' then depth - 1 else depth

/-- A bare destination, and what stands behind it; `depth` counts the parentheses that are open. -/
def cutBare? (slash : Bool) (depth : Nat) : List Char → Option (List Char × List Char)
  | [] => if depth = 0 then some ([], []) else none
  | c :: cs =>
    if slash && isPunctuation c then
      (cutBare? false depth cs).map fun (raw, rest) => (c :: raw, rest)
    else if c = ' ' ∨ isControl c = true ∨ c = ')' ∧ depth = 0 then
      if depth = 0 then some ([], c :: cs) else none
    else
      (cutBare? (c == '\\') (depthBehind depth c) cs).map fun (raw, rest) => (c :: raw, rest)

/-- The destination that a text starts with, as it is written, and what stands behind it. -/
def cutDestination? : List Char → Option (List Char × List Char)
  | '<' :: cs => cutAngle? false cs
  | cs => (cutBare? false 0 cs).filter fun (raw, _) => !raw.isEmpty

/-- Read the destination that a text starts with: where it leads, and the text behind it. -/
def readDestination? (refs : References) (s : String) : Option (String × String) :=
  (cutDestination? s.toList).map fun (raw, rest) =>
    (String.ofList (refs.unescape raw), String.ofList rest)

/-- What is cut off is decoded. -/
theorem readDestination?_of_cut {s : String} (h : cutDestination? s.toList = some (raw, rest)) :
    readDestination? refs s = some (String.ofList (refs.unescape raw), String.ofList rest) := by
  rw [readDestination?, h]
  rfl

/-! ## Where a destination ends

A text without escapes is looked through character by character.  Whether the reader gets to its end
depends on the signs in it and on nothing behind it. -/

theorem map_cons_eq_some_iff {o : Option (List Char × List Char)} :
    (o.map fun (raw, rest) => (c :: raw, rest)) = some (d :: xs, rest) ↔
      c = d ∧ o = some (xs, rest) := by
  rcases o with _ | ⟨raw, after⟩
  · simp
  · simp [and_assoc]

/-- What is put together behind a character starts with it. -/
theorem exists_of_map_cons {o : Option (List Char × List Char)}
    (h : (o.map fun (raw, rest) => (c :: raw, rest)) = some (raw, rest)) :
    ∃ xs, raw = c :: xs ∧ o = some (xs, rest) := by
  obtain ⟨⟨xs, after⟩, ho, h⟩ := Option.map_eq_some_iff.1 h
  obtain ⟨rfl, rfl⟩ := Prod.mk.inj h
  exact ⟨xs, rfl, ho⟩

/-- Reading up to a bracket loses nothing. -/
theorem eq_of_cutAngle? {slash : Bool} (h : cutAngle? slash cs = some (raw, rest)) :
    cs = raw ++ '>' :: rest := by
  induction cs generalizing slash raw with
  | nil => cases h
  | cons c cs ih =>
    rw [cutAngle?] at h
    split_ifs at h with hescape hclosing hbroken
    · obtain ⟨raw, rfl, hcut⟩ := exists_of_map_cons h
      rw [ih hcut, List.cons_append]
    · obtain ⟨rfl, rfl⟩ := Prod.mk.inj (Option.some.inj h)
      rw [hclosing, List.nil_append]
    · obtain ⟨raw, rfl, hcut⟩ := exists_of_map_cons h
      rw [ih hcut, List.cons_append]

/-- Reading a bare destination loses nothing. -/
theorem eq_of_cutBare? {slash : Bool} {depth : Nat}
    (h : cutBare? slash depth cs = some (raw, rest)) : cs = raw ++ rest := by
  induction cs generalizing slash depth raw with
  | nil =>
    rw [cutBare?] at h
    split_ifs at h
    obtain ⟨rfl, rfl⟩ := Prod.mk.inj (Option.some.inj h)
    rfl
  | cons c cs ih =>
    rw [cutBare?] at h
    split_ifs at h with hescape hend hdepth
    · obtain ⟨raw, rfl, hcut⟩ := exists_of_map_cons h
      rw [ih hcut, List.cons_append]
    · obtain ⟨rfl, rfl⟩ := Prod.mk.inj (Option.some.inj h)
      rfl
    · obtain ⟨raw, rfl, hcut⟩ := exists_of_map_cons h
      rw [ih hcut, List.cons_append]

/-- A character behind a backslash is no punctuation where there are no escapes, and what goes on
from it has none. -/
theorem goesOn_of_not_holdsEscape {slash : Bool}
    (h : ¬HoldsEscape (if slash then '\\' :: c :: xs else c :: xs)) :
    (slash && isPunctuation c) = false ∧
      ¬HoldsEscape (if (c == '\\') = true then '\\' :: xs else xs) := by
  have htail : ¬HoldsEscape (c :: xs) := by
    cases slash with
    | false => exact h
    | true => exact fun hc => h (hc.cons _)
  constructor
  · rw [← Bool.not_eq_true, Bool.and_eq_true]
    rintro ⟨rfl, hc⟩
    exact h (holdsEscape_cons_cons.2 (.inl ⟨rfl, hc⟩))
  · split_ifs with hc
    · rwa [← eq_of_beq hc]
    · exact fun hxs => htail (hxs.cons c)

theorem getLast?_cons_ne_iff :
    (c :: xs).getLast? ≠ some '\\' ↔ xs.getLast? ≠ some '\\' ∧ (xs = [] → (c == '\\') = false) := by
  rcases xs with _ | ⟨d, xs⟩
  · simp
  · simp

/-- **A text without escapes is read up to the bracket behind it** exactly if it has no bracket and
no line end in it and does not end with a backslash. -/
theorem cutAngle?_append_iff {slash : Bool}
    (hescape : ¬HoldsEscape (if slash then '\\' :: xs else xs)) :
    cutAngle? slash (xs ++ '>' :: rest) = some (xs, rest) ↔
      (∀ c ∈ xs, c ≠ '>' ∧ c ≠ '<' ∧ c ≠ '\n' ∧ c ≠ '\r') ∧ xs.getLast? ≠ some '\\' ∧
        (xs = [] → slash = false) := by
  induction xs generalizing slash with
  | nil =>
    have hclosing : isPunctuation '>' = true := rfl
    rw [List.nil_append, cutAngle?]
    cases slash with
    | false => simp
    | true => simp [hclosing]
  | cons c xs ih =>
    obtain ⟨hplain, hrest⟩ := goesOn_of_not_holdsEscape hescape
    rw [List.cons_append, cutAngle?, hplain, if_neg Bool.false_ne_true, List.forall_mem_cons,
      getLast?_cons_ne_iff]
    split_ifs with hclosing hbroken
    · simp [hclosing]
    · refine iff_of_false (fun h => nomatch h) ?_
      rintro ⟨⟨⟨-, hopening, hbreak, hreturn⟩, -⟩, -⟩
      exact hbroken.elim hopening fun h => h.elim hbreak hreturn
    · have hc : c ≠ '>' ∧ c ≠ '<' ∧ c ≠ '\n' ∧ c ≠ '\r' := by
        simpa [hclosing] using hbroken
      rw [map_cons_eq_some_iff, ih hrest]
      simp [hc]

/-- **A text without escapes, spaces and parentheses is read up to the parenthesis behind it**
exactly if it has no control character in it and does not end with a backslash. -/
theorem cutBare?_append_iff {slash : Bool}
    (hescape : ¬HoldsEscape (if slash then '\\' :: xs else xs))
    (hbare : ∀ c ∈ xs, c ≠ ' ' ∧ c ≠ '(' ∧ c ≠ ')') :
    cutBare? slash 0 (xs ++ ')' :: rest) = some (xs, ')' :: rest) ↔
      (∀ c ∈ xs, isControl c = false) ∧ xs.getLast? ≠ some '\\' ∧ (xs = [] → slash = false) := by
  induction xs generalizing slash with
  | nil =>
    have hclosing : isPunctuation ')' = true := rfl
    rw [List.nil_append, cutBare?]
    cases slash with
    | false => simp
    | true => simp [hclosing]
  | cons c xs ih =>
    obtain ⟨hplain, hrest⟩ := goesOn_of_not_holdsEscape hescape
    rw [List.forall_mem_cons] at hbare
    obtain ⟨⟨hspace, hopen, hclose⟩, hbare⟩ := hbare
    have hdepth : depthBehind 0 c = 0 := by rw [depthBehind, if_neg hopen, if_neg hclose]
    rw [List.cons_append, cutBare?, hplain, if_neg Bool.false_ne_true, List.forall_mem_cons,
      getLast?_cons_ne_iff, hdepth]
    cases hcontrol : isControl c with
    | true => simp
    | false =>
      have hend : ¬(c = ' ' ∨ false = true ∨ c = ')' ∧ 0 = 0) := by simp [hspace, hclose]
      rw [if_neg hend, map_cons_eq_some_iff, ih hrest hbare]
      simp

/-! ## Destinations of links

The renderer chooses between two forms by looking at the URL, and escapes nothing in either. -/

/-- URLs in which nothing is a sign to a reader: neither an escape nor a reference, no bracket, no
backslash at the end, and a control character only beside what puts the URL between brackets. -/
structure IsSafeUrl (refs : References) (url : String) : Prop where
  noEscape : ¬HoldsEscape url.toList
  noReference : ¬refs.HeldIn url.toList
  noBracket : ∀ c ∈ url.toList, c ≠ '<' ∧ c ≠ '>'
  noSlash : url.toList.getLast? ≠ some '\\'
  noControl : ∀ c ∈ url.toList, isControl c = true →
    ∃ d ∈ url.toList, isSpace d = true ∨ d = '(' ∨ d = ')'

variable {url : String}

/-- A URL stands between brackets if it is empty or has white space, a parenthesis or a bracket in
it. -/
theorem needsBrackets_iff : needsBrackets url = true ↔ url = "" ∨ ∃ c ∈ url.toList,
    isSpace c = true ∨ c = '(' ∨ c = ')' ∨ c = '<' ∨ c = '>' := by
  simp [needsBrackets, or_assoc]

/-- A URL that stands between brackets, as a reader meets it. -/
theorem cutDestination?_of_needsBrackets (h : needsBrackets url = true) (rest : List Char) :
    cutDestination? ((destinationText url).toList ++ rest) =
      cutAngle? false (url.toList ++ '>' :: rest) := by
  have htext : (destinationText url).toList ++ rest = '<' :: (url.toList ++ '>' :: rest) := by
    simp [destinationText, h]
  rw [htext, cutDestination?]

/-- A URL that stands bare, as a reader meets it. -/
theorem cutDestination?_of_bare (h : ¬needsBrackets url = true) (rest : List Char) :
    cutDestination? ((destinationText url).toList ++ rest) =
      (cutBare? false 0 (url.toList ++ rest)).filter fun (raw, _) => !raw.isEmpty := by
  rw [destinationText, if_neg h]
  rw [needsBrackets_iff, not_or] at h
  have hne : url.toList ≠ [] := fun hnil => h.1 (String.toList_eq_nil_iff.1 hnil)
  obtain ⟨c, cs, hurl⟩ := List.exists_cons_of_ne_nil hne
  have hc : c ≠ '<' := by
    rintro rfl
    exact h.2 ⟨'<', by simp [hurl], by simp⟩
  rw [hurl, List.cons_append, cutDestination?]
  rintro _ hcs
  exact hc (List.cons.inj hcs).1

/-- **A destination that a reader takes as a whole is the URL as it is written.** -/
theorem eq_of_cutDestination?
    (h : cutDestination? ((destinationText url).toList ++ rest) = some (raw, rest)) :
    raw = url.toList := by
  by_cases hbrackets : needsBrackets url = true
  · rw [cutDestination?_of_needsBrackets hbrackets] at h
    exact (List.append_cancel_right (eq_of_cutAngle? h)).symm
  · rw [cutDestination?_of_bare hbrackets, Option.filter_eq_some_iff] at h
    exact (List.append_cancel_right (eq_of_cutBare? h.1)).symm

/-- A URL without escapes is taken as a whole exactly if no bracket, control character or backslash
is in the way. -/
theorem cutDestination?_eq_iff (hlines : ∀ c ∈ url.toList, c ≠ '\n' ∧ c ≠ '\r')
    (hescape : ¬HoldsEscape url.toList) :
    cutDestination? ((destinationText url).toList ++ ')' :: rest) = some (url.toList, ')' :: rest) ↔
      (∀ c ∈ url.toList, c ≠ '<' ∧ c ≠ '>') ∧ url.toList.getLast? ≠ some '\\' ∧
        ∀ c ∈ url.toList, isControl c = true →
          ∃ d ∈ url.toList, isSpace d = true ∨ d = '(' ∨ d = ')' := by
  have hempty : url.toList = [] → false = false := fun _ => rfl
  have hstart : ¬HoldsEscape (if false = true then '\\' :: url.toList else url.toList) := hescape
  by_cases hbrackets : needsBrackets url = true
  · rw [cutDestination?_of_needsBrackets hbrackets, cutAngle?_append_iff hstart]
    constructor
    · rintro ⟨hplain, hslash, -⟩
      refine ⟨fun c hc => ⟨(hplain c hc).2.1, (hplain c hc).1⟩, hslash, fun c hc _ => ?_⟩
      rcases needsBrackets_iff.1 hbrackets with rfl | ⟨d, hd, hsign⟩
      · cases hc
      · have hd' := hplain d hd
        exact ⟨d, hd, by simpa [hd'.1, hd'.2.1] using hsign⟩
    · rintro ⟨hplain, hslash, -⟩
      refine ⟨fun c hc => ?_, hslash, hempty⟩
      exact ⟨(hplain c hc).2, (hplain c hc).1, hlines c hc⟩
  · rw [cutDestination?_of_bare hbrackets]
    rw [needsBrackets_iff, not_or, not_exists] at hbrackets
    obtain ⟨hne, hplain⟩ := hbrackets
    have hbare : ∀ c ∈ url.toList, c ≠ ' ' ∧ c ≠ '(' ∧ c ≠ ')' := by
      intro c hc
      have hc' := fun hsign => hplain c ⟨hc, hsign⟩
      refine ⟨?_, ?_, ?_⟩ <;> rintro rfl <;> exact hc' (by decide)
    have hne' : url.toList ≠ [] := fun hnil => hne (String.toList_eq_nil_iff.1 hnil)
    rw [Option.filter_eq_some_iff, cutBare?_append_iff hstart hbare]
    constructor
    · rintro ⟨⟨hcontrol, hslash, -⟩, -⟩
      refine ⟨fun c hc => ?_, hslash, fun c hc hc' => ?_⟩
      · have hc' := fun hsign => hplain c ⟨hc, hsign⟩
        constructor <;> rintro rfl <;> exact hc' (by decide)
      · rw [hcontrol c hc] at hc'
        cases hc'
    · rintro ⟨-, hslash, hcontrol⟩
      refine ⟨⟨fun c hc => ?_, hslash, hempty⟩, by simp [hne']⟩
      rw [← Bool.not_eq_true]
      intro hc'
      obtain ⟨d, hd, hsign⟩ := hcontrol c hc hc'
      exact hplain d ⟨hd, by rcases hsign with h | h | h <;> simp [h]⟩

/-- **A reader gets the URL of a link back exactly if nothing in it is a sign to the reader**;
whenever it takes the destination of a link as a whole, it gets the URL with its escapes and its
references decoded. -/
theorem readDestination?_nodeText (refs : References) (o : RenderOptions) (marker : String)
    {url : String} {cs : List Node} {texts : List String} (hcs : nodeTexts o marker cs = .ok texts)
    (hlines : ∀ c ∈ url.toList, c ≠ '\n' ∧ c ≠ '\r') :
    ∃ destination,
      nodeText o marker (.link url cs) =
        .ok ("[" ++ String.join texts ++ "](" ++ destination ++ ")") ∧
      ∀ after,
        (∀ read, readDestination? refs (destination ++ ")" ++ after) = some (read, ")" ++ after) →
          read.toList = refs.unescape url.toList) ∧
        (readDestination? refs (destination ++ ")" ++ after) = some (url, ")" ++ after) ↔
          IsSafeUrl refs url) := by
  refine ⟨destinationText url, ?_, fun after => ?_⟩
  · rw [nodeText, hcs]
    rfl
  have htext : (destinationText url ++ ")" ++ after).toList =
      (destinationText url).toList ++ ')' :: after.toList := by
    simp
  have hread (read : String) :
      readDestination? refs (destinationText url ++ ")" ++ after) = some (read, ")" ++ after) ↔
        cutDestination? ((destinationText url).toList ++ ')' :: after.toList) =
            some (url.toList, ')' :: after.toList) ∧
          refs.unescape url.toList = read.toList := by
    have hafter (rest : List Char) :
        String.ofList rest = ")" ++ after ↔ rest = ')' :: after.toList := by
      rw [← String.toList_inj]
      simp
    rw [readDestination?, htext, Option.map_eq_some_iff]
    constructor
    · rintro ⟨⟨raw, rest⟩, hcut, heq⟩
      obtain ⟨hraw, hrest⟩ := Prod.mk.inj heq
      obtain rfl := (hafter rest).1 hrest
      obtain rfl := eq_of_cutDestination? hcut
      exact ⟨hcut, by rw [← hraw, String.toList_ofList]⟩
    · rintro ⟨hcut, hraw⟩
      exact ⟨_, hcut, Prod.ext (by simp [hraw]) ((hafter _).2 rfl)⟩
  refine ⟨fun read h => ((hread read).1 h).2.symm, ?_⟩
  rw [hread, References.unescape_eq_self_iff]
  constructor
  · rintro ⟨hcut, hescape, hreference⟩
    obtain ⟨hbracket, hslash, hcontrol⟩ := (cutDestination?_eq_iff hlines hescape).1 hcut
    exact ⟨hescape, hreference, hbracket, hslash, hcontrol⟩
  · rintro ⟨hescape, hreference, hbracket, hslash, hcontrol⟩
    exact ⟨(cutDestination?_eq_iff hlines hescape).2 ⟨hbracket, hslash, hcontrol⟩, hescape,
      hreference⟩

/-- A URL with a blank and with parentheses, an ampersand that begins no reference and a backslash
that escapes nothing. -/
theorem readDestination?_nodeText_blank :
    nodeTexts {} "-" [.text "x"] = .ok ["x"] ∧
      (∀ c ∈ "/a b(c)?d\\e&f=1".toList, c ≠ '\n' ∧ c ≠ '\r') ∧
      IsSafeUrl .common "/a b(c)?d\\e&f=1" ∧
      ∃ destination,
        nodeText {} "-" (.link "/a b(c)?d\\e&f=1" [.text "x"]) =
          .ok ("[x](" ++ destination ++ ")") ∧
        readDestination? .common (destination ++ ") and more") =
          some ("/a b(c)?d\\e&f=1", ") and more") := by
  have htexts : nodeTexts {} "-" [.text "x"] = .ok ["x"] := by
    decide
  have hlines : ∀ c ∈ "/a b(c)?d\\e&f=1".toList, c ≠ '\n' ∧ c ≠ '\r' := by
    simp
  have hsafe : IsSafeUrl .common "/a b(c)?d\\e&f=1" :=
    { noEscape := by decide
      noReference := by decide
      noBracket := by simp
      noSlash := by decide
      noControl := fun _ _ _ => ⟨' ', by simp, .inl rfl⟩ }
  obtain ⟨destination, htext, hread⟩ :=
    readDestination?_nodeText .common {} "-" htexts hlines
  refine ⟨htexts, hlines, hsafe, destination, htext, ?_⟩
  have hback := (hread " and more").2.2 hsafe
  rwa [String.append_assoc] at hback

/-- **A bracket in a URL ends its destination**: the destination is read only up to it; with a
backslash before the bracket it is read as the URL. -/
theorem destination_ends_at_bracket :
    nodeText {} "-" (.link "a>b" [.text "x"]) = .ok "[x](<a>b>)" ∧
      readDestination? .common "<a>b>)" = some ("a", "b>)") ∧
      readDestination? .common "<a\\>b>)" = some ("a>b", ")") := by
  have hplain : References.common.unescape ['a'] = ['a'] := by
    rw [References.unescape]
  have hescaped : References.common.unescape ['a', '\\', '>', 'b'] = ['a', '>', 'b'] := by
    simp [References.unescape, isPunctuation]
  have hcut : cutDestination? "<a>b>)".toList = some (['a'], ['b', '>', ')']) := rfl
  have hcutEscaped :
      cutDestination? "<a\\>b>)".toList = some (['a', '\\', '>', 'b'], [')']) := rfl
  refine ⟨by decide, ?_, ?_⟩
  · rw [readDestination?_of_cut hcut, hplain]
  · rw [readDestination?_of_cut hcutEscaped, hescaped]

end MdxPages.Mdx
