import MdxPages.Proofs.References.Literal

/-!
# Proofs/References/Capture — what the pattern of a literal can capture

The pattern of a literal is a quote, a repeated part, and the same quote once more.  However often
the part is repeated, there is one way at most in which the pattern matches at the start of a text,
and reading a literal finds it (`captures_iff_readLiteral`).  So **a literal that was written for a
text is captured from quote to quote, whatever follows it, and stands for that text**
(`decode_captured_literal`).
-/

namespace MdxPages.References

variable {quote : Char} {cs body rest : List Char}

/-- What the repeated part of the pattern takes at one time: a character other than the quote and
the backslash, or a backslash and a character that breaks no line. -/
inductive TakenOnce (quote : Char) : List Char → Prop
  | plain {c : Char} (hslash : c ≠ '\\') (hquote : c ≠ quote) : TakenOnce quote [c]
  | escape {c : Char} (hline : c ≠ '\n') : TakenOnce quote ['\\', c]

/-- A match of the pattern at the start of a text: the quote, what the repeated part has taken one
time after the other, and what the match leaves. -/
structure Captures (cs : List Char) (quote : Char) (body rest : List Char) : Prop where
  isQuote : quote = '\'' ∨ quote = '"'
  text : cs = quote :: (body ++ quote :: rest)
  parts : ∃ parts : List (List Char), (∀ part ∈ parts, TakenOnce quote part) ∧ parts.flatten = body

/-! ## One match at most

The part of the pattern takes one character, or a backslash and one more.  So there is one way to go
on at each place, and it ends at the first quote that is not escaped. -/

/-- What the pattern takes at one time is read as a whole. -/
theorem TakenOnce.readWhole (h : TakenOnce quote cs) : ReadWhole quote cs := by
  cases h with
  | plain hslash hquote => exact readWhole_plain hslash hquote
  | escape hline => exact readWhole_escape hline

/-- And so is what it takes over and over. -/
theorem readWhole_flatten {parts : List (List Char)} (h : ∀ part ∈ parts, TakenOnce quote part) :
    ReadWhole quote parts.flatten := by
  induction parts with
  | nil => exact fun rest => Option.map_id'.symm
  | cons part parts ih =>
    rw [List.forall_mem_cons] at h
    rw [List.flatten_cons]
    exact h.1.readWhole.append (ih h.2)

/-- What is read of the inside of a literal is taken by the repeated part, and ends at the quote. -/
theorem exists_parts_of_readBody (h : readBody quote cs = some (body, rest)) :
    cs = body ++ quote :: rest ∧
      ∃ parts : List (List Char), (∀ part ∈ parts, TakenOnce quote part) ∧
        parts.flatten = body := by
  fun_induction readBody quote cs generalizing body with
  | case1 | case2 | case3 => cases h
  | case4 d cs hline ih =>
    obtain ⟨⟨inner, left⟩, hinner, heq⟩ := Option.map_eq_some_iff.1 h
    obtain ⟨rfl, rfl⟩ := Prod.mk.inj heq
    obtain ⟨rfl, parts, hparts, rfl⟩ := ih hinner
    refine ⟨rfl, ['\\', d] :: parts, ?_, rfl⟩
    exact List.forall_mem_cons.2 ⟨.escape hline, hparts⟩
  | case5 c cs =>
    obtain ⟨rfl, rfl⟩ := Prod.mk.inj (Option.some.inj h)
    exact ⟨rfl, [], List.forall_mem_nil _, rfl⟩
  | case6 c cs hend hescape hquote ih =>
    obtain ⟨⟨inner, left⟩, hinner, heq⟩ := Option.map_eq_some_iff.1 h
    obtain ⟨rfl, rfl⟩ := Prod.mk.inj heq
    obtain ⟨rfl, parts, hparts, rfl⟩ := ih hinner
    refine ⟨rfl, [c] :: parts, ?_, rfl⟩
    have hslash : c ≠ '\\' := by
      rintro rfl
      cases hcs : parts.flatten ++ quote :: left with
      | nil => exact hend rfl hcs
      | cons d cs => exact hescape d cs rfl hcs
    exact List.forall_mem_cons.2 ⟨.plain hslash hquote, hparts⟩

/-- **Reading a literal finds the match of the pattern**, of which there is one at most. -/
theorem captures_iff_readLiteral :
    Captures cs quote body rest ↔ cs.head? = some quote ∧ readLiteral cs = some (body, rest) := by
  constructor
  · rintro ⟨hquote, rfl, parts, hparts, rfl⟩
    have hslash : quote ≠ '\\' := by
      rintro rfl
      simp at hquote
    refine ⟨rfl, ?_⟩
    have hend : readBody quote (quote :: rest) = some ([], rest) := by
      rw [readBody, if_pos rfl]
      all_goals simp_all
    rw [readLiteral, if_pos hquote, readWhole_flatten hparts, hend, Option.map_some]
    dsimp only
    rw [List.append_nil]
  · rintro ⟨hhead, h⟩
    cases cs with
    | nil => cases hhead
    | cons c cs =>
      obtain rfl := Option.some.inj hhead
      rw [readLiteral] at h
      split at h
      · next hquote =>
        obtain ⟨rfl, hparts⟩ := exists_parts_of_readBody h
        exact ⟨hquote, rfl, hparts⟩
      · cases h

/-! ## Literals that were written

No quote within a literal is bare, for all of them are escaped when it is written. -/

/-- A literal that is read, whatever follows it, is captured from quote to quote and in no other
way. -/
theorem captures_iff_of_readLiteral {literal : List Char} {c : Char}
    (hhead : literal.head? = some c) (h : readLiteral (literal ++ rest) = some (body, rest)) :
    literal = c :: (body ++ [c]) ∧ ∀ quote captured after,
      Captures (literal ++ rest) quote captured after ↔
        quote = c ∧ captured = body ∧ after = rest := by
  obtain ⟨tail, rfl⟩ : ∃ tail, literal = c :: tail := by
    cases literal with
    | nil => cases hhead
    | cons d tail => exact ⟨tail, by rw [Option.some.inj hhead]⟩
  have hcaptures := captures_iff_readLiteral.2 ⟨rfl, h⟩
  refine ⟨List.append_cancel_right (hcaptures.text.trans (by simp)), ?_⟩
  intro quote captured after
  rw [captures_iff_readLiteral, h]
  simp [eq_comm]

/-- A text is written between single quotes. -/
theorem head?_encode (text : String) : (encode text).toList.head? = some '\'' := by
  rw [encode, String.toList_ofList]
  rfl

/-- A key is written between double quotes. -/
theorem head?_quote (key : String) : (Json.quote key).toList.head? = some '"' := by
  rw [Json.quote, String.toList_ofList]
  rfl

theorem cutText_eq (text : String) :
    cutText text = if text.length ≤ 1000 then text
      else String.ofList (text.toList.take 1000) ++ "…" := by
  split
  · next h => exact cutText_of_length_le h
  · next h =>
    have hlong : maxLength < text.toList.length := Nat.lt_of_not_le h
    rw [cutText, truncate, if_pos hlong, String.ofList_append]
    rfl

/-- **A literal that was written is captured from quote to quote, whatever follows it, and what is
captured stands for what was written**: a text in single quotes up to its greatest length, and a key
in double quotes as it is. -/
theorem decode_captured_literal (rest : List Char) :
    (∀ text : String, ∃ body,
      (encode text).toList = '\'' :: (body ++ ['\'']) ∧
      readLiteral ((encode text).toList ++ rest) = some (body, rest) ∧
      (∀ quote captured after, Captures ((encode text).toList ++ rest) quote captured after ↔
        quote = '\'' ∧ captured = body ∧ after = rest) ∧
      decode body = if text.length ≤ 1000 then text
        else String.ofList (text.toList.take 1000) ++ "…") ∧
    ∀ key : String, ∃ body,
      (Json.quote key).toList = '"' :: (body ++ ['"']) ∧
      readLiteral ((Json.quote key).toList ++ rest) = some (body, rest) ∧
      (∀ quote captured after, Captures ((Json.quote key).toList ++ rest) quote captured after ↔
        quote = '"' ∧ captured = body ∧ after = rest) ∧
      decode body = key := by
  constructor
  · intro text
    obtain ⟨body, hread, hbody⟩ := readLiteral_encode text rest
    obtain ⟨htext, hcaptures⟩ := captures_iff_of_readLiteral (head?_encode text) hread
    exact ⟨body, htext, hread, hcaptures, hbody.trans (cutText_eq text)⟩
  · intro key
    obtain ⟨body, hread, hbody⟩ := readLiteral_quote key rest
    obtain ⟨htext, hcaptures⟩ := captures_iff_of_readLiteral (head?_quote key) hread
    exact ⟨body, htext, hread, hcaptures, hbody⟩

end MdxPages.References
