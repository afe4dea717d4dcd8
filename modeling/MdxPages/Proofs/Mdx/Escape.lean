import Mathlib.Algebra.Ring.Parity
import Mathlib.Data.List.DropRight
import MdxPages.Mdx.Render
import MdxPages.Proofs.Text.Pieces

/-!
# Proofs/Mdx/Escape — what a reader gets from escaped text

Text is escaped by three replacements in a row: a backslash is doubled, an active character gets a
backslash before it, and so does a hash that white space alone leads to from the start of a line.
The last of them goes from match to match, and the white space of a match may go over line ends; a
walk that takes note of line starts finds the same hashes (`hashesMarked_iff`).  So **dropping the
backslash before each character that is escaped gives the text back, and neither an active character
nor a hash that leads a line is left bare** (`unescape_nodeText`).
-/

namespace MdxPages.Mdx

open Text

variable {start fresh : Bool} {c : Char} {cs ds : List Char}

/-! ## Replacing one after the other

The replacements are given as they are made: two of single characters, and one of matches from left
to right, as a relation. -/

/-- A text with its backslashes doubled. -/
def doubleSlashes (cs : List Char) : List Char :=
  cs.flatMap fun c => if c = '\\' then ['\\', '\\'] else [c]

/-- A text with a backslash before each active character. -/
def markActive (cs : List Char) : List Char :=
  cs.flatMap fun c => if isActive c then ['\\', c] else [c]

/-- Some text starts with a hash, or with white space that leads to one, over line ends too. -/
def LeadsToHash (cs : List Char) : Prop :=
  ∃ blank rest, cs = blank ++ '#' :: rest ∧ blank.all isSpace = true

/-- A text before and after a backslash is put before each hash that leads a line: a match starts
with a line and goes up to the hash, the next one is looked for behind it, and what starts no match
is passed over.  `start` says whether a line starts here. -/
inductive HashesMarked : Bool → List Char → List Char → Prop
  | nil {start : Bool} : HashesMarked start [] []
  | hash {blank cs ds : List Char} (hblank : blank.all isSpace = true)
    (rest : HashesMarked false cs ds) :
    HashesMarked true (blank ++ '#' :: cs) (blank ++ '\\' :: '#' :: ds)
  | pass {start : Bool} {c : Char} {cs ds : List Char}
    (hnone : start = true → ¬LeadsToHash (c :: cs)) (rest : HashesMarked (c == '\n') cs ds) :
    HashesMarked start (c :: cs) (c :: ds)

theorem not_leadsToHash_nil : ¬LeadsToHash [] := by
  rintro ⟨blank, rest, h, -⟩
  simp at h

/-- A hash leads, and so does white space before one. -/
theorem leadsToHash_cons :
    LeadsToHash (c :: cs) ↔ c = '#' ∨ isSpace c = true ∧ LeadsToHash cs := by
  constructor
  · rintro ⟨_ | ⟨b, blank⟩, rest, h, hblank⟩
    · exact .inl (List.cons.inj h).1
    · obtain ⟨hb, h⟩ := List.cons.inj h
      rw [List.all_cons, Bool.and_eq_true] at hblank
      exact .inr ⟨hb ▸ hblank.1, blank, rest, h, hblank.2⟩
  · rintro (rfl | ⟨hspace, blank, rest, rfl, hblank⟩)
    · exact ⟨[], cs, rfl, rfl⟩
    · exact ⟨c :: blank, rest, rfl, by rw [List.all_cons, hspace, hblank]; rfl⟩

/-- The first two replacements can be done in one, character by character. -/
theorem markActive_doubleSlashes (cs : List Char) :
    markActive (doubleSlashes cs) = cs.flatMap escapeChar := by
  rw [markActive, doubleSlashes, List.flatMap_assoc]
  refine congrArg (cs.flatMap ·) (funext fun c => ?_)
  by_cases hslash : c = '\\'
  · subst hslash
    rfl
  · simp [escapeChar, hslash]

/-- Within a line no hash is marked up to the next line. -/
theorem escapeHashes_false_cons (c : Char) (cs : List Char) :
    escapeHashes false (c :: cs) = c :: escapeHashes (c == '\n') cs := by
  by_cases h : c = '#'
  · subst h
    rfl
  · simp [escapeHashes, h]

/-- A hash that white space leads to is marked. -/
theorem escapeHashes_of_blank {blank : List Char} (h : blank.all isSpace = true)
    (cs : List Char) :
    escapeHashes true (blank ++ '#' :: cs) = blank ++ '\\' :: '#' :: escapeHashes false cs := by
  induction blank with
  | nil => rfl
  | cons c blank ih =>
    rw [List.all_cons, Bool.and_eq_true] at h
    have hhash : c ≠ '#' := by
      rintro rfl
      exact absurd h.1 (by decide)
    rw [List.cons_append, escapeHashes, if_neg hhash, h.1, Bool.and_true, Bool.or_true, ih h.2,
      List.cons_append]

/-- Where no hash leads the line, it makes no difference that a line starts. -/
theorem escapeHashes_of_not_leadsToHash (h : ¬LeadsToHash cs) :
    escapeHashes true cs = escapeHashes false cs := by
  induction cs with
  | nil => rfl
  | cons c cs ih =>
    rw [leadsToHash_cons, not_or, not_and] at h
    rw [escapeHashes_false_cons, escapeHashes, if_neg h.1, Bool.true_and]
    cases hspace : isSpace c with
    | false => rw [Bool.or_false]
    | true =>
      have hlater : ¬LeadsToHash cs := h.2 hspace
      rw [Bool.or_true, ih hlater]
      cases c == '\n' with
      | false => rfl
      | true => rw [ih hlater]

/-- Going from match to match marks what the walk marks. -/
theorem HashesMarked.eq (h : HashesMarked start cs ds) : ds = escapeHashes start cs := by
  induction h with
  | nil => rfl
  | hash hblank _ ih => rw [escapeHashes_of_blank hblank, ih]
  | @pass start c cs ds hnone _ ih =>
    have hstart : escapeHashes start (c :: cs) = escapeHashes false (c :: cs) := by
      cases start with
      | false => rfl
      | true => exact escapeHashes_of_not_leadsToHash (hnone rfl)
    rw [hstart, escapeHashes_false_cons, ih]

/-- And the walk marks what going from match to match does. -/
theorem hashesMarked_escapeHashes (start : Bool) (cs : List Char) :
    HashesMarked start cs (escapeHashes start cs) := by
  induction hn : cs.length using Nat.strongRecOn generalizing start cs with
  | ind n ih =>
    cases cs with
    | nil => exact .nil
    | cons c cs =>
      have hpass (hnone : start = true → ¬LeadsToHash (c :: cs)) :
          HashesMarked start (c :: cs) (c :: escapeHashes (c == '\n') cs) :=
        .pass hnone (ih cs.length (by simp [← hn]) _ _ rfl)
      by_cases hmatch : start = true ∧ LeadsToHash (c :: cs)
      · obtain ⟨rfl, blank, rest, htext, hblank⟩ := hmatch
        have hshorter : rest.length < n := by
          rw [← hn, htext, List.length_append, List.length_cons]
          omega
        rw [htext, escapeHashes_of_blank hblank]
        exact .hash hblank (ih rest.length hshorter _ _ rfl)
      · have hnone : start = true → ¬LeadsToHash (c :: cs) := fun hstart hleads =>
          hmatch ⟨hstart, hleads⟩
        exact (hpass hnone).eq ▸ hpass hnone

/-- **Going from match to match marks what one walk marks**: there is one way to replace all
matches, and the walk is it. -/
theorem hashesMarked_iff : HashesMarked start cs ds ↔ ds = escapeHashes start cs :=
  ⟨HashesMarked.eq, fun h => h ▸ hashesMarked_escapeHashes start cs⟩

/-! ## Reading

A reader of escaped text drops backslashes.  That it drops the right ones depends on how many stand
in a row. -/

/-- The characters that a backslash is put before. -/
def isEscapable (c : Char) : Bool :=
  c == '\\' || isActive c || c == '#'

/-- A text without the backslash before each character that can be escaped, from left to right. -/
def unescape : List Char → List Char
  | [] => []
  | [c] => [c]
  | c :: d :: cs =>
    if c = '\\' ∧ isEscapable d = true then d :: unescape cs else c :: unescape (d :: cs)

/-- The length of the run of backslashes at the end of a text. -/
def slashesAtEnd (cs : List Char) : Nat :=
  (cs.rtakeWhile (· == '\\')).length

/-- A text and how it is written, character by character: only what can be escaped has a backslash
before it, and what goes without one is no backslash, not active and no hash that leads a line.
`fresh` says whether there has been nothing but white space since the start of the line. -/
inductive Escaped : Bool → List Char → List Char → Prop
  | nil {fresh : Bool} : Escaped fresh [] []
  | mark {fresh : Bool} {c : Char} {cs ds : List Char} (hc : isEscapable c = true)
    (rest : Escaped false cs ds) : Escaped fresh (c :: cs) ('\\' :: c :: ds)
  | keep {fresh : Bool} {c : Char} {cs ds : List Char} (hslash : c ≠ '\\')
    (hactive : isActive c = false) (hhash : fresh = true → c ≠ '#')
    (rest : Escaped (c == '\n' || fresh && isSpace c) cs ds) : Escaped fresh (c :: cs) (c :: ds)

/-- A character that is escaped wherever it stands is none that the walk takes note of. -/
theorem escapeHashes_marked (hc : c = '\\' ∨ isActive c = true) (fresh : Bool) (cs : List Char) :
    escapeHashes fresh ('\\' :: c :: cs) = '\\' :: c :: escapeHashes false cs := by
  have hhash : c ≠ '#' := by
    rintro rfl
    exact absurd hc (by decide)
  have hline : (c == '\n') = false := by
    rw [beq_eq_false_iff_ne]
    rintro rfl
    exact absurd hc (by decide)
  have hslash : ('\\' == '\n' || fresh && isSpace '\\') = false := by
    cases fresh <;> rfl
  rw [escapeHashes, if_neg (by decide), hslash, escapeHashes, if_neg hhash, hline]
  rfl

/-- Escaped text is written character by character. -/
theorem escaped_escapeHashes (fresh : Bool) (cs : List Char) :
    Escaped fresh cs (escapeHashes fresh (cs.flatMap escapeChar)) := by
  induction cs generalizing fresh with
  | nil => exact .nil
  | cons c cs ih =>
    rw [List.flatMap_cons, escapeChar]
    by_cases hc : c = '\\' ∨ isActive c = true
    · rw [if_pos hc, List.cons_append, List.singleton_append, escapeHashes_marked hc]
      have hescapable : isEscapable c = true := by
        simpa [isEscapable, or_assoc] using hc.imp_right Or.inl
      exact .mark hescapable (ih false)
    · rw [if_neg hc, List.singleton_append]
      obtain ⟨hslash, hactive⟩ := not_or.1 hc
      rw [Bool.not_eq_true] at hactive
      by_cases hhash : c = '#'
      · subst hhash
        cases fresh with
        | true => exact .mark rfl (ih false)
        | false => exact .keep hslash hactive (fun h => absurd h (by decide)) (ih false)
      · rw [escapeHashes, if_neg hhash]
        exact .keep hslash hactive (fun _ => hhash) (ih _)

/-! ## What a reader gets

A backslash of the text is doubled, so the run before an active character is odd exactly if it ends
in a backslash that escapes. -/

/-- A character other than a backslash stays. -/
theorem unescape_cons_of_ne (h : c ≠ '\\') (cs : List Char) :
    unescape (c :: cs) = c :: unescape cs := by
  cases cs with
  | nil => rfl
  | cons d cs => rw [unescape, if_neg fun hslash => h hslash.1]

/-- **Dropping the backslashes gives the text back.** -/
theorem Escaped.unescape_eq (h : Escaped fresh cs ds) : unescape ds = cs := by
  induction h with
  | nil => rfl
  | mark hc _ ih => rw [unescape, if_pos ⟨rfl, hc⟩, ih]
  | keep hslash _ _ _ ih => rw [unescape_cons_of_ne hslash, ih]

/-- A text of backslashes is one run. -/
theorem slashesAtEnd_of_forall (h : ∀ c ∈ cs, c = '\\') : slashesAtEnd cs = cs.length := by
  have hall : cs.reverse.takeWhile (· == '\\') = cs.reverse :=
    List.takeWhile_eq_self_iff.2 fun c hc => beq_iff_eq.2 (h c (List.mem_reverse.1 hc))
  rw [slashesAtEnd, List.rtakeWhile, hall, List.length_reverse, List.length_reverse]

/-- The character in front makes no difference, unless there are only backslashes. -/
theorem slashesAtEnd_cons (h : ¬∀ d ∈ c :: cs, d = '\\') :
    slashesAtEnd (c :: cs) = slashesAtEnd cs := by
  rw [slashesAtEnd, slashesAtEnd, List.rtakeWhile, List.rtakeWhile, List.reverse_cons,
    List.takeWhile_append]
  split
  · next hall =>
    have hrest := List.takeWhile_eq_self_iff.1
      ((List.takeWhile_prefix (· == '\\')).eq_of_length hall)
    have hc : c ≠ '\\' := by
      rintro rfl
      exact h (by simpa using hrest)
    rw [List.takeWhile_cons_of_neg (by simpa using hc), List.append_nil]
    simp only [List.length_reverse, hall]
  · rfl

/-- Two characters of which the first is a backslash make the run at the end longer by two, or not
at all. -/
theorem odd_slashesAtEnd_cons_cons (c : Char) (cs : List Char) :
    Odd (slashesAtEnd ('\\' :: c :: cs)) ↔ Odd (slashesAtEnd cs) := by
  by_cases h : ∀ d ∈ c :: cs, d = '\\'
  · have hboth : ∀ d ∈ '\\' :: c :: cs, d = '\\' := List.forall_mem_cons.2 ⟨rfl, h⟩
    rw [slashesAtEnd_of_forall hboth, slashesAtEnd_of_forall (List.forall_mem_cons.1 h).2]
    simp [Nat.odd_add_one]
  · have hboth : ¬∀ d ∈ '\\' :: c :: cs, d = '\\' := fun hall => h (List.forall_mem_cons.1 hall).2
    rw [slashesAtEnd_cons hboth, slashesAtEnd_cons h]

/-- **Before an active character there are backslashes in odd number**: one that escapes it, and
pairs that stand for backslashes. -/
theorem Escaped.odd_slashesAtEnd (h : Escaped fresh cs ds) {before after : List Char}
    (htext : ds = before ++ c :: after) (hactive : isActive c = true) :
    Odd (slashesAtEnd before) := by
  induction h generalizing before with
  | nil => simp at htext
  | @mark _ d cs ds hd _ ih =>
    match before with
    | [] =>
      obtain ⟨rfl, -⟩ := List.cons.inj htext
      cases hactive
    | [b] =>
      obtain ⟨hb, -⟩ := List.cons.inj htext
      rw [← hb]
      decide
    | b :: b' :: before =>
      obtain ⟨hb, htext⟩ := List.cons.inj htext
      rw [← hb, odd_slashesAtEnd_cons_cons]
      exact ih (List.cons.inj htext).2
  | @keep _ d cs ds hslash hplain _ _ ih =>
    cases before with
    | nil =>
      obtain ⟨rfl, -⟩ := List.cons.inj htext
      exact absurd (hactive.symm.trans hplain) (by decide)
    | cons b before =>
      obtain ⟨hb, htext⟩ := List.cons.inj htext
      have hrun : ¬∀ e ∈ d :: before, e = '\\' := fun hall => hslash (hall d List.mem_cons_self)
      rw [← hb, slashesAtEnd_cons hrun]
      exact ih htext

/-- A line end is not escaped. -/
theorem ne_newline_of_isEscapable (h : isEscapable c = true) : c ≠ '\n' := by
  rintro rfl
  exact absurd h (by decide)

/-- **No line starts with a hash**, not even behind white space. -/
theorem Escaped.not_leadsToHash (h : Escaped fresh cs ds) :
    ∃ line lines, splitOn (· == '\n') ds = line :: lines ∧
      (fresh = true → ¬LeadsToHash line) ∧ ∀ line ∈ lines, ¬LeadsToHash line := by
  induction h with
  | nil => exact ⟨[], [], rfl, fun _ => not_leadsToHash_nil, List.forall_mem_nil _⟩
  | @mark fresh c cs ds hc _ ih =>
    obtain ⟨line, lines, hsplit, -, hlines⟩ := ih
    have hline : (c == '\n') = false := beq_false_of_ne (ne_newline_of_isEscapable hc)
    refine ⟨'\\' :: c :: line, lines, ?_, fun _ => ?_, hlines⟩
    · simp [splitOn, hline, hsplit]
    · have hspace : isSpace '\\' = false := rfl
      simp [leadsToHash_cons, hspace]
  | @keep fresh c cs ds _ _ hhash _ ih =>
    obtain ⟨line, lines, hsplit, hfirst, hlines⟩ := ih
    by_cases hline : c = '\n'
    · subst hline
      refine ⟨[], line :: lines, ?_, fun _ => not_leadsToHash_nil, ?_⟩
      · rw [splitOn, if_pos (beq_self_eq_true _), hsplit]
      · exact List.forall_mem_cons.2 ⟨hfirst rfl, hlines⟩
    · refine ⟨c :: line, lines, ?_, fun hfresh => ?_, hlines⟩
      · rw [splitOn, if_neg (by simpa using hline), hsplit]
      · rw [leadsToHash_cons, not_or, not_and]
        exact ⟨hhash hfresh, fun hspace => hfirst (by simp [hfresh, hspace])⟩

/-! ## Written text

The relation and the walk are put together for a text node. -/

/-- The three replacements leave what escaping does. -/
theorem hashesMarked_iff_eq_escape :
    HashesMarked true (markActive (doubleSlashes cs)) ds ↔ ds = escape cs := by
  rw [hashesMarked_iff, markActive_doubleSlashes, escape]

/-- **Escaped text is what the three replacements leave, and it is complete and can be undone**: the
text comes back when the backslash before each character that can be escaped is dropped, before an
active character there are backslashes in odd number, and no line starts with a hash behind white
space or none. -/
theorem unescape_nodeText (o : RenderOptions) (marker value : String)
    (h : o.escapeText.isGiven = true) :
    ∃ text, nodeText o marker (.text value) = .ok text ∧
      (∀ written, HashesMarked true (markActive (doubleSlashes value.toList)) written ↔
        written = text.toList) ∧
      unescape text.toList = value.toList ∧
      (∀ before c after, text.toList = before ++ c :: after → isActive c = true →
        Odd (slashesAtEnd before)) ∧
      ∀ line ∈ split '\n' text, ¬LeadsToHash line.toList := by
  have hescaped : Escaped true value.toList (escape value.toList) := escaped_escapeHashes true _
  refine ⟨String.ofList (escape value.toList), by rw [nodeText, if_pos h], ?_⟩
  rw [split, String.toList_ofList, List.forall_mem_map]
  refine ⟨fun _ => hashesMarked_iff_eq_escape, hescaped.unescape_eq,
    fun _ _ _ => hescaped.odd_slashesAtEnd, fun line hline => ?_⟩
  obtain ⟨first, lines, hsplit, hfirst, hlines⟩ := hescaped.not_leadsToHash
  have hall : ∀ line ∈ first :: lines, ¬LeadsToHash line :=
    List.forall_mem_cons.2 ⟨hfirst rfl, hlines⟩
  rw [String.toList_ofList]
  exact hall line (hsplit ▸ hline)

/-- A backslash before an active character, and a hash behind a line of white space. -/
theorem unescape_nodeText_blank_line :
    ({} : RenderOptions).escapeText.isGiven = true ∧
    nodeText {} "-" (.text "\\*\n\t\n #_") = .ok "\\\\\\*\n\t\n \\#\\_" ∧
    unescape "\\\\\\*\n\t\n \\#\\_".toList = "\\*\n\t\n #_".toList := by
  obtain ⟨text, htext, -, hread, -⟩ := unescape_nodeText {} "-" "\\*\n\t\n #_" rfl
  have hwritten :
      nodeText {} "-" (.text "\\*\n\t\n #_") = .ok "\\\\\\*\n\t\n \\#\\_" := by decide
  rw [htext, Except.ok.injEq] at hwritten
  subst hwritten
  exact ⟨rfl, htext, hread⟩

end MdxPages.Mdx
