import MdxPages.References.Module

/-!
# Proofs/References/Pattern — where patterns and entries are found

A pattern cannot reach across a character that none of its pieces can hold
(`afterAll?_append`).  So a text that lacks a pattern and ends in such a character is passed over
whatever follows it (`passed_of_lacks`), and texts that are passed over can be put together
(`Passed.append`).  In the same way the entries of a text are those of its parts (`Reads.append`).
-/

namespace MdxPages.References

variable {pieces : List Piece} {q c : Char} {xs ys : List Char}

/-! ## Characters that no pattern reaches across

A pattern is a row of pieces, words and white space, and what it takes depends on the text up to a
character that none of them holds. -/

/-- Whether a piece can hold a character. -/
def Piece.holds (q : Char) : Piece → Bool
  | word s => s.toList.contains q
  | blank | gap | lineGap => Text.isSpace q

/-- A character that no piece can hold. -/
def Separates (q : Char) (pieces : List Piece) : Prop :=
  ∀ piece ∈ pieces, piece.holds q = false

instance : Decidable (Separates q pieces) :=
  inferInstanceAs (Decidable (∀ piece ∈ pieces, piece.holds q = false))

theorem isPrefixOf_append_cons {ws : List Char} (hq : q ∉ ws) (xs ys : List Char) :
    ws.isPrefixOf (xs ++ q :: ys) = ws.isPrefixOf xs := by
  induction ws generalizing xs with
  | nil => simp
  | cons w ws ih =>
    rw [List.mem_cons, not_or] at hq
    cases xs with
    | nil => simp [List.isPrefixOf, Ne.symm hq.1]
    | cons x xs => rw [List.cons_append, List.isPrefixOf, List.isPrefixOf, ih hq.2]

theorem dropWhile_isSpace_append (hq : Text.isSpace q = false) (xs ys : List Char) :
    (xs ++ q :: ys).dropWhile Text.isSpace = xs.dropWhile Text.isSpace ++ q :: ys := by
  rw [List.dropWhile_append, List.dropWhile_cons_of_neg (by simp [hq])]
  split
  · next h => rw [List.isEmpty_iff.1 h, List.nil_append]
  · rfl

theorem takeWhile_isSpace_append (hq : Text.isSpace q = false) (xs ys : List Char) :
    (xs ++ q :: ys).takeWhile Text.isSpace = xs.takeWhile Text.isSpace := by
  induction xs with
  | nil => exact List.takeWhile_cons_of_neg (by simp [hq])
  | cons x xs ih => rw [List.cons_append, List.takeWhile_cons, List.takeWhile_cons, ih]

/-- What a piece takes ends before a character that it cannot hold. -/
theorem Piece.after?_append {piece : Piece} (hq : piece.holds q = false) (xs ys : List Char) :
    piece.after? (xs ++ q :: ys) = (piece.after? xs).map (· ++ q :: ys) := by
  cases piece with
  | word s =>
    have hs : q ∉ s.toList := by simpa [holds] using hq
    rw [after?, after?, isPrefixOf_append_cons hs]
    split
    · next h =>
      have hlength : s.length ≤ xs.length := by
        rw [← String.length_toList]
        exact (List.isPrefixOf_iff_prefix.1 h).length_le
      rw [List.drop_append_of_le_length hlength]
      rfl
    · rfl
  | blank => exact congrArg some (dropWhile_isSpace_append hq xs ys)
  | gap =>
    have hspace : Text.isSpace q = false := hq
    cases xs with
    | nil => simp [after?, hspace]
    | cons x xs =>
      rw [List.cons_append, after?, after?, dropWhile_isSpace_append hq]
      split <;> rfl
  | lineGap =>
    rw [after?, after?, takeWhile_isSpace_append hq, dropWhile_isSpace_append hq]
    split <;> rfl

theorem afterAll?_cons (piece : Piece) (pieces : List Piece) (cs : List Char) :
    afterAll? (piece :: pieces) cs = (piece.after? cs).bind (afterAll? pieces) :=
  rfl

/-- A pattern ends before such a character, or is not there. -/
theorem afterAll?_append (hq : Separates q pieces) (xs ys : List Char) :
    afterAll? pieces (xs ++ q :: ys) = (afterAll? pieces xs).map (· ++ q :: ys) := by
  induction pieces generalizing xs with
  | nil => rfl
  | cons piece pieces ih =>
    rw [Separates, List.forall_mem_cons] at hq
    rw [afterAll?_cons, afterAll?_cons, Piece.after?_append hq.1]
    cases piece.after? xs with
    | none => rfl
    | some rest => exact ih hq.2 rest

/-! ## Texts that are passed over

The search for a pattern goes on behind a text that is passed over, whatever comes there. -/

/-- A pattern occurs nowhere in a text. -/
def Lacks (pieces : List Piece) (cs : List Char) : Prop :=
  afterFirst? pieces cs = none

instance : Decidable (Lacks pieces xs) :=
  inferInstanceAs (Decidable (afterFirst? pieces xs = none))

/-- No occurrence of a pattern starts in a text, whatever follows it. -/
structure Passed (pieces : List Piece) (xs : List Char) : Prop where
  after (ys : List Char) : afterFirst? pieces (xs ++ ys) = afterFirst? pieces ys
  before (ys : List Char) :
    beforeFirst? pieces (xs ++ ys) = (beforeFirst? pieces ys).map (xs ++ ·)

/-- A text lacks a pattern if none starts at its first character, nor further on. -/
theorem lacks_cons :
    Lacks pieces (c :: xs) ↔ afterAll? pieces (c :: xs) = none ∧ Lacks pieces xs := by
  unfold Lacks
  rw [afterFirst?]
  cases afterAll? pieces (c :: xs) <;> simp

theorem Passed.nil : Passed pieces [] :=
  ⟨fun _ => rfl, fun ys => by simp⟩

/-- Texts that are passed over are so one after the other. -/
theorem Passed.append (hx : Passed pieces xs) (hy : Passed pieces ys) : Passed pieces (xs ++ ys) :=
  ⟨fun zs => by rw [List.append_assoc, hx.after, hy.after],
    fun zs => by simp [List.append_assoc, hx.before, hy.before, Function.comp_def]⟩

theorem Passed.cons (h : ∀ ys, afterAll? pieces (c :: (xs ++ ys)) = none)
    (hx : Passed pieces xs) : Passed pieces (c :: xs) where
  after ys := by rw [List.cons_append, afterFirst?, h, hx.after]
  before ys := by simp [List.cons_append, beforeFirst?, h, hx.before, Function.comp_def]

/-- **A text that lacks a pattern is passed over** if it ends in a character that the pattern cannot
reach across. -/
theorem passed_of_lacks (hq : Separates q pieces) (h : Lacks pieces (xs ++ [q])) :
    Passed pieces (xs ++ [q]) := by
  have hnone (xs : List Char) (h : afterAll? pieces (xs ++ [q]) = none) (ys : List Char) :
      afterAll? pieces (xs ++ [q] ++ ys) = none := by
    rw [afterAll?_append hq, Option.map_eq_none_iff] at h
    rw [List.append_assoc, List.singleton_append, afterAll?_append hq, h]
    rfl
  induction xs with
  | nil => exact .cons (hnone [] (lacks_cons.1 h).1) .nil
  | cons c xs ih =>
    rw [List.cons_append, lacks_cons] at h
    exact .cons (hnone (c :: xs) h.1) (ih h.2)

/-- Characters that a pattern cannot start with are passed over. -/
theorem passed_of_forall (h : ∀ c ∈ xs, ∀ ys, afterAll? pieces (c :: ys) = none) :
    Passed pieces xs := by
  induction xs with
  | nil => exact .nil
  | cons c xs ih =>
    rw [List.forall_mem_cons] at h
    exact .cons (fun ys => h.1 _) (ih h.2)

/-- Lines that are passed over, with such texts between them. -/
theorem passed_intercalate {separator : List Char} {lines : List (List Char)}
    (hseparator : Passed pieces separator) (h : ∀ line ∈ lines, Passed pieces line) :
    Passed pieces (separator.intercalate lines) := by
  induction lines with
  | nil => exact .nil
  | cons line lines ih =>
    rw [List.forall_mem_cons] at h
    cases lines with
    | nil => simpa using h.1
    | cons next lines =>
      rw [List.intercalate_cons_cons]
      exact (h.1.append hseparator).append (ih h.2)

/-! ## Entries -/

section

variable {α : Type} {readEntry : List Char → Option (α × List Char)} {entry : α} {es fs : List α}

/-- Skipping characters is reading from behind them. -/
theorem entriesFrom_eq_drop (readEntry : List Char → Option (α × List Char)) (skip : Nat)
    (cs : List Char) :
    entriesFrom readEntry skip cs = entriesFrom readEntry 0 (cs.drop skip) := by
  induction cs generalizing skip with
  | nil => cases skip <;> rfl
  | cons c cs ih =>
    cases skip with
    | zero => rfl
    | succ skip => exact ih skip

/-- The entries that start in a text, whatever follows it. -/
def Reads (readEntry : List Char → Option (α × List Char)) (xs : List Char) (es : List α) : Prop :=
  ∀ ys, entriesFrom readEntry 0 (xs ++ ys) = es ++ entriesFrom readEntry 0 ys

theorem Reads.nil : Reads readEntry [] [] :=
  fun _ => rfl

/-- The entries of two texts are those of the first and then those of the second. -/
theorem Reads.append (hx : Reads readEntry xs es) (hy : Reads readEntry ys fs) :
    Reads readEntry (xs ++ ys) (es ++ fs) := by
  intro zs
  rw [List.append_assoc, hx, hy, List.append_assoc]

/-- Characters that no entry starts with are skipped. -/
theorem reads_of_forall (h : ∀ c ∈ xs, ∀ ys, readEntry (c :: ys) = none) :
    Reads readEntry xs [] := by
  induction xs with
  | nil => exact .nil
  | cons c xs ih =>
    rw [List.forall_mem_cons] at h
    intro ys
    rw [List.cons_append, entriesFrom, h.1]
    exact ih h.2 ys

/-- A text that is an entry reads as that entry, whatever follows. -/
theorem reads_entry (hxs : xs ≠ []) (h : ∀ ys, readEntry (xs ++ ys) = some (entry, ys)) :
    Reads readEntry xs [entry] := by
  obtain ⟨c, cs, rfl⟩ := List.exists_cons_of_ne_nil hxs
  intro ys
  have hentry := h ys
  rw [List.cons_append] at hentry ⊢
  rw [entriesFrom, hentry]
  dsimp only
  rw [entriesFrom_eq_drop, List.length_append, Nat.add_sub_cancel, List.drop_left]
  rfl

/-- Lines of an entry each, with texts without entries between them. -/
theorem Reads.intercalate {β : Type} {items : List β} {separator : List Char}
    {line : β → List Char} {entry : β → α} (hseparator : Reads readEntry separator [])
    (h : ∀ item ∈ items, Reads readEntry (line item) [entry item]) :
    Reads readEntry (separator.intercalate (items.map line)) (items.map entry) := by
  induction items with
  | nil => exact .nil
  | cons item items ih =>
    rw [List.forall_mem_cons] at h
    cases items with
    | nil => simpa using h.1
    | cons next items =>
      rw [List.map_cons, List.map_cons, List.intercalate_cons_cons]
      exact (h.1.append hseparator).append (ih h.2)

end

end MdxPages.References
