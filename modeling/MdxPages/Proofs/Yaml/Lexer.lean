import Mathlib.Data.List.TakeWhile
import MdxPages.Yaml.Token.Lexer

/-!
# Proofs/Yaml/Lexer — steps of reading tokens

Where the cursor goes along a line and into the next one, and what reading a token takes to get from
one state to another (`Leads`).
-/

namespace MdxPages.Yaml

open MdxPages.Text

variable {cs xs ys rest tail next : List Char} {i n col w : Nat} {tokens : List Token}
  {columns : List Nat} {may : Bool} {candidate : Option Candidate} {l l' m : Lexer}

/-! ## Cursors

A cursor knows its index, its line and its column.  They grow with each character, and a line end
starts a new line. -/

namespace Cursor

/-- Characters of a line are passed one by one; the column grows with those that have a width. -/
theorem exists_skip_append (h : ∀ c ∈ xs, isBreak c = false) (ys : List Char) (i n col : Nat) :
    ∃ col', col ≤ col' ∧
      skip xs.length ⟨xs ++ ys, i, n, col⟩ = ⟨ys, i + xs.length, n, col'⟩ := by
  induction xs generalizing i col with
  | nil => exact ⟨col, Nat.le_refl _, rfl⟩
  | cons x xs ih =>
    rw [List.forall_mem_cons] at h
    obtain ⟨col', hcol, hskip⟩ :=
      ih h.2 (i + 1) (if x = '\uFEFF' then col else col + 1)
    refine ⟨col', Nat.le_trans ?_ hcol, ?_⟩
    · split <;> omega
    · rw [List.length_cons, skip, List.cons_append, step]
      simp only [h.1, Bool.false_eq_true, if_false]
      rw [hskip, Nat.add_right_comm, Nat.add_assoc]

/-- The column grows with each character, if none is a byte order mark. -/
theorem skip_append (h : ∀ c ∈ xs, isBreak c = false ∧ c ≠ '\uFEFF') (ys : List Char)
    (i n col : Nat) :
    skip xs.length ⟨xs ++ ys, i, n, col⟩ = ⟨ys, i + xs.length, n, col + xs.length⟩ := by
  induction xs generalizing i col with
  | nil => rfl
  | cons x xs ih =>
    rw [List.forall_mem_cons] at h
    rw [List.length_cons, skip, List.cons_append, step]
    simp only [h.1.1, h.1.2, Bool.false_eq_true, if_false]
    rw [ih h.2]
    simp only [Nat.add_assoc, Nat.add_comm 1]

/-- The cursor moves over the characters before a rest. -/
theorem moveTo_append (xs ys : List Char) (i n col : Nat) :
    moveTo ⟨xs ++ ys, i, n, col⟩ ys = skip xs.length ⟨xs ++ ys, i, n, col⟩ := by
  rw [moveTo]
  simp

theorem moveTo_self (c : Cursor) : c.moveTo c.rest = c := by
  rw [moveTo, Nat.sub_self, skip]

/-- Passing characters twice is passing all of them. -/
theorem skip_add (a b : Nat) (c : Cursor) : skip (a + b) c = skip b (skip a c) := by
  induction a generalizing c with
  | zero => simp [skip]
  | succ a ih => rw [Nat.add_right_comm, skip, ih, skip]

/-- A new line starts in its first column. -/
theorem moveTo_line (xs next : List Char) (hxs : ∀ c ∈ xs, isBreak c = false) (w i n col : Nat) :
    ∃ i' n', n < n' ∧ moveTo ⟨xs ++ '\n' :: (List.replicate w ' ' ++ next), i, n, col⟩ next =
      ⟨next, i', n', w⟩ := by
  obtain ⟨col', -, hskip⟩ :=
    exists_skip_append hxs ('\n' :: (List.replicate w ' ' ++ next)) i n col
  have hwide : ∀ c ∈ List.replicate w ' ', isBreak c = false ∧ c ≠ '\uFEFF' := by
    intro c hc
    rw [List.eq_of_mem_replicate hc]
    decide
  have hblanks := skip_append hwide next (i + xs.length + 1) (n + 1) 0
  refine ⟨i + xs.length + 1 + w, n + 1, Nat.lt_succ_self n, ?_⟩
  rw [moveTo]
  rw [show (xs ++ '\n' :: (List.replicate w ' ' ++ next)).length - next.length =
    xs.length + (1 + w) by simp; omega]
  rw [skip_add, hskip, skip_add, skip, step]
  simp only [show isBreak '\n' = true from rfl, if_true, skip]
  rw [List.length_replicate, Nat.zero_add] at hblanks
  exact hblanks

end Cursor

namespace Lexer

/-! ## Steps

A state leads to another one if reading gets there.  The states on the way do not matter, only the
tokens at the end. -/

/-- Reading gets from one state to another one, with a character at least for each step. -/
def Leads (l l' : Lexer) : Prop :=
  ∃ n, n + l'.rest.length ≤ l.rest.length ∧ ∀ fuel, run (n + fuel) l = run fuel l'

theorem Leads.refl (l : Lexer) : Leads l l :=
  ⟨0, by simp, fun fuel => by rw [Nat.zero_add]⟩

/-- Steps one after the other. -/
theorem Leads.trans (h : Leads l l') (h' : Leads l' m) : Leads l m := by
  obtain ⟨a, ha, hrun⟩ := h
  obtain ⟨b, hb, hrun'⟩ := h'
  exact ⟨a + b, by omega, fun fuel => by rw [Nat.add_assoc, hrun, hrun']⟩

/-- Reading goes on from a state in another one, where its next token starts. -/
structure GoesOn (l m : Lexer) : Prop where
  goOn : l.goOn = .ok m
  length : m.rest.length ≤ l.rest.length

/-- The next token is read. -/
theorem GoesOn.leads (h : GoesOn l m) (hread : m.readToken = .ok l')
    (hrest : l'.rest.length < m.rest.length) : Leads l l' := by
  have hm : m.rest.isEmpty = false := by
    cases hnil : m.rest with
    | nil => simp [hnil] at hrest
    | cons => rfl
  have hnext : l.next? = .ok (some l') := by
    rw [next?, h.goOn]
    change (if m.rest.isEmpty then _ else _) = _
    rw [hm, hread]
    rfl
  have hlength := h.length
  refine ⟨1, by omega, fun fuel => ?_⟩
  rw [Nat.add_comm, run, hnext]

theorem settled_of_none (c : Cursor) (tokens : List Token) (columns : List Nat) (may : Bool) :
    settled ⟨c, tokens, columns, may, none, []⟩ = tokens.reverse := by
  simp [settled, List.take_of_length_le]

/-- A candidate that has come to nothing is dropped, unless it was due. -/
theorem dropOver_apply {c : Cursor} (hdue : ∀ k ∈ candidate, k.due = false ∨ k.isOver c = false) :
    dropOver ⟨c, tokens, columns, may, candidate, []⟩ =
      .ok ⟨c, tokens, columns, may, if candidate.any (·.isOver c) then none else candidate,
        []⟩ := by
  rw [dropOver]
  dsimp only
  rw [if_neg]
  · rfl
  · cases candidate with
    | none => simp
    | some k =>
      have hk := hdue k rfl
      simp only [List.any_cons, List.any_nil, Bool.or_false, Option.any_some, Bool.and_eq_true]
      rintro ⟨hover, hkdue⟩
      simp [hover, hkdue] at hk

/-- All blocks end, and nothing is a candidate any more. -/
theorem endBlocks_apply {c : Cursor} (hdue : ∀ k ∈ candidate, k.due = false) :
    endBlocks ⟨c, tokens, columns, may, candidate, []⟩ =
      .ok ⟨c, columns.map (fun _ => .blockEnd) ++ tokens, [], false, none, []⟩ := by
  have hclose : closeBlocks none ⟨c, tokens, columns, may, candidate, []⟩ =
      ⟨c, columns.map (fun _ => .blockEnd) ++ tokens, [], may, candidate, []⟩ := by
    have htake : columns.takeWhile (fun _ => true) = columns :=
      List.takeWhile_eq_self_iff.2 (by simp)
    have hdrop : columns.dropWhile (fun _ => true) = [] :=
      List.dropWhile_eq_nil_iff.2 (by simp)
    simp [closeBlocks, inFlow, htake, hdrop]
  rw [endBlocks, hclose]
  cases candidate with
  | none => rfl
  | some k => simp [dropCandidate, hdue k rfl, bind, Except.bind, pure, Except.pure]

/-- Blanks, comments and line ends are passed, blocks end that start farther in, and a key that
cannot be one any more is given up. -/
theorem goOn_apply (tokens : List Token) (columns : List Nat) (may : Bool)
    (candidate : Option Candidate) {crosses : Bool} {c : Cursor}
    (hskip : skipSpace false cs = (crosses, rest)) (hmove : Cursor.moveTo ⟨cs, i, n, col⟩ rest = c)
    (hdue : ∀ k ∈ candidate, k.due = false ∨ k.isOver c = false) :
    goOn ⟨⟨cs, i, n, col⟩, tokens, columns, may, candidate, []⟩ =
      .ok ⟨c, (columns.takeWhile (c.column < ·)).map (fun _ => .blockEnd) ++ tokens,
        columns.dropWhile (c.column < ·), may || crosses,
        if candidate.any (·.isOver c) then none else candidate, []⟩ := by
  simp only [goOn, Lexer.rest, hskip, moveTo, hmove, inFlow, List.isEmpty_nil, Bool.not_true,
    Bool.not_false, Bool.and_true, dropOver_apply hdue]
  rfl

end Lexer

end MdxPages.Yaml
