import MdxPages.Proofs.Mdx.Fence
import MdxPages.Proofs.Text.Ends

/-!
# Proofs/Mdx/CodeSpan — what a reader gets from a code span

The fence of a code span is longer than every run of backticks in the code, and no backtick of the
code touches it, so that a reader takes the whole span (`cutRun?_append`).  Then it removes a space
from both ends of what stands in the span, unless there is nothing but spaces.  Blanks are put
around the code against that, except around code that is white space: **a reader gets the code back,
unless it is white space between two spaces and not made of spaces alone**
(`readCodeSpan?_nodeText`).
-/

namespace MdxPages.Mdx

open Text

/-! ## Reading

A reader looks for a run of backticks as long as the first one.  Then it makes spaces of line ends
and takes one off at both ends, unless all is spaces. -/

/-- The characters before the first run of exactly `n` backticks, and those behind it; `run` is the
length of the run just before. -/
def cutRun? (n run : Nat) : List Char → Option (List Char × List Char)
  | [] => if run = n then some ([], []) else none
  | c :: cs =>
    if c = '`' then cutRun? n (run + 1) cs
    else if run = n then some ([], c :: cs)
    else (cutRun? n 0 cs).map fun (content, rest) =>
      (List.replicate run '`' ++ c :: content, rest)

/-- Whether a space is removed from both ends of what stands in a code span. -/
def losesSpaces (content : List Char) : Bool :=
  content.head? == some ' ' && content.getLast? == some ' ' && !content.all (· == ' ')

/-- The code in a code span, given what stands between the fences: line ends count as spaces, and a
space is removed from both ends. -/
def spanCode (content : List Char) : List Char :=
  let line := (unifyLineEnds content).map fun c => if c = '\n' then ' ' else c
  if losesSpaces line then line.tail.dropLast else line

/-- Read the code span that a text starts with: its code, and the text behind it. -/
def readCodeSpan? (s : String) : Option (String × String) :=
  let fence := (s.toList.takeWhile (· == '`')).length
  if fence = 0 then none
  else (cutRun? fence 0 (s.toList.dropWhile (· == '`'))).map fun (content, rest) =>
    (String.ofList (spanCode content), String.ofList rest)

/-! ## Where a span ends

The fence is one longer than the longest run in the code, and padding keeps it apart from a run at
an end. -/

variable {cs : List Char} {n run : Nat} {value : String}

/-- A run as long as the fence ends the span. -/
theorem cutRun?_replicate (k : Nat) (h : run + k = n) :
    cutRun? n run (List.replicate k '`') = some ([], []) := by
  induction k generalizing run with
  | zero => exact if_pos h
  | succ k ih =>
    rw [List.replicate_succ, cutRun?, if_pos rfl]
    exact ih (by omega)

/-- **A span ends with its fence**, if all runs of backticks in it are shorter and it does not end
with one. -/
theorem cutRun?_append (h : longestTicks run cs < n) (hlast : cs.getLast? ≠ some '`')
    (hempty : cs = [] → run = 0) :
    cutRun? n run (cs ++ List.replicate n '`') = some (List.replicate run '`' ++ cs, []) := by
  induction cs generalizing run with
  | nil =>
    obtain rfl := hempty rfl
    exact cutRun?_replicate n (Nat.zero_add n)
  | cons c cs ih =>
    have hlast' : cs.getLast? ≠ some '`' := fun hcs => hlast (by simp [List.getLast?_cons, hcs])
    rw [longestTicks] at h
    rw [List.cons_append, cutRun?]
    by_cases hc : c = '`'
    · have hne : cs = [] → run + 1 = 0 := by
        rintro rfl
        exact absurd (congrArg some hc) hlast
      rw [if_pos hc] at h
      rw [if_pos hc, ih h hlast' hne, hc, List.replicate_succ', List.append_assoc,
        List.singleton_append]
    · rw [if_neg hc] at h
      have hrun : run ≠ n := by omega
      rw [if_neg hc, if_neg hrun, ih (by omega) hlast' fun _ => rfl]
      rfl

/-- The code of a span with the blanks that are put around it. -/
def padded (value : String) : String :=
  if needsPadding value then " " ++ value ++ " " else value

/-- A code span is its code, padded, between two fences. -/
theorem codeSpanText_eq (value : String) : codeSpanText value =
    ticks (longestTicks 0 value.toList + 1) ++ padded value ++
      ticks (longestTicks 0 value.toList + 1) :=
  rfl

/-- Padding is a space on both sides. -/
theorem toList_padded (h : needsPadding value = true) :
    (padded value).toList = ' ' :: value.toList ++ [' '] := by
  simp [padded, h]

theorem padded_of_not (h : ¬needsPadding value = true) : padded value = value :=
  if_neg h

/-- A character that is no backtick makes no run longer. -/
theorem longestTicks_append_of_ne {c : Char} (hc : c ≠ '`') (run : Nat) (cs : List Char) :
    longestTicks run (cs ++ [c]) = longestTicks run cs := by
  induction cs generalizing run with
  | nil => simp [longestTicks, hc]
  | cons d cs ih => rw [List.cons_append, longestTicks, longestTicks, ih, ih]

/-- Blanks around some code do not make its runs of backticks longer. -/
theorem longestTicks_padded (value : String) :
    longestTicks 0 (padded value).toList = longestTicks 0 value.toList := by
  by_cases h : needsPadding value = true
  · rw [toList_padded h, longestTicks_append_of_ne (by decide), longestTicks, if_neg (by decide),
      Nat.max_eq_right (Nat.zero_le _)]
  · rw [padded_of_not h]

/-! ## Blanks around the code

Padding is there for the reader to take off.  Only where the code is white space it is not put on,
and the reader may take off spaces of the code. -/

/-- Code is padded if a backtick is at one of its ends, or a space at both and something else
between them. -/
theorem needsPadding_iff (value : String) : needsPadding value = true ↔
    value.toList.head? = some '`' ∨ value.toList.getLast? = some '`' ∨
      value.toList.head? = some ' ' ∧ value.toList.getLast? = some ' ' ∧ isBlank value = false := by
  have htick : ("`" : String).toList = ['`'] := rfl
  have hspace : (" " : String).toList = [' '] := rfl
  rw [needsPadding, startsWith_eq_head? htick, endsWith_eq_getLast? htick,
    startsWith_eq_head? hspace, endsWith_eq_getLast? hspace]
  simp [or_assoc, and_assoc]

/-- What stands in a span begins and ends with something else than a backtick. -/
theorem ends_padded (value : String) :
    (padded value).toList.head? ≠ some '`' ∧ (padded value).toList.getLast? ≠ some '`' := by
  by_cases h : needsPadding value = true
  · rw [toList_padded h, List.getLast?_concat]
    exact ⟨by simp, by decide⟩
  · rw [padded_of_not h]
    rw [needsPadding_iff, not_or, not_or] at h
    exact ⟨h.1, h.2.1⟩

theorem padded_ne_nil (h : value ≠ "") : (padded value).toList ≠ [] := by
  by_cases hpadding : needsPadding value = true
  · simp [toList_padded hpadding]
  · rw [padded_of_not hpadding]
    simpa using h

/-- A reader takes the whole of a code span. -/
theorem readCodeSpan?_codeSpanText (h : value ≠ "") : readCodeSpan? (codeSpanText value) =
    some (String.ofList (spanCode (padded value).toList), "") := by
  let fence := longestTicks 0 value.toList + 1
  let inside := (padded value).toList
  obtain ⟨hhead, hlast⟩ := ends_padded value
  have htext : (codeSpanText value).toList =
      List.replicate fence '`' ++ (inside ++ List.replicate fence '`') := by
    simp [codeSpanText_eq, ticks, fence, inside]
  have hopening : (inside ++ List.replicate fence '`').head? ≠ some '`' := by
    rwa [List.head?_append_of_ne_nil _ (padded_ne_nil h)]
  have hcut : cutRun? fence 0 (inside ++ List.replicate fence '`') = some (inside, []) :=
    cutRun?_append (by rw [longestTicks_padded]; exact Nat.lt_succ_self _) hlast fun _ => rfl
  obtain ⟨hfence, hrest⟩ := takeWhile_ticks_append fence hopening
  rw [readCodeSpan?, htext, hfence, hrest, List.length_replicate, if_neg (Nat.succ_ne_zero _), hcut]
  rfl

/-- Whether a space is removed from both ends of some code although no blanks are put around it. -/
def isStripped (value : String) : Bool :=
  losesSpaces value.toList && isBlank value

/-- Code that is stripped has spaces at both ends, is white space, and is not made of spaces alone.
-/
theorem isStripped_iff (value : String) : isStripped value = true ↔
    startsWith value " " = true ∧ endsWith value " " = true ∧ isBlank value = true ∧
      ∃ c ∈ value.toList, c ≠ ' ' := by
  have hspace : (" " : String).toList = [' '] := rfl
  rw [startsWith_eq_head? hspace, endsWith_eq_getLast? hspace, isStripped, losesSpaces]
  simp
  tauto

/-- Without line ends a span is read as it is, but for the two spaces. -/
theorem spanCode_of_forall {content : List Char} (h : ∀ c ∈ content, c ≠ '\n' ∧ c ≠ '\r') :
    spanCode content = if losesSpaces content then content.tail.dropLast else content := by
  have hline : (unifyLineEnds content).map (fun c => if c = '\n' then ' ' else c) = content := by
    rw [unifyLineEnds_of_notMem fun hc => (h _ hc).2 rfl]
    exact (List.map_congr_left fun c hc => if_neg (h c hc).1).trans (List.map_id' _)
  rw [spanCode, hline]

theorem isBlank_of_needsPadding (h : needsPadding value = true) : isBlank value = false := by
  obtain h | h | ⟨-, -, h⟩ := (needsPadding_iff value).1 h
  · exact isBlank_eq_false_iff.2 ⟨'`', List.mem_of_head? h, by decide⟩
  · exact isBlank_eq_false_iff.2 ⟨'`', List.mem_of_getLast? h, by decide⟩
  · exact h

/-- Blanks that are put around some code are what a reader removes. -/
theorem losesSpaces_padded (h : needsPadding value = true) :
    losesSpaces (' ' :: value.toList ++ [' ']) = true := by
  obtain ⟨c, hc, hink⟩ := isBlank_eq_false_iff.1 (isBlank_of_needsPadding h)
  have hspace : c ≠ ' ' := by
    rintro rfl
    cases hink
  rw [losesSpaces, List.getLast?_concat]
  simpa using ⟨c, hc, hspace⟩

/-- What loses spaces has one at both ends. -/
theorem exists_of_losesSpaces {content : List Char} (h : losesSpaces content = true) :
    ∃ inner, content = ' ' :: inner ++ [' '] := by
  simp only [losesSpaces, Bool.and_eq_true, beq_iff_eq, Bool.not_eq_true'] at h
  obtain ⟨⟨hhead, hlast⟩, hink⟩ := h
  cases content with
  | nil => cases hhead
  | cons c cs =>
    obtain rfl := Option.some.inj hhead
    obtain rfl | hcs := List.eq_nil_or_concat cs
    · cases hink
    · obtain ⟨inner, d, rfl⟩ := hcs
      rw [List.concat_eq_append, ← List.cons_append, List.getLast?_concat] at hlast
      exact ⟨inner, by rw [Option.some.inj hlast, List.concat_eq_append, List.cons_append]⟩

/-- Code that a reader removes spaces from although none were put around it is white space. -/
theorem losesSpaces_of_not_needsPadding (h : ¬needsPadding value = true) :
    losesSpaces value.toList = isStripped value := by
  rw [isStripped, Bool.eq_iff_iff, Bool.and_eq_true]
  refine ⟨fun hloses => ⟨hloses, ?_⟩, fun hstripped => hstripped.1⟩
  rw [needsPadding_iff, not_or, not_or] at h
  simp only [losesSpaces, Bool.and_eq_true, beq_iff_eq] at hloses
  simpa [hloses.1.1, hloses.1.2] using h.2.2

/-- **A reader takes off what padding put on**, unless the code was not padded and loses its own
spaces. -/
theorem spanCode_padded (hlines : ∀ c ∈ value.toList, c ≠ '\n' ∧ c ≠ '\r') :
    spanCode (padded value).toList =
      if isStripped value then value.toList.tail.dropLast else value.toList := by
  by_cases h : needsPadding value = true
  · have hpadded : ∀ c ∈ ' ' :: value.toList ++ [' '], c ≠ '\n' ∧ c ≠ '\r' := by
      simpa [or_imp, forall_and] using hlines
    have hstripped : isStripped value = false := by
      rw [isStripped, isBlank_of_needsPadding h, Bool.and_false]
    rw [toList_padded h, spanCode_of_forall hpadded, losesSpaces_padded h, hstripped]
    simp
  · rw [padded_of_not h, spanCode_of_forall hlines, losesSpaces_of_not_needsPadding h]

/-- **A reader gets the code of a code span back**, unless it is white space between two spaces and
not made of spaces alone: that comes back without these two spaces. -/
theorem readCodeSpan?_nodeText (o : RenderOptions) (marker : String) (hne : value ≠ "")
    (hlines : ∀ c ∈ value.toList, c ≠ '\n' ∧ c ≠ '\r') :
    ∃ text code, nodeText o marker (.inlineCode value) = .ok text ∧
      readCodeSpan? text = some (code, "") ∧
      (value = code ∨ value = " " ++ code ++ " ") ∧
      (value ≠ code ↔ startsWith value " " = true ∧ endsWith value " " = true ∧
        isBlank value = true ∧ ∃ c ∈ value.toList, c ≠ ' ') := by
  refine ⟨codeSpanText value, _, rfl, readCodeSpan?_codeSpanText hne, ?_⟩
  rw [spanCode_padded hlines, ← isStripped_iff]
  cases hstripped : isStripped value with
  | false => simp
  | true =>
    rw [isStripped, Bool.and_eq_true] at hstripped
    obtain ⟨inner, hinner⟩ := exists_of_losesSpaces hstripped.1
    have hcode : value = " " ++ String.ofList inner ++ " " := by
      rw [← String.toList_inj]
      simp [hinner]
    have hlonger : value ≠ String.ofList inner := fun heq => by
      have hlength := congrArg (·.toList.length) heq
      simp [hinner] at hlength
      omega
    simp only [hinner, if_true, List.cons_append, List.tail_cons, List.dropLast_concat]
    exact ⟨.inr hcode, iff_of_true hlonger trivial⟩

/-- Code that begins with a backtick. -/
theorem readCodeSpan?_nodeText_tick : ∃ text, nodeText {} "-" (.inlineCode "`a ") = .ok text ∧
    readCodeSpan? text = some ("`a ", "") := by
  obtain ⟨text, code, htext, hread, -, hcode⟩ :=
    @readCodeSpan?_nodeText "`a " {} "-" (by decide) (by simp)
  have heq : code = "`a " := by
    by_contra hne
    exact absurd (hcode.1 (Ne.symm hne)).1 (by decide)
  exact ⟨text, htext, heq ▸ hread⟩

/-- A tab between two spaces comes back without them. -/
theorem codeSpan_loses_spaces : nodeText {} "-" (.inlineCode " \t ") = .ok "` \t `" ∧
    readCodeSpan? "` \t `" = some ("\t", "") := by
  decide

end MdxPages.Mdx
