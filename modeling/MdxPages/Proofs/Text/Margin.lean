import Mathlib.Data.List.Forall2
import MdxPages.Proofs.Text.Ends
import MdxPages.Text.Lines

/-!
# Proofs/Text/Margin — lines behind margins

Lines are set behind margins (`puts`) and taken out of them again (`removeAll?`).  On the way white
space is lost, and nothing else (`kept`): a margin of white space leaves nothing of a line of white
space, and a margin can cut the end of the first line.  Apart from that **lines come back from
behind their margins** (`removeAll?_puts`), also when each has lost a carriage return at its end in
between (`removeAll?_dropReturn`).
-/

namespace MdxPages.Text

variable {s t : String}

/-! ## Margins

Where a blank line meets a margin, the blank at the end of the margin goes too.  So a margin is
known by what is left of it as well. -/

/-- The last line of a text. -/
def lastLine (s : String) : String :=
  (split '\n' s).getLast (split_ne_nil '\n' s)

/-- The lines of a text are the others and its last one. -/
theorem split_eq_append_lastLine (s : String) :
    split '\n' s = (split '\n' s).dropLast ++ [lastLine s] :=
  (List.dropLast_append_getLast _).symm

theorem lastLine_append (s : String) (h : '\n' ∉ t.toList) :
    lastLine (s ++ t) = lastLine s ++ t := by
  have hsplit := split_append_of_split (split_eq_append_lastLine s) (split_of_notMem h)
  simp [lastLine, hsplit]

theorem endsWith_lastLine (s : String) : endsWith (lastLine (s ++ " ")) " " = true := by
  rw [lastLine_append s (by decide)]
  exact endsWith_append _ _

/-- What is set before lines: a text before the first line and one before each other line, both
with a blank at the end; the first line can lose the white space at its end. -/
structure Margin where
  first : String
  later : String
  trims : Bool
  endsWith_first : endsWith first " " = true
  endsWith_later : endsWith later " " = true

/-- A line, without the white space at its end if `trims`. -/
def trimIf (trims : Bool) (line : String) : String :=
  if trims then stripEnd line else line

/-- A line, emptied if `empties` and it is white space. -/
def clearIf (empties : Bool) (line : String) : String :=
  if empties && isBlank line then "" else line

/-- Some lines, the first of them trimmed and the later ones cleared. -/
def keep (trims empties : Bool) : List String → List String
  | [] => []
  | first :: later => trimIf trims first :: later.map (clearIf empties)

/-- A line behind a margin, or what is left of the margin when nothing is behind it. -/
def behind (margin line : String) : String :=
  if line.isEmpty then stripEnd margin else margin ++ line

/-- What was set behind a margin, if it was. -/
def dropMargin (margin line : String) : Option String :=
  if startsWith line margin then some (String.ofList (line.toList.drop margin.length))
  else if line = stripEnd margin then some "" else none

namespace Margin

/-- Lines with the margin before them. -/
def set (m : Margin) : List String → List String
  | [] => []
  | first :: later => (m.first ++ first) :: later.map (behind m.later)

/-- Lines set behind the margin: before white space alone, a margin of white space is left out. -/
def put (m : Margin) (lines : List String) : List String :=
  m.set (keep m.trims (isBlank m.later) lines)

/-- The margin that is the same before all lines. -/
def flat (margin : String) (h : endsWith margin " " = true) : Margin :=
  ⟨margin, margin, false, h, h⟩

/-- The margin below a lead; `top` says whether the first of the lines stands behind the lead. -/
def hanging (lead margin : String) (trims top : Bool) (hlead : endsWith (lastLine lead) " " = true)
    (h : endsWith margin " " = true) : Margin where
  first := if top then lastLine lead else margin
  later := margin
  trims := top && trims
  endsWith_first := by cases top <;> assumption
  endsWith_later := h

/-- Lines without the margin, if each of them has it. -/
def remove? (m : Margin) : List String → Option (List String)
  | [] => some []
  | first :: later => do
    return (← dropMargin m.first first) :: (← later.mapM (dropMargin m.later))

end Margin

/-! ## Removing a margin -/

variable {margin line : String} {m : Margin} {ms : List Margin} {lines : List String}

/-- What stands behind a margin is got back. -/
theorem dropMargin_append (margin line : String) :
    dropMargin margin (margin ++ line) = some line := by
  rw [dropMargin, if_pos (startsWith_append margin line), ← String.length_toList]
  simp

/-- What is left of a margin without its blank is not the margin. -/
theorem not_startsWith_stripEnd (h : endsWith margin " " = true) :
    ¬startsWith (stripEnd margin) margin = true := by
  intro hstart
  obtain ⟨t, rfl⟩ := exists_append_of_endsWith h
  obtain ⟨u, hu⟩ := exists_append_of_startsWith hstart
  obtain ⟨v, -, hv⟩ := exists_stripEnd_append t
  rw [stripEnd_append_of_isBlank rfl] at hu
  have hlength := congrArg (·.toList.length) (hv.trans (congrArg (· ++ v) hu))
  simp at hlength

/-- What is behind a margin is got back. -/
theorem dropMargin_behind (h : endsWith margin " " = true) (line : String) :
    dropMargin margin (behind margin line) = some line := by
  unfold behind
  split
  · next hline =>
    rw [dropMargin, if_neg (not_startsWith_stripEnd h), if_pos rfl, String.isEmpty_iff.1 hline]
  · exact dropMargin_append margin line

/-- A line that a margin is taken from had it, or was all that is left of it. -/
theorem eq_of_dropMargin (h : dropMargin margin s = some line) :
    s = margin ++ line ∨ s = stripEnd margin ∧ line = "" := by
  unfold dropMargin at h
  split at h
  · next hstart =>
    obtain ⟨t, rfl⟩ := exists_append_of_startsWith hstart
    rw [← String.length_toList] at h
    exact .inl (by simpa using h)
  · split at h
    · next heq => exact .inr ⟨heq, (Option.some.inj h).symm⟩
    · cases h

/-- What is behind a margin loses a carriage return as the whole line does. -/
theorem dropMargin_dropReturn (hmargin : endsWith margin " " = true)
    (h : dropMargin margin s = some line) :
    dropMargin margin (dropReturn s) = some (dropReturn line) := by
  obtain rfl | ⟨rfl, rfl⟩ := eq_of_dropMargin h
  · by_cases hline : line = ""
    · obtain ⟨t, rfl⟩ := exists_append_of_endsWith hmargin
      have hblank : ((t ++ " ") ++ "").toList.getLast? ≠ some '\r' := by simp
      rw [hline, dropReturn_of_ne hblank, dropMargin_append]
      rfl
    · rw [dropReturn_append margin hline, dropMargin_append]
  · rw [dropReturn_of_stripEnd_eq (stripEnd_stripEnd margin), h]
    rfl

/-- Lines are taken from behind a margin one by one. -/
theorem mapM_eq_some_iff {α β : Type} {f : α → Option β} {xs : List α} {ys : List β} :
    xs.mapM f = some ys ↔ List.Forall₂ (fun x y => f x = some y) xs ys := by
  induction xs generalizing ys with
  | nil => simp [eq_comm]
  | cons x xs ih =>
    rw [List.forall₂_cons_left_iff, List.mapM_cons]
    simp only [Option.bind_eq_bind, Option.bind_eq_some_iff, Option.pure_def, Option.some.injEq, ih]
    exact ⟨fun ⟨y, hy, ys', hys, heq⟩ => ⟨y, ys', hy, hys, heq.symm⟩,
      fun ⟨y, ys', hy, hys, heq⟩ => ⟨y, hy, ys', hys, heq.symm⟩⟩

namespace Margin

/-- **Lines come back from behind a margin.** -/
theorem remove?_set (m : Margin) (lines : List String) : m.remove? (m.set lines) = some lines := by
  cases lines with
  | nil => rfl
  | cons first later =>
    have hlater : (later.map (behind m.later)).mapM (dropMargin m.later) = some later := by
      rw [mapM_eq_some_iff, List.forall₂_map_left_iff, List.forall₂_same]
      exact fun line _ => dropMargin_behind m.endsWith_later line
    simp [set, remove?, dropMargin_append, hlater]

theorem remove?_dropReturn {lines' : List String} (h : m.remove? lines = some lines') :
    m.remove? (lines.map dropReturn) = some (lines'.map dropReturn) := by
  cases lines with
  | nil =>
    obtain rfl := Option.some.inj h
    rfl
  | cons first later =>
    simp only [remove?, Option.bind_eq_bind, Option.bind_eq_some_iff, Option.pure_def,
      Option.some.injEq] at h
    obtain ⟨first', hfirst, later', hlater, rfl⟩ := h
    have hlater' :
        (later.map dropReturn).mapM (dropMargin m.later) = some (later'.map dropReturn) := by
      rw [mapM_eq_some_iff, List.forall₂_map_left_iff, List.forall₂_map_right_iff]
      exact (mapM_eq_some_iff.1 hlater).imp fun line line' =>
        dropMargin_dropReturn m.endsWith_later
    simp [remove?, dropMargin_dropReturn m.endsWith_first hfirst, hlater']

end Margin

/-! ## Trimmed and cleared lines

Two things happen to lines on the way.  They commute, and doing them twice is doing them once. -/

variable {t e t' e' : Bool}

@[simp] theorem isBlank_trimIf (t : Bool) (line : String) :
    isBlank (trimIf t line) = isBlank line := by
  cases t <;> simp [trimIf]

@[simp] theorem trimIf_trimIf (t t' : Bool) (line : String) :
    trimIf t (trimIf t' line) = trimIf (t || t') line := by
  cases t <;> cases t' <;> simp [trimIf]

theorem mem_of_mem_trimIf {c : Char} (h : c ∈ (trimIf t line).toList) : c ∈ line.toList := by
  obtain ⟨space, -, hline⟩ := exists_stripEnd_append line
  cases t with
  | false => exact h
  | true =>
    rw [hline, String.toList_append]
    exact List.mem_append_left _ h

/-- Only the end of a line is trimmed. -/
theorem trimIf_append (t : Bool) (s : String) (h : isBlank line = false) :
    trimIf t (s ++ line) = s ++ trimIf t line := by
  cases t with
  | false => rfl
  | true => exact stripEnd_append s h

theorem dropReturn_trimIf (t : Bool) (line : String) :
    dropReturn (trimIf t line) = trimIf t (dropReturn line) := by
  cases t with
  | false => rfl
  | true =>
    rw [trimIf, trimIf, if_pos rfl, if_pos rfl, stripEnd_dropReturn,
      dropReturn_of_stripEnd_eq (stripEnd_stripEnd line)]

/-- A line with something visible is not cleared. -/
theorem clearIf_of_ne (e : Bool) (h : isBlank line = false) : clearIf e line = line := by
  simp [clearIf, h]

theorem clearIf_of_isBlank (h : isBlank line = true) : clearIf true line = "" := by
  simp [clearIf, h]

@[simp] theorem clearIf_false : clearIf false = id :=
  funext fun _ => rfl

theorem clearIf_eq_self (e : Bool) (h : isBlank line = true → line = "") :
    clearIf e line = line := by
  unfold clearIf
  split
  · next hline =>
    rw [Bool.and_eq_true] at hline
    exact (h hline.2).symm
  · rfl

theorem clearIf_true_eq_empty (h : isBlank (clearIf true line) = true) :
    clearIf true line = "" := by
  cases hline : isBlank line with
  | true => exact clearIf_of_isBlank hline
  | false =>
    rw [clearIf_of_ne true hline, hline] at h
    cases h

/-- Clearing twice is clearing once. -/
theorem clearIf_clearIf (e e' : Bool) (line : String) :
    clearIf e (clearIf e' line) = clearIf (e || e') line := by
  cases hline : isBlank line with
  | false => simp only [clearIf_of_ne _ hline]
  | true => cases e <;> cases e' <;> simp [clearIf, hline]

theorem dropReturn_clearIf (e : Bool) (line : String) :
    dropReturn (clearIf e line) = clearIf e (dropReturn line) := by
  cases hline : isBlank line with
  | false => rw [clearIf_of_ne e hline, clearIf_of_ne e (by rwa [isBlank_dropReturn])]
  | true =>
    cases e with
    | false => rfl
    | true =>
      rw [clearIf_of_isBlank hline, clearIf_of_isBlank (by rwa [isBlank_dropReturn])]
      rfl

theorem ne_empty_of_not_isBlank (h : isBlank line = false) : line.isEmpty = false := by
  rw [Bool.eq_false_iff]
  intro hempty
  rw [String.isEmpty_iff.1 hempty] at h
  cases h

/-- A line with something visible stands behind the whole margin. -/
theorem behind_of_not_isBlank (margin : String) (h : isBlank line = false) :
    behind margin line = margin ++ line := by
  rw [behind, ne_empty_of_not_isBlank h, if_neg Bool.false_ne_true]

/-- Behind a margin a line is blank if both are. -/
theorem isBlank_behind (margin line : String) :
    isBlank (behind margin line) = (isBlank margin && isBlank line) := by
  unfold behind
  split
  · next hempty =>
    rw [String.isEmpty_iff.1 hempty, isBlank_stripEnd]
    exact (Bool.and_true _).symm
  · exact isBlank_append margin line

/-- Behind a margin nothing is left to be cleared. -/
theorem clearIf_behind (e : Bool) (margin line : String) :
    clearIf e (behind margin (clearIf (isBlank margin) line)) =
      behind margin (clearIf (isBlank margin) line) := by
  refine clearIf_eq_self e fun hblank => ?_
  rw [isBlank_behind, Bool.and_eq_true] at hblank
  obtain ⟨hmargin, hline⟩ := hblank
  rw [hmargin] at hline ⊢
  rw [clearIf_true_eq_empty hline]
  exact stripEnd_of_isBlank hmargin

/-- A line as it is set behind a margin. -/
def setLine (margin line : String) : String :=
  behind margin (clearIf (isBlank margin) line)

theorem mem_of_mem_setLine {c : Char} (h : c ∈ (setLine margin line).toList) :
    c ∈ margin.toList ∨ c ∈ line.toList := by
  unfold setLine behind at h
  split at h
  · exact .inl (mem_of_mem_trimIf (t := true) h)
  · rw [String.toList_append, List.mem_append] at h
    refine h.imp_right fun hline => ?_
    unfold clearIf at hline
    split at hline
    · cases hline
    · exact hline

theorem setLine_of_not_isBlank (margin : String) (h : isBlank line = false) :
    setLine margin line = margin ++ line := by
  rw [setLine, clearIf_of_ne _ h, behind_of_not_isBlank margin h]

/-- Nothing is left of a blank line behind a blank margin. -/
theorem setLine_of_isBlank (hmargin : isBlank margin = true) (h : isBlank line = true) :
    setLine margin line = "" := by
  rw [setLine, hmargin, clearIf_of_isBlank h]
  exact stripEnd_of_isBlank hmargin

/-- Lines that are trimmed and cleared twice. -/
theorem keep_keep (t e t' e' : Bool) (lines : List String) :
    keep t e (keep t' e' lines) = keep (t || t') (e || e') lines := by
  cases lines with
  | nil => rfl
  | cons first later => simp [keep, clearIf_clearIf]

theorem keep_false_false (lines : List String) : keep false false lines = lines := by
  cases lines with
  | nil => rfl
  | cons first later => simp [keep, trimIf]

/-- A carriage return is dropped before or after. -/
theorem map_dropReturn_keep (t e : Bool) (lines : List String) :
    (keep t e lines).map dropReturn = keep t e (lines.map dropReturn) := by
  cases lines with
  | nil => rfl
  | cons first later => simp [keep, dropReturn_trimIf, dropReturn_clearIf]

/-! ## Several margins

From the inside out: each margin is set before lines that already have the others. -/

/-- Lines of which the first is not blank, and the last, another one, ends in something else than
white space. -/
def Bounded (lines : List String) : Prop :=
  ∃ first middle last, lines = first :: (middle ++ [last]) ∧ isBlank first = false ∧
    isBlank last = false ∧ stripEnd last = last

/-- The first and the last line are visible still. -/
theorem Bounded.keep (h : Bounded lines) (t e : Bool) : Bounded (keep t e lines) := by
  obtain ⟨first, middle, last, rfl, hfirst, hlast, hend⟩ := h
  refine ⟨trimIf t first, middle.map (clearIf e), last, ?_, ?_, hlast, hend⟩
  · simp [Text.keep, clearIf_of_ne e hlast]
  · rwa [isBlank_trimIf]

/-- And so they are behind a margin. -/
theorem Bounded.put (h : Bounded lines) (m : Margin) : Bounded (m.put lines) := by
  obtain ⟨first, middle, last, hlines, hfirst, hlast, hend⟩ := h.keep m.trims (isBlank m.later)
  refine ⟨m.first ++ first, middle.map (behind m.later), m.later ++ last, ?_, ?_, ?_, ?_⟩
  · simp [Margin.put, hlines, Margin.set, behind_of_not_isBlank m.later hlast]
  · rw [isBlank_append, hfirst, Bool.and_false]
  · rw [isBlank_append, hlast, Bool.and_false]
  · rw [stripEnd_append m.later hlast, hend]

theorem Bounded.map_dropReturn (h : Bounded lines) : Bounded (lines.map dropReturn) := by
  obtain ⟨first, middle, last, rfl, hfirst, hlast, hend⟩ := h
  refine ⟨dropReturn first, middle.map dropReturn, last, ?_, ?_, hlast, hend⟩
  · simp [dropReturn_of_stripEnd_eq hend]
  · rwa [isBlank_dropReturn]

/-- A text of which such lines are the last ends in something else than white space. -/
theorem Bounded.join (h : Bounded lines) (above : List String) :
    isBlank (join "\n" (above ++ lines)) = false ∧
      stripEnd (join "\n" (above ++ lines)) = join "\n" (above ++ lines) := by
  obtain ⟨first, middle, last, rfl, -, hlast, hend⟩ := h
  have hjoin : Text.join "\n" (above ++ first :: (middle ++ [last])) =
      Text.join "\n" (above ++ first :: middle) ++ "\n" ++ last := by
    rw [← List.cons_append, ← List.append_assoc]
    exact String.intercalate_append_of_ne_nil (by simp) (by simp)
  rw [hjoin]
  exact ⟨by rw [isBlank_append, hlast, Bool.and_false], by rw [stripEnd_append _ hlast, hend]⟩

theorem Margin.put_cons (m : Margin) (first : String) (later : List String) :
    m.put (first :: later) = (m.first ++ trimIf m.trims first) :: later.map (setLine m.later) := by
  simp only [put, set, keep, List.map_map]
  rfl

/-- A margin that is the same before all lines, and trims none, is set before each. -/
theorem Margin.put_eq_map (h : Bounded lines) (hfirst : m.first = m.later)
    (htrims : m.trims = false) : m.put lines = lines.map (setLine m.later) := by
  obtain ⟨first, middle, last, rfl, hblank, -⟩ := h
  rw [put_cons, List.map_cons, setLine_of_not_isBlank m.later hblank, hfirst, htrims]
  rfl

/-- A margin that is the same before all lines is set before each of them. -/
theorem Margin.put_flat (h : Bounded lines) (hmargin : endsWith margin " " = true) :
    (Margin.flat margin hmargin).put lines = lines.map (setLine margin) :=
  put_eq_map h rfl rfl

/-- Lines behind a margin are trimmed as they are without it, and none is left to be cleared. -/
theorem keep_put (h : Bounded lines) (t e : Bool) (m : Margin) :
    keep t e (m.put lines) = m.put (keep t false lines) := by
  obtain ⟨first, middle, last, rfl, hfirst, -⟩ := h
  have hfirst' : isBlank (trimIf m.trims first) = false := by rwa [isBlank_trimIf]
  simp [Margin.put, Margin.set, keep, trimIf_append t m.first hfirst', clearIf_behind, Bool.or_comm]

/-- Lines behind several margins, the outermost first. -/
def puts (ms : List Margin) (lines : List String) : List String :=
  ms.foldr Margin.put lines

@[simp] theorem puts_nil (lines : List String) : puts [] lines = lines :=
  rfl

@[simp] theorem puts_cons (m : Margin) (ms : List Margin) (lines : List String) :
    puts (m :: ms) lines = m.put (puts ms lines) :=
  rfl

/-- And behind several. -/
theorem Bounded.puts (h : Bounded lines) (ms : List Margin) : Bounded (puts ms lines) := by
  induction ms with
  | nil => exact h
  | cons m ms ih => exact ih.put m

/-- Trimming and clearing the lines behind margins is trimming and clearing the lines. -/
theorem keep_puts (h : Bounded lines) (t e : Bool) (ms : List Margin) :
    keep t e (puts ms lines) = puts ms (keep t (e && ms.isEmpty) lines) := by
  induction ms generalizing e with
  | nil => simp
  | cons m ms ih => rw [puts_cons, keep_put (h.puts ms), ih false]; simp

/-- What several margins, the outermost first, leave of some lines: each can trim the first line,
and the innermost decides whether lines of white space are cleared. -/
def kept (ms : List Margin) : List String → List String :=
  keep (ms.any (·.trims)) (ms.getLast?.any (isBlank ·.later))

/-- Lines without several margins, the outermost taken away first. -/
def removeAll? (ms : List Margin) (lines : List String) : Option (List String) :=
  ms.foldlM (fun lines m => m.remove? lines) lines

theorem removeAll?_cons (m : Margin) (ms : List Margin) (lines : List String) :
    removeAll? (m :: ms) lines = (m.remove? lines).bind (removeAll? ms) :=
  rfl

/-- **Lines come back from behind several margins.** -/
theorem removeAll?_puts (h : Bounded lines) (ms : List Margin) :
    removeAll? ms (puts ms lines) = some (kept ms lines) := by
  induction ms generalizing lines with
  | nil => simp [removeAll?, kept, keep_false_false]
  | cons m ms ih =>
    rw [removeAll?_cons, puts_cons, Margin.put, Margin.remove?_set, Option.bind_some, keep_puts h,
      ih (h.keep _ _), kept, kept, keep_keep]
    cases ms with
    | nil => simp
    | cons m' ms => simp [Bool.or_comm]

/-- Lines that have lost a carriage return come back without it. -/
theorem removeAll?_dropReturn {lines' : List String} (h : removeAll? ms lines = some lines') :
    removeAll? ms (lines.map dropReturn) = some (lines'.map dropReturn) := by
  induction ms generalizing lines with
  | nil => exact congrArg (Option.map (List.map dropReturn)) h
  | cons m ms ih =>
    rw [removeAll?_cons, Option.bind_eq_some_iff] at h
    obtain ⟨inner, hinner, h⟩ := h
    rw [removeAll?_cons, Margin.remove?_dropReturn hinner, Option.bind_some, ih h]

end MdxPages.Text
