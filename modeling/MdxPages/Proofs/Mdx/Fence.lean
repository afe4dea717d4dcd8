import MdxPages.Mdx.Render
import MdxPages.Proofs.Text.Pieces

/-!
# Proofs/Mdx/Fence — code does not close its own fence

A reader of fenced code takes the lines behind the opening fence until one closes it.  What it gets
from a code block is the code (`readFence?_codeText`): the fence is longer than every run of
backticks in the code, so that no line of the code can close it.
-/

namespace MdxPages

namespace Text

variable {cs : List Char}

theorem unifyLineEnds_of_notMem (h : '\r' ∉ cs) : unifyLineEnds cs = cs := by
  fun_induction unifyLineEnds cs with
  | case1 => rfl
  | case2 cs ih => simp at h
  | case3 c cs hcs ih =>
    rw [List.mem_cons, not_or] at h
    rw [if_neg (Ne.symm h.1), ih h.2]

/-- Lines with a line end behind each are cut apart again. -/
theorem split_lines {lines : List String} (h : ∀ line ∈ lines, '\n' ∉ line.toList) (t : String) :
    split '\n' (String.join (lines.map (· ++ "\n")) ++ t) = lines ++ split '\n' t := by
  induction lines with
  | nil => simp
  | cons line lines ih =>
    rw [List.forall_mem_cons] at h
    rw [List.map_cons, String.join_cons, String.append_assoc, split_cons rfl h.1, ih h.2]
    rfl

/-- The lines of a text with a line end behind each. -/
theorem join_lines (s : String) :
    String.join ((split '\n' s).map (· ++ "\n")) = s ++ "\n" := by
  have hnewline : ("\n" : String).toList = ['\n'] := rfl
  induction s using pieceInduction hnewline with
  | last s h => simp [split_of_notMem h]
  | more s t h ih =>
    rw [split_cons hnewline h, List.map_cons, String.join_cons, ih]
    simp only [String.append_assoc]

end Text

namespace Mdx

/-! ## Reading

A reader takes lines, and a line closes the block if it has at least as many backticks as the fence
and nothing else. -/

/-- The lines of a document: they end at `\n`, `\r` or `\r\n`. -/
def documentLines (s : String) : List String :=
  Text.split '\n' (String.ofList (Text.unifyLineEnds s.toList))

/-- Whether a line closes a fence of `n` backticks: at most three spaces, at least as many
backticks, and then nothing but spaces. -/
def closesFence (n : Nat) (line : String) : Bool :=
  let spaces := line.toList.takeWhile (· == ' ')
  let marks := line.toList.dropWhile (· == ' ')
  spaces.length ≤ 3 && n ≤ (marks.takeWhile (· == '`')).length &&
    (marks.dropWhile (· == '`')).all (· == ' ')

/-- A block of fenced code that has been read: the length of its fence, what stands behind the
opening fence, the lines inside, the line that closes it, if there is one, and the lines after. -/
structure FencedCode where
  fence : Nat
  info : String
  content : List String
  closing : Option String
  rest : List String

/-- Read the fenced code that a text starts with: the fence is three backticks or more, with none
behind it in its line, and the first later line that closes it ends the block. -/
def readFence? (s : String) : Option FencedCode :=
  match documentLines s with
  | [] => none
  | opening :: lines =>
    let fence := (opening.toList.takeWhile (· == '`')).length
    let info := opening.toList.dropWhile (· == '`')
    if 3 ≤ fence ∧ '`' ∉ info then
      some {
        fence
        info := String.ofList info
        content := lines.takeWhile (!closesFence fence ·)
        closing := (lines.dropWhile (!closesFence fence ·)).head?
        rest := (lines.dropWhile (!closesFence fence ·)).tail }
    else none

/-- A text with a line end behind it, unless it is empty or ends with one. -/
def closedCode (value : String) : String :=
  if value.isEmpty || Text.endsWith value "\n" then value else value ++ "\n"

/-! ## Runs of backticks

The runs of the code are counted while going through it once. -/

variable {cs : List Char} {n : Nat}

/-- The longest run is as long as the run before the text at least. -/
theorem le_longestTicks (current : Nat) (cs : List Char) : current ≤ longestTicks current cs := by
  induction cs generalizing current with
  | nil => exact Nat.le_refl _
  | cons c cs ih =>
    rw [longestTicks]
    split
    · exact Nat.le_trans (Nat.le_succ _) (ih _)
    · exact Nat.le_max_left _ _

/-- **No run of backticks is longer than the longest one.** -/
theorem le_longestTicks_of_infix (h : List.replicate n '`' <:+: cs) : n ≤ longestTicks 0 cs := by
  obtain ⟨before, after, rfl⟩ := h
  have hrun (current : Nat) (after : List Char) :
      current + n ≤ longestTicks current (List.replicate n '`' ++ after) := by
    induction n generalizing current with
    | zero => exact le_longestTicks current after
    | succ n ih =>
      rw [List.replicate_succ, List.cons_append, longestTicks, if_pos rfl]
      have hnext := ih (current + 1)
      omega
  have hall (current : Nat) :
      n ≤ longestTicks current (before ++ List.replicate n '`' ++ after) := by
    induction before generalizing current with
    | nil => exact Nat.le_trans (Nat.le_add_left n current) (hrun current after)
    | cons c before ih =>
      rw [List.cons_append, List.cons_append, longestTicks]
      split
      · exact ih _
      · exact Nat.le_trans (ih 0) (Nat.le_max_right _ _)
  exact hall 0

/-- A line that closes a fence holds as many backticks in a row. -/
theorem infix_of_closesFence {line : String} (h : closesFence n line = true) :
    List.replicate n '`' <:+: line.toList := by
  simp only [closesFence, Bool.and_eq_true, decide_eq_true_iff] at h
  let marks := line.toList.dropWhile (· == ' ')
  have hrun : marks.takeWhile (· == '`') =
      List.replicate (marks.takeWhile (· == '`')).length '`' :=
    List.eq_replicate_of_mem fun c hc => eq_of_beq (List.all_eq_true.1 List.all_takeWhile c hc)
  have hstart : List.replicate n '`' <+: marks.takeWhile (· == '`') := by
    rw [hrun, ← Nat.min_eq_left h.1.2, ← List.take_replicate]
    exact List.take_prefix _ _
  exact (hstart.trans (List.takeWhile_prefix _)).isInfix.trans (List.dropWhile_suffix _).isInfix

/-- The fence closes itself. -/
theorem closesFence_ticks (n : Nat) : closesFence n (ticks n) = true := by
  simp [closesFence, ticks]

/-! ## Written code

The code is written between two lines of its own, with a line end behind it if it has none. -/

/-- The length of the fence around some code. -/
def fenceLength (value : String) : Nat :=
  max 3 (longestTicks 0 value.toList + 1)

/-- Some code without the line end that closes it. -/
def openCode (value : String) : String :=
  if Text.endsWith value "\n" then Text.dropEnd value 1 else value

/-- The lines of some code, none if it is empty. -/
def codeLines (value : String) : List String :=
  if value.isEmpty then [] else Text.split '\n' (openCode value)

/-- The line end that closes the code is cut off. -/
theorem openCode_append (value : String) (h : Text.endsWith value "\n" = true) :
    openCode value ++ "\n" = value := by
  obtain ⟨code, rfl⟩ := Text.exists_append_of_endsWith h
  rw [openCode, if_pos h]
  exact congrArg (· ++ "\n") (Text.dropEnd_append code "\n")

theorem prefix_openCode (value : String) : (openCode value).toList <+: value.toList := by
  unfold openCode Text.dropEnd
  split
  · rw [String.toList_ofList]
    exact List.take_prefix _ _
  · exact List.prefix_refl _

/-- A line of the code is in the code. -/
theorem infix_of_mem_codeLines {value line : String} (h : line ∈ codeLines value) :
    line.toList <:+: value.toList := by
  unfold codeLines at h
  split at h
  · cases h
  · exact (Text.infix_of_mem_split h).trans (prefix_openCode value).isInfix

/-- **No line of the code closes the fence**, for each of its runs of backticks is shorter. -/
theorem not_closesFence {value line : String} (h : line ∈ codeLines value) :
    closesFence (fenceLength value) line = false := by
  rw [Bool.eq_false_iff]
  intro hcloses
  have hrun := le_longestTicks_of_infix
    ((infix_of_closesFence hcloses).trans (infix_of_mem_codeLines h))
  rw [fenceLength] at hrun
  omega

/-- **The lines of the code, a line end behind each, are the code**, closed. -/
theorem join_codeLines (value : String) :
    String.join ((codeLines value).map (· ++ "\n")) = closedCode value := by
  unfold codeLines closedCode
  cases hempty : value.isEmpty with
  | true =>
    rw [String.isEmpty_iff.1 hempty]
    rfl
  | false =>
    rw [if_neg Bool.false_ne_true, Text.join_lines, Bool.false_or]
    split
    · next hend => exact openCode_append value hend
    · next hend => rw [openCode, if_neg hend]

/-- Code is written between two fences, each of its lines closed. -/
theorem codeText_eq (value : String) (lang : Value) :
    codeText value lang = ticks (fenceLength value) ++ lang.textIfGiven ++ "\n" ++
      (closedCode value ++ ticks (fenceLength value)) := by
  rw [← join_codeLines]
  unfold codeText codeLines
  cases value.isEmpty with
  | true => simp [fenceLength]
  | false => simp [fenceLength, Text.join_lines, openCode, String.append_assoc]

/-- A line of the code holds no line end. -/
theorem notMem_of_mem_codeLines {value line : String} (h : line ∈ codeLines value) :
    '\n' ∉ line.toList := by
  unfold codeLines at h
  split at h
  · cases h
  · exact Text.notMem_of_mem_split h

theorem notMem_ticks (n : Nat) : '\n' ∉ (ticks n).toList := by
  simp [ticks]

/-- The lines of a code block: what opens it, the code, and the closing fence. -/
theorem split_codeText (value : String) (lang : Value) :
    Text.split '\n' (codeText value lang) =
      Text.split '\n' (ticks (fenceLength value) ++ lang.textIfGiven) ++
        (codeLines value ++ [ticks (fenceLength value)]) := by
  rw [codeText_eq, Text.split_append rfl, ← join_codeLines,
    Text.split_lines fun line hline => notMem_of_mem_codeLines hline,
    Text.split_of_notMem (notMem_ticks _)]

/-- A text without carriage returns has its lines cut at `\n` alone. -/
theorem documentLines_eq {s : String} (h : '\r' ∉ s.toList) :
    documentLines s = Text.split '\n' s := by
  rw [documentLines, Text.unifyLineEnds_of_notMem h, String.ofList_toList]

/-- The lines of a code block, to a reader that also ends lines at carriage returns. -/
theorem documentLines_codeText {value : String} {lang : Value} (hvalue : '\r' ∉ value.toList)
    (hlang : ∀ c ∈ lang.textIfGiven.toList, c ≠ '\n' ∧ c ≠ '\r' ∧ c ≠ '`') :
    documentLines (codeText value lang) =
      (ticks (fenceLength value) ++ lang.textIfGiven) ::
        (codeLines value ++ [ticks (fenceLength value)]) := by
  have hreturn : '\r' ∉ (codeText value lang).toList := by
    have hlang' : '\r' ∉ lang.textIfGiven.toList := fun h => (hlang _ h).2.1 rfl
    have hclosed : '\r' ∉ (closedCode value).toList := by
      unfold closedCode
      split
      · exact hvalue
      · simpa using hvalue
    simp [codeText_eq, ticks, hlang', hclosed]
  have hopening : '\n' ∉ (ticks (fenceLength value) ++ lang.textIfGiven).toList := by
    rw [String.toList_append, List.mem_append, not_or]
    exact ⟨notMem_ticks _, fun h => (hlang _ h).1 rfl⟩
  rw [documentLines_eq hreturn, split_codeText, Text.split_of_notMem hopening]
  rfl

/-- The length of the opening fence is read off its line. -/
theorem takeWhile_ticks_append (n : Nat) {info : List Char} (h : info.head? ≠ some '`') :
    (List.replicate n '`' ++ info).takeWhile (· == '`') = List.replicate n '`' ∧
      (List.replicate n '`' ++ info).dropWhile (· == '`') = info := by
  have hticks : ∀ c ∈ List.replicate n '`', (c == '`') = true := fun c hc =>
    beq_iff_eq.2 (List.eq_of_mem_replicate hc)
  rw [List.takeWhile_append_of_pos hticks, List.dropWhile_append_of_pos hticks]
  cases info with
  | nil => simp
  | cons c info =>
    have hc : (c == '`') = false := beq_false_of_ne fun heq => h (congrArg some heq)
    simp [hc]

/-- What a reader gets from lines of code between two fences that none of them closes. -/
theorem readFence?_eq {s info : String} {n : Nat} {lines : List String} (hn : 3 ≤ n)
    (hinfo : '`' ∉ info.toList) (hlines : ∀ line ∈ lines, closesFence n line = false)
    (h : documentLines s = (ticks n ++ info) :: (lines ++ [ticks n])) :
    readFence? s = some ⟨n, info, lines, some (ticks n), []⟩ := by
  obtain ⟨hfence, hrest⟩ := takeWhile_ticks_append n fun h => hinfo (List.mem_of_head? h)
  have hopening : (ticks n ++ info).toList = List.replicate n '`' ++ info.toList := by
    simp [ticks]
  have hopen : ∀ line ∈ lines, (!closesFence n line) = true := fun line hline => by
    rw [hlines line hline]
    rfl
  simp only [readFence?, h, hopening, hfence, hrest, List.length_replicate]
  rw [if_pos ⟨hn, hinfo⟩, List.takeWhile_append_of_pos hopen, List.dropWhile_append_of_pos hopen]
  simp [closesFence_ticks]

/-- **Code does not close its own fence.**  A reader of the text of a code block gets, between a
first and a last line that are its fences, the lines of the code: with a line end behind each they
are the code, closed by a line end unless it is empty or ends with one. -/
theorem readFence?_nodeText (o : RenderOptions) (marker : String) {value : String} {lang : Value}
    (hvalue : '\r' ∉ value.toList)
    (hlang : ∀ c ∈ lang.textIfGiven.toList, c ≠ '\n' ∧ c ≠ '\r' ∧ c ≠ '`') :
    ∃ text block, nodeText o marker (.code value lang) = .ok text ∧
      readFence? text = some block ∧
      documentLines text =
        (ticks block.fence ++ lang.textIfGiven) :: (block.content ++ [ticks block.fence]) ∧
      block.info = lang.textIfGiven ∧ block.closing = some (ticks block.fence) ∧ block.rest = [] ∧
      String.join (block.content.map (· ++ "\n")) = closedCode value := by
  have hlines := documentLines_codeText hvalue hlang
  refine ⟨codeText value lang, ⟨fenceLength value, lang.textIfGiven, codeLines value,
    some (ticks (fenceLength value)), []⟩, rfl, ?_, hlines, rfl, rfl, rfl, join_codeLines value⟩
  exact readFence?_eq (Nat.le_max_left _ _) (fun h => (hlang _ h).2.2 rfl)
    (fun line hline => not_closesFence hline) hlines

/-- Code with a fence in it. -/
theorem readFence?_nodeText_fenced :
    ∃ text block, nodeText {} "-" (.code "a\n```\nb" (.str "py")) = .ok text ∧
      readFence? text = some block ∧ block.rest = [] ∧
      String.join (block.content.map (· ++ "\n")) = "a\n```\nb\n" := by
  have hlang : ∀ c ∈ (Value.str "py").textIfGiven.toList, c ≠ '\n' ∧ c ≠ '\r' ∧ c ≠ '`' := by
    rw [show (Value.str "py").textIfGiven = "py" from rfl]
    simp
  obtain ⟨text, block, htext, hread, -, -, -, hrest, hcode⟩ :=
    @readFence?_nodeText {} "-" "a\n```\nb" (.str "py") (by decide) hlang
  exact ⟨text, block, htext, hread, hrest, hcode.trans (by decide)⟩

end Mdx

end MdxPages
