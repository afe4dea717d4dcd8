import MdxPages.Frontmatter
import MdxPages.Proofs.Yaml.Lexer

/-!
# Proofs/Frontmatter/Tokens — the tokens of keys, dashes and scalars
-/

namespace MdxPages.Frontmatter

open Yaml Yaml.Lexer

variable {cs rest tail next key body : List Char} {i n col w : Nat} {tokens : List Token}
  {columns : List Nat} {may : Bool} {candidate : Option Candidate} {l l' m : Lexer}

/-! ## Plain characters

There are few plain characters, so what they have in common is found by trying each of them. -/

/-- Plain characters are characters of ASCII. -/
theorem toNat_lt_of_isPlain {c : Char} (h : isPlain c = true) : c.toNat < 128 := by
  have hword : c.isAlphanum = (c.isUpper || c.isLower || c.isDigit) := rfl
  have hupper : c.isUpper = decide ('A'.val ≤ c.val ∧ c.val ≤ 'Z'.val) := rfl
  have hlower : c.isLower = (decide ('a'.val ≤ c.val) && decide (c.val ≤ 'z'.val)) := rfl
  have hdigit : c.isDigit = (decide ('0'.val ≤ c.val) && decide (c.val ≤ '9'.val)) := rfl
  simp only [isPlain, hword, hupper, hlower, hdigit, Bool.or_eq_true, Bool.and_eq_true,
    decide_eq_true_eq, beq_iff_eq] at h
  obtain ((((⟨-, h⟩ | ⟨-, h⟩) | ⟨-, h⟩) | rfl) | rfl) | rfl := h
  · exact Nat.lt_of_le_of_lt h (by decide)
  · exact Nat.lt_of_le_of_lt h (by decide)
  · exact Nat.lt_of_le_of_lt h (by decide)
  · decide
  · decide
  · decide

/-- What holds of all plain characters can be found out one by one. -/
theorem of_isPlain {P : Char → Prop}
    (h : ∀ n < 128, isPlain (Char.ofNat n) = true → P (Char.ofNat n)) {c : Char}
    (hc : isPlain c = true) : P c := by
  have hplain := h c.toNat (toNat_lt_of_isPlain hc)
  rw [Char.ofNat_toNat] at hplain
  exact hplain hc

/-- A plain character ends no word and no line, and has no meaning of its own at the start of a
token, but for the dash. -/
structure Ordinary (c : Char) : Prop where
  isBreak : isBreak c = false
  orderMark : c ≠ '\uFEFF'
  word : c ≠ ' ' ∧ c ≠ '\t' ∧ c ≠ ':' ∧ c ≠ '#'
  start : c ∉ ['%', '[', '{', ']', '}', ',', '?', '*', '&', '!', '|', '>', '\'', '"']
  indicator : c = '-' ∨ c ∉ indicators

instance (c : Char) : Decidable (Ordinary c) :=
  decidable_of_iff (Yaml.isBreak c = false ∧ c ≠ '\uFEFF' ∧
    (c ≠ ' ' ∧ c ≠ '\t' ∧ c ≠ ':' ∧ c ≠ '#') ∧
    c ∉ ['%', '[', '{', ']', '}', ',', '?', '*', '&', '!', '|', '>', '\'', '"'] ∧
    (c = '-' ∨ c ∉ indicators))
    ⟨fun ⟨h₁, h₂, h₃, h₄, h₅⟩ => ⟨h₁, h₂, h₃, h₄, h₅⟩,
      fun ⟨h₁, h₂, h₃, h₄, h₅⟩ => ⟨h₁, h₂, h₃, h₄, h₅⟩⟩

/-- **Plain characters are ordinary**, each of them by itself. -/
theorem ordinary_of_isPlain {c : Char} (h : isPlain c = true) : Ordinary c :=
  of_isPlain (by decide) h

/-! ## Words

A plain word ends where the scanner says it does: at a blank, at a line end, or at a colon before
one of them. -/

/-- What ends a plain word: the end of a word, or a colon before one. -/
def Stops (tail : List Char) : Prop :=
  endsWord tail = true ∨ ∃ rest, tail = ':' :: rest ∧ endsWord rest = true

/-- A word of plain characters is taken whole. -/
theorem takeChunk_append (hbody : ∀ c ∈ body, isPlain c = true) (htail : Stops tail) :
    takeChunk false (body ++ tail) = (body, tail) := by
  induction body with
  | nil =>
    rw [List.nil_append]
    obtain hend | ⟨rest, rfl, hrest⟩ := htail
    · cases tail with
      | nil => rfl
      | cons c cs => simp [takeChunk, hend]
    · simp [takeChunk, endsKey, hrest]
  | cons c body ih =>
    rw [List.forall_mem_cons] at hbody
    have hc := ordinary_of_isPlain hbody.1
    rw [List.cons_append, takeChunk, ih hbody.2, if_neg]
    simp [endsWord, hc.isBreak, hc.word]

/-- A plain word is read up to what stops it, with the gap behind it. -/
theorem readPlain_append (hbody : body ≠ [] ∧ ∀ c ∈ body, isPlain c = true) (htail : Stops tail)
    {indent : Nat} (fuel : Nat) (hlast : (takeGap tail).isLast false indent = true) :
    readPlain false indent (fuel + 1) (body ++ tail) =
      (body, (takeGap tail).crosses, (takeGap tail).rest) := by
  have hne : body.isEmpty = false := by simpa using hbody.1
  simp [readPlain, takeChunk_append hbody.2 htail, hne, hlast]

/-- The candidate that a word is where a key may start. -/
def started (c : Cursor) (tokens : List Token) (columns : List Nat) (may : Bool) :
    Option Candidate :=
  if may then
    some ⟨tokens.length, Lexer.indent ⟨c, tokens, columns, may, none, []⟩ == c.column, c⟩
  else none

/-- Where a key may start, the place is kept in case a colon follows. -/
theorem addCandidate_apply (c : Cursor) (tokens : List Token) (columns : List Nat) (may : Bool) :
    addCandidate ⟨c, tokens, columns, may, none, []⟩ =
      .ok ⟨c, tokens, columns, may, started c tokens columns may, []⟩ := by
  cases may <;> rfl

/-- A word that is the last one of its scalar is a scalar by itself. -/
theorem readPlainScalar_apply (i n col : Nat) (tokens : List Token) (columns : List Nat)
    (may : Bool) (hbody : body ≠ [] ∧ ∀ c ∈ body, isPlain c = true) (htail : Stops tail)
    (hlast : (takeGap tail).isLast false
      (innerWidth ⟨⟨body ++ tail, i, n, col⟩, tokens, columns, may, none, []⟩) = true) :
    readPlainScalar ⟨⟨body ++ tail, i, n, col⟩, tokens, columns, may, none, []⟩ =
      .ok ⟨Cursor.moveTo ⟨body ++ tail, i, n, col⟩ (takeGap tail).rest,
        .scalar (String.ofList body) true :: tokens, columns, (takeGap tail).crosses,
        started ⟨body ++ tail, i, n, col⟩ tokens columns may, []⟩ := by
  have hlength : (body ++ tail).length = (body ++ tail).length - 1 + 1 := by
    have hpos := List.length_pos_iff.2 hbody.1
    rw [List.length_append]
    omega
  have hread := readPlain_append hbody htail ((body ++ tail).length - 1) hlast
  rw [← hlength] at hread
  rw [readPlainScalar, addCandidate_apply]
  simp only [bind, Except.bind, pure, Except.pure, Lexer.rest, inFlow, List.isEmpty_nil,
    Bool.not_true]
  rw [show innerWidth ⟨⟨body ++ tail, i, n, col⟩, tokens, columns, may,
    started ⟨body ++ tail, i, n, col⟩ tokens columns may, []⟩ =
    innerWidth ⟨⟨body ++ tail, i, n, col⟩, tokens, columns, may, none, []⟩ from rfl, hread]
  rfl

/-- **A plain character starts a plain scalar**, unless it is a dash that stands alone. -/
theorem readToken_plain {c : Char} (hc : isPlain c = true) (hrest : l.rest = c :: cs)
    (hmark : l.cursor.atMark '-' = false ∧ l.cursor.atMark '.' = false)
    (hdash : c = '-' → endsWord cs = false) (houter : l.outer = []) :
    l.readToken = l.readPlainScalar := by
  have h := ordinary_of_isPlain hc
  have hstart := h.start
  simp only [List.mem_cons, List.not_mem_nil, or_false, not_or] at hstart
  have hplain : startsPlain false (c :: cs) = true := by
    obtain rfl | hindicator := h.indicator
    · simp [startsPlain, hdash rfl]
    · simp [startsPlain, endsWord, h.isBreak, h.word, hindicator]
  have hcolon := h.word.2.2.1
  rw [readToken, hrest]
  simp only [inFlow, houter, hmark, hstart, hcolon, List.isEmpty_nil]
  simp
  rw [if_neg, if_pos hplain]
  rintro ⟨rfl, hend⟩
  simp [hdash rfl] at hend

/-! ## Keys

A word becomes a key when its colon is met.  The scanner goes back to where the word started and
puts the tokens of a key there. -/

/-- The token that opens a table before its first key. -/
def opening (columns : List Nat) : List Token :=
  if columns.isEmpty then [.tableStart] else []

/-- A plain character ends no word. -/
theorem endsWord_plain {c : Char} (hc : isPlain c = true) (cs : List Char) :
    endsWord (c :: cs) = false := by
  have h := ordinary_of_isPlain hc
  simp [endsWord, h.isBreak, h.word]

/-- A key is not taken for the mark of a document. -/
theorem startsWithMark_key {mark : Char} (hkey : ∀ c ∈ key, isPlain c = true) (hmark : ':' ≠ mark)
    (rest : List Char) : startsWithMark mark (key ++ ':' :: rest) = false := by
  rw [← Bool.not_eq_true]
  intro hstarts
  obtain ⟨after, heq, hend⟩ : ∃ after, key ++ ':' :: rest = mark :: mark :: mark :: after ∧
      endsWord after = true := by
    unfold startsWithMark at hstarts
    split at hstarts
    · simp only [Bool.and_eq_true, beq_iff_eq] at hstarts
      obtain ⟨⟨⟨rfl, rfl⟩, rfl⟩, hend⟩ := hstarts
      exact ⟨_, by assumption, hend⟩
    · cases hstarts
  match key, hkey with
  | [], _ | [_], _ | [_, _], _ => simp [hmark] at heq
  | [a, b, c], _ =>
    obtain ⟨-, -, -, rfl⟩ : a = mark ∧ b = mark ∧ c = mark ∧ ':' :: rest = after := by
      simpa using heq
    exact absurd hend (by simp [endsWord, Yaml.isBreak])
  | a :: b :: c :: d :: ds, h =>
    obtain ⟨-, -, -, rfl⟩ :
        a = mark ∧ b = mark ∧ c = mark ∧ d :: (ds ++ ':' :: rest) = after := by
      simpa using heq
    rw [endsWord_plain (h d (by simp))] at hend
    cases hend

/-- A colon makes a key of the word before it, and a table if none is open. -/
theorem readToken_colon {t : Token} {due : Bool} {start : Cursor} (hcol : col ≠ 0)
    (hcolumns : columns = [] ∨ columns = [0]) (hstart : start.column = 0)
    (hrest : endsWord rest = true) :
    readToken ⟨⟨':' :: rest, i, n, col⟩, t :: tokens, columns, false,
      some ⟨tokens.length, due, start⟩, []⟩ =
      .ok ⟨⟨rest, i + 1, n, col + 1⟩, .value :: t :: .key :: (opening columns ++ tokens), [0],
        false, none, []⟩ := by
  have hvalue (l : Lexer) (hl : l.rest = ':' :: rest) (hc : l.cursor.column ≠ 0) :
      l.readToken = l.readValue := by
    simp [readToken, hl, hc, hrest, Cursor.atMark]
  rw [hvalue _ rfl hcol]
  obtain rfl | rfl := hcolumns
  · simp [readValue, emitAt, openBlock, emitMark, emit, inFlow, Lexer.indent, opening, hstart,
      Cursor.skip, Cursor.step, Yaml.isBreak]
    rw [show tokens.length + 1 + 1 - tokens.length = 2 by omega]
    rfl
  · simp [readValue, emitAt, openBlock, emitMark, emit, inFlow, Lexer.indent, opening, hstart,
      Cursor.skip, Cursor.step, Yaml.isBreak]

/-- A key and its colon are read at the start of a line. -/
theorem leads_key (hkey : key ≠ [] ∧ ∀ c ∈ key, isPlain c = true)
    (hlength : key.length ≤ maxKeyLength) (hcolumns : columns = [] ∨ columns = [0])
    (hrest : endsWord rest = true)
    (h : GoesOn l ⟨⟨key ++ ':' :: rest, i, n, 0⟩, tokens, columns, true, none, []⟩) :
    ∃ i', Leads l ⟨⟨rest, i', n, key.length + 1⟩,
      .value :: .scalar (String.ofList key) true :: .key :: (opening columns ++ tokens), [0], false,
        none, []⟩ := by
  have hpos : 0 < key.length := List.length_pos_iff.2 hkey.1
  have hmove : Cursor.moveTo ⟨key ++ ':' :: rest, i, n, 0⟩ (':' :: rest) =
      ⟨':' :: rest, i + key.length, n, key.length⟩ := by
    rw [Cursor.moveTo_append, Cursor.skip_append, Nat.zero_add]
    intro c hc
    have h := ordinary_of_isPlain (hkey.2 c hc)
    exact ⟨h.isBreak, h.orderMark⟩
  -- the word
  have hword : readToken ⟨⟨key ++ ':' :: rest, i, n, 0⟩, tokens, columns, true, none, []⟩ =
      .ok ⟨⟨':' :: rest, i + key.length, n, key.length⟩,
        .scalar (String.ofList key) true :: tokens, columns, false,
        started ⟨key ++ ':' :: rest, i, n, 0⟩ tokens columns true, []⟩ := by
    have hgap : takeGap (':' :: rest) = ⟨[], false, 0, ':' :: rest⟩ := rfl
    obtain ⟨c, cs, hcs⟩ := List.exists_cons_of_ne_nil hkey.1
    have hfirst : Lexer.rest ⟨⟨key ++ ':' :: rest, i, n, 0⟩, tokens, columns, true, none, []⟩ =
        c :: (cs ++ ':' :: rest) := by
      rw [hcs]
      rfl
    rw [readToken_plain (hkey.2 c (by simp [hcs])) hfirst ?_ ?_ rfl,
      readPlainScalar_apply _ _ _ _ _ _ hkey (.inr ⟨rest, rfl, hrest⟩) (by rw [hgap]; rfl), hgap,
      hmove]
    · simp [Cursor.atMark, startsWithMark_key hkey.2]
    · intro
      cases cs with
      | nil => simp [endsWord, Yaml.isBreak]
      | cons d cs => exact endsWord_plain (hkey.2 d (by simp [hcs])) _
  have hfirst := h.leads hword (by simp [Lexer.rest]; omega)
  -- the colon, up to which the word may be a key
  have hover : ∀ k ∈ started ⟨key ++ ':' :: rest, i, n, 0⟩ tokens columns true,
      k.isOver ⟨':' :: rest, i + key.length, n, key.length⟩ = false := by
    rintro _ ⟨⟩
    simp [Candidate.isOver, hlength]
  have hcandidate : (started ⟨key ++ ':' :: rest, i, n, 0⟩ tokens columns true).any
      (·.isOver ⟨':' :: rest, i + key.length, n, key.length⟩) = false := by
    simpa [started] using hover
  have hskip : skipSpace false (':' :: rest) = (false, ':' :: rest) := rfl
  have hgoes := goOn_apply (.scalar (String.ofList key) true :: tokens) columns false _ hskip
    (Cursor.moveTo_self ⟨':' :: rest, i + key.length, n, key.length⟩)
    (fun k hk => .inr (hover k hk))
  have hclosed : columns.takeWhile (key.length < ·) = [] ∧
      columns.dropWhile (key.length < ·) = columns := by
    obtain rfl | rfl := hcolumns <;> simp
  rw [hcandidate, hclosed.1, hclosed.2] at hgoes
  exact ⟨_, hfirst.trans (GoesOn.leads ⟨hgoes, Nat.le_refl _⟩
    (readToken_colon (by omega) hcolumns rfl hrest) (by simp [Lexer.rest]))⟩

/-! ## Scalars in quotes

Between quotes ink is written as it is, but for quotes and backslashes, and all of it is read as it
is but for what stands behind a backslash. -/

/-- Whether a character is neither a control character nor a line separator. -/
def isInk (c : Char) : Bool :=
  let n := c.toNat
  32 ≤ n && !(127 ≤ n && n ≤ 159) && n != 0x2028 && n != 0x2029

/-- Ink is no line break. -/
theorem isBreak_of_isInk {c : Char} (h : isInk c = true) : Yaml.isBreak c = false := by
  simp only [isInk, Bool.and_eq_true, decide_eq_true_eq, bne_iff_ne] at h
  simp only [Yaml.isBreak, Bool.or_eq_false_iff, beq_eq_false_iff_ne]
  refine ⟨⟨⟨?_, ?_⟩, ?_⟩, ?_⟩ <;> rintro rfl <;> revert h <;> decide

/-- Between quotes, ink is written as it is, but for a quote and a backslash. -/
theorem charText_of_isInk {c : Char} (h : isInk c = true) :
    Json.charText false c = if c = '"' ∨ c = '\\' then ['\\', c] else [c] := by
  have hcontrol : ¬ c.toNat < 32 := by
    simp only [isInk, Bool.and_eq_true, decide_eq_true_eq] at h
    omega
  have hne (d : Char) (hd : d.toNat < 32) : c ≠ d := by
    rintro rfl
    exact hcontrol hd
  unfold Json.charText
  split
  · next h => simp [h]
  split
  · next h => simp [h]
  simp_all [hne '\n' (by decide), hne '\r' (by decide), hne '\t' (by decide),
    hne '\x08' (by decide), hne '\x0c' (by decide)]

/-- **What is written between quotes is read as it was.** -/
theorem readDouble_flatMap {cs : List Char} (h : ∀ c ∈ cs, isInk c = true)
    (blanks tail : List Char) :
    readDouble (.blanks blanks) (cs.flatMap (Json.charText false) ++ '"' :: tail) =
      .ok (blanks ++ cs, tail) := by
  induction cs generalizing blanks with
  | nil => simp [readDouble, Space.chars]
  | cons c cs ih =>
    rw [List.forall_mem_cons] at h
    have hbreak := isBreak_of_isInk h.1
    rw [List.flatMap_cons, List.append_assoc, charText_of_isInk h.1]
    split
    · next hc =>
      have hput : readDouble (.blanks blanks) (['\\', c] ++
          (cs.flatMap (Json.charText false) ++ '"' :: tail)) =
          putBefore (.blanks blanks) [c] (readDouble (.blanks [])
            (cs.flatMap (Json.charText false) ++ '"' :: tail)) := by
        obtain rfl | rfl := hc <;> rfl
      rw [hput, ih h.2]
      simp [putBefore, Except.map, Space.chars]
    · next hc =>
      rw [not_or] at hc
      rw [List.singleton_append]
      by_cases hblank : c = ' '
      · subst hblank
        have hpass : readDouble (.blanks blanks)
            (' ' :: (cs.flatMap (Json.charText false) ++ '"' :: tail)) =
            readDouble (.blanks (blanks ++ [' ']))
              (cs.flatMap (Json.charText false) ++ '"' :: tail) := rfl
        rw [hpass, ih h.2]
        simp
      · have htab : c ≠ '\t' := by
          rintro rfl
          exact absurd h.1 (by decide)
        rw [readDouble]
        · simp [hbreak, Text.isBlankChar, hblank, htab, hc.2, ih h.2, putBefore, Except.map,
            Space.chars]
        all_goals simp_all

/-! ## Lines

Between lines the scanner skips blanks and closes the blocks that the next line is not in. -/

/-- What starts with a character that shows. -/
def Visible (cs : List Char) : Prop :=
  ∃ c rest, cs = c :: rest ∧ c ≠ ' ' ∧ c ≠ '#' ∧ Yaml.isBreak c = false

/-- A new line with its margin, and what follows it. -/
def newLine (w : Nat) (next : List Char) : List Char :=
  '\n' :: (List.replicate w ' ' ++ next)

/-- Before what shows there is no space to skip. -/
theorem Visible.skipSpace_eq (h : Visible cs) : skipSpace false cs = (false, cs) := by
  obtain ⟨c, rest, rfl, hblank, hhash, hbreak⟩ := h
  simp [skipSpace, hblank, hhash, hbreak]

theorem skipSpace_newLine (h : Visible next) (w : Nat) :
    skipSpace false (newLine w next) = (true, next) := by
  have hblanks : ∀ w, (skipSpace false (List.replicate w ' ' ++ next)).2 = next := by
    intro w
    induction w with
    | zero => simp [h.skipSpace_eq]
    | succ w ih => simpa [List.replicate_succ, skipSpace, Yaml.isBreak] using ih
  simp [newLine, skipSpace, Yaml.isBreak, hblanks]

/-- The blanks of a margin are taken up to what shows. -/
theorem takeMargin_blanks (h : Visible next) (w width : Nat) :
    takeMargin none width (List.replicate w ' ' ++ next) = ⟨[], width + w, next⟩ := by
  induction w generalizing width with
  | zero =>
    obtain ⟨c, rest, rfl, hblank, -, hbreak⟩ := h
    simp [takeMargin, hbreak, hblank]
  | succ w ih =>
    simp only [List.replicate_succ, List.cons_append, takeMargin, ih (width + 1)]
    simp [Yaml.isBreak, Nat.add_assoc, Nat.add_comm 1]

/-- A line end and the margin behind it are one gap. -/
theorem takeGap_newLine (h : Visible next) (w : Nat) :
    takeGap (newLine w next) = ⟨[' '], true, w, next⟩ := by
  have hmargin : takeMargin none 0 (newLine w next) = ⟨['\n'], w, next⟩ := by
    rw [newLine, takeMargin, takeMargin_blanks h, Nat.zero_add]
    rfl
  have hblanks : (newLine w next).takeWhile (· == ' ') = [] := rfl
  rw [takeGap, hblanks]
  simp only [List.length_nil, List.drop_zero, hmargin]
  rfl

/-- A new line has one margin and one text behind it. -/
theorem newLine_inj {w' : Nat} {next' : List Char} (h : Visible next) (h' : Visible next')
    (heq : newLine w next = newLine w' next') : w = w' ∧ next = next' := by
  have hgap := takeGap_newLine h w
  rw [heq, takeGap_newLine h' w'] at hgap
  obtain ⟨-, -, hw, hnext⟩ := Gap.mk.inj hgap
  exact ⟨hw.symm, hnext.symm⟩

/-- Reading goes on in the next line, where blocks are closed that start farther in. -/
theorem goesOn_newLine (columns : List Nat) (w i col : Nat) (tokens : List Token) (may : Bool)
    (hnext : Visible next) (hdue : ∀ k ∈ candidate, k.due = false ∧ k.start.line = n) :
    ∃ i' n', GoesOn ⟨⟨newLine w next, i, n, col⟩, tokens, columns, may, candidate, []⟩
      ⟨⟨next, i', n', w⟩, (columns.takeWhile (w < ·)).map (fun _ => .blockEnd) ++ tokens,
        columns.dropWhile (w < ·), true, none, []⟩ := by
  obtain ⟨i', n', hn, hmove⟩ := Cursor.moveTo_line [] next (by simp) w i n col
  have hgo := goOn_apply tokens columns may candidate (skipSpace_newLine hnext w) hmove
    fun k hk => .inl (hdue k hk).1
  have hover : (if candidate.any (·.isOver ⟨next, i', n', w⟩) then none else candidate) =
      (none : Option Candidate) := by
    cases candidate with
    | none => rfl
    | some k =>
      have hline : n ≠ n' := Nat.ne_of_lt hn
      simp [Candidate.isOver, (hdue k rfl).2, hline]
  rw [hover, Bool.or_true] at hgo
  refine ⟨i', n', hgo, ?_⟩
  simp [Lexer.rest, newLine]
  omega

/-- A line has been read up to its tail, behind which the innermost block goes on or ends: reading
goes on in a line that is not moved in farther, where blocks are closed that start farther in, or it
ends, and all blocks with it. -/
structure Behind (l : Lexer) (tail : List Char) (tokens : List Token) (columns : List Nat) :
    Prop where
  goesOn : ∀ w next, tail = newLine w next → Visible next → (∀ column ∈ columns.head?, w ≤ column) →
    ∃ i n, GoesOn l
      ⟨⟨next, i, n, w⟩, (columns.takeWhile (w < ·)).map (fun _ => .blockEnd) ++ tokens,
        columns.dropWhile (w < ·), true, none, []⟩
  ends : tail = [] → l.next? = .ok none ∧
    l.finished = .ok (tokens.reverse ++ columns.map (fun _ => .blockEnd) ++ [.finish])

/-- Behind a token the line has been read up to its tail. -/
theorem behind_of_rest (tail : List Char) (i col : Nat) (tokens : List Token) (may : Bool)
    (hdue : ∀ k ∈ candidate, k.due = false ∧ k.start.line = n)
    (hcolumns : ∀ column ∈ columns, column ≤ col) :
    Behind ⟨⟨tail, i, n, col⟩, tokens, columns, may, candidate, []⟩ tail tokens columns where
  goesOn w next htail hnext _ := htail ▸ goesOn_newLine columns w i col tokens may hnext hdue
  ends htail := by
    subst htail
    have hopen : columns.takeWhile (col < ·) = [] ∧ columns.dropWhile (col < ·) = columns := by
      cases columns with
      | nil => exact ⟨rfl, rfl⟩
      | cons column columns =>
        have hcol := Nat.not_lt.2 (hcolumns column List.mem_cons_self)
        simp [hcol]
    have hskip : skipSpace false [] = (false, []) := rfl
    have hgo := goOn_apply tokens columns may candidate hskip (Cursor.moveTo_self ⟨[], i, n, col⟩)
      fun k hk => .inl (hdue k hk).1
    rw [hopen.1, hopen.2] at hgo
    refine ⟨by rw [next?, hgo]; rfl, ?_⟩
    have hcandidate : ∀ k ∈ if candidate.any (·.isOver ⟨[], i, n, col⟩) then none else candidate,
        k.due = false := by
      split
      · simp
      · exact fun k hk => (hdue k hk).1
    rw [finished, hgo]
    simp [bind, Except.bind, pure, Except.pure, endBlocks_apply hcandidate, List.map_const']

/-- **A block in which nothing follows is as good as closed.** -/
theorem Behind.closed {column : Nat} (h : Behind l tail tokens (w :: column :: columns))
    (hw : column < w) : Behind l tail (.blockEnd :: tokens) (column :: columns) where
  goesOn w' next htail hnext hle := by
    have hle' : w' ≤ column := hle column rfl
    obtain ⟨i, n, hgoes⟩ := h.goesOn w' next htail hnext (by simp; omega)
    have hlt : w' < w := by omega
    refine ⟨i, n, ?_⟩
    simpa [hlt, List.map_const', ← List.replicate_succ, List.replicate_succ', List.takeWhile_cons,
      List.dropWhile_cons] using hgoes
  ends htail := by simpa using h.ends htail

/-- A line may end where no word is that could be a key. -/
theorem behind_of_none (tail : List Char) (i n col : Nat) (tokens : List Token) (may : Bool)
    (hcolumns : ∀ column ∈ columns, column ≤ col) :
    Behind ⟨⟨tail, i, n, col⟩, tokens, columns, may, none, []⟩ tail tokens columns :=
  behind_of_rest tail i col tokens may (by simp) hcolumns

/-- A scalar that stands bare may be passed together with the line end behind it. -/
theorem behind_of_newLine (hnext : Visible next)
    (hdue : ∀ k ∈ candidate, k.due = false ∧ k.start.line < n) :
    Behind ⟨⟨next, i, n, w⟩, tokens, columns, true, candidate, []⟩ (newLine w next) tokens
      columns where
  goesOn w' next' htail hnext' _ := by
    obtain ⟨rfl, rfl⟩ := newLine_inj hnext hnext' htail
    have hgo := goOn_apply tokens columns true candidate hnext.skipSpace_eq
      (Cursor.moveTo_self ⟨next, i, n, w⟩) fun k hk => .inl (hdue k hk).1
    have hover : (if candidate.any (·.isOver ⟨next, i, n, w⟩) then none else candidate) =
        (none : Option Candidate) := by
      cases candidate with
      | none => rfl
      | some k =>
        have hline : k.start.line ≠ n := Nat.ne_of_lt (hdue k rfl).2
        simp [Candidate.isOver, hline]
    rw [hover] at hgo
    exact ⟨i, n, hgo, Nat.le_refl _⟩
  ends htail := by cases htail

/-! ## Scalars

A scalar that stands bare ends at the end of its line, for the next one stands too far out to go on
with it. -/

/-- Whether a text stands without quotes. -/
def standsBare (s : String) : Bool :=
  !(s.isEmpty || needsQuotes s)

/-- What follows a line of a block: nothing, or a line that does not start farther in. -/
def Follows (columns : List Nat) (tail : List Char) : Prop :=
  tail = [] ∨ ∃ w next, tail = newLine w next ∧ Visible next ∧ ∃ column ∈ columns.head?, w ≤ column

/-- What follows a line ends a word. -/
theorem Follows.endsWord (h : Follows columns tail) : endsWord tail = true := by
  obtain rfl | ⟨w, next, rfl, -⟩ := h <;> rfl

/-- A key that starts in this line is not due yet. -/
theorem not_due_started {c : Cursor} (tokens : List Token) (may : Bool)
    (hcolumns : ∀ column ∈ columns, column < c.column) :
    ∀ k ∈ started c tokens columns may, k.due = false ∧ k.start.line = c.line := by
  intro k hk
  cases may with
  | false => cases hk
  | true =>
    obtain rfl := Option.some.inj hk
    refine ⟨?_, rfl⟩
    cases columns with
    | nil => rfl
    | cons column columns =>
      have hne : (column : Int) ≠ c.column := by
        have hlt := hcolumns column List.mem_cons_self
        omega
      simpa [Lexer.indent] using hne

/-- A blank is passed over. -/
theorem goesOn_blank (i n : Nat) (tokens : List Token) (may : Bool) (hvisible : Visible cs)
    (hcolumns : ∀ column ∈ columns, column ≤ col) :
    GoesOn ⟨⟨' ' :: cs, i, n, col⟩, tokens, columns, may, none, []⟩
      ⟨⟨cs, i + 1, n, col + 1⟩, tokens, columns, may, none, []⟩ := by
  have hskip : skipSpace false (' ' :: cs) = (false, cs) := by
    simp [skipSpace, Yaml.isBreak, hvisible.skipSpace_eq]
  have hwide : ∀ c ∈ [' '], Yaml.isBreak c = false ∧ c ≠ '\uFEFF' := by
    rw [List.forall_mem_singleton]
    decide
  have hmove : Cursor.moveTo ⟨' ' :: cs, i, n, col⟩ cs = ⟨cs, i + 1, n, col + 1⟩ :=
    (Cursor.moveTo_append [' '] cs i n col).trans
      (Cursor.skip_append hwide cs i n col)
  have hopen : columns.takeWhile (col + 1 < ·) = [] ∧
      columns.dropWhile (col + 1 < ·) = columns := by
    cases columns with
    | nil => exact ⟨rfl, rfl⟩
    | cons column columns =>
      have hcol : ¬ col + 1 < column := by
        have hle := hcolumns column List.mem_cons_self
        omega
      simp [hcol]
  have hgo := goOn_apply tokens columns may none hskip hmove (by simp)
  rw [hopen.1, hopen.2] at hgo
  simp only [Bool.or_false] at hgo
  exact ⟨hgo, by simp [Lexer.rest]⟩

/-- A quote starts a scalar in quotes. -/
theorem readToken_quote (hrest : l.rest = '"' :: rest) (hcolumn : l.cursor.column ≠ 0)
    (houter : l.outer = []) : l.readToken = l.readQuoted (readDouble (.blanks [])) := by
  simp [readToken, hrest, hcolumn, houter, Cursor.atMark, inFlow]

/-- A scalar in quotes is read behind a blank. -/
theorem leads_quote (i n : Nat) (tokens : List Token) (may : Bool)
    (hbody : ∀ c ∈ body, Yaml.isBreak c = false)
    (hdouble : readDouble (.blanks []) (body ++ '"' :: tail) = .ok (cs, tail))
    (hcolumns : ∀ column ∈ columns, column ≤ col) :
    ∃ l', Leads ⟨⟨' ' :: '"' :: (body ++ '"' :: tail), i, n, col⟩, tokens, columns, may, none, []⟩
        l' ∧ Behind l' tail (.scalar (String.ofList cs) false :: tokens) columns := by
  have hvisible : Visible ('"' :: (body ++ '"' :: tail)) := ⟨_, _, rfl, by decide⟩
  have hgoes := goesOn_blank i n tokens may hvisible hcolumns
  have hbreak : ∀ c ∈ '"' :: (body ++ ['"']), Yaml.isBreak c = false := by
    simp only [List.forall_mem_cons, List.forall_mem_append]
    exact ⟨rfl, hbody, rfl, by simp⟩
  obtain ⟨col', hcol, hskip⟩ := Cursor.exists_skip_append hbreak tail (i + 1) n (col + 1)
  rw [← Cursor.moveTo_append] at hskip
  have hcolumns' : ∀ column ∈ columns, column < col + 1 :=
    fun column hcolumn => Nat.lt_succ_of_le (hcolumns column hcolumn)
  have hread : readToken ⟨⟨'"' :: (body ++ '"' :: tail), i + 1, n, col + 1⟩, tokens, columns, may,
      none, []⟩ =
      .ok ⟨⟨tail, i + 1 + ('"' :: (body ++ ['"'])).length, n, col'⟩,
        .scalar (String.ofList cs) false :: tokens, columns, false,
        started ⟨'"' :: (body ++ '"' :: tail), i + 1, n, col + 1⟩ tokens columns may, []⟩ := by
    rw [readToken_quote rfl (Nat.succ_ne_zero col) rfl, readQuoted, readWord, addCandidate_apply]
    simp only [bind, Except.bind, pure, Except.pure, Lexer.rest, List.drop_succ_cons,
      List.drop_zero, hdouble]
    simp only [emit, moveTo, ← hskip, List.cons_append, List.append_assoc, List.nil_append]
  refine ⟨_, hgoes.leads hread ?_, behind_of_rest _ _ _ _ _ (not_due_started _ _ hcolumns') ?_⟩
  · simp [Lexer.rest]
    omega
  · exact fun column hcolumn => Nat.le_trans (hcolumns column hcolumn) (by omega)

/-- A scalar that stands bare is read behind a blank. -/
theorem leads_plain (i n : Nat) (tokens : List Token) (may : Bool)
    (hbody : body ≠ [] ∧ ∀ c ∈ body, isPlain c = true) (hdash : body ≠ ['-'])
    (hcolumns : ∀ column ∈ columns, column ≤ col) (htail : Follows columns tail) :
    ∃ l', Leads ⟨⟨' ' :: (body ++ tail), i, n, col⟩, tokens, columns, may, none, []⟩ l' ∧
      Behind l' tail (.scalar (String.ofList body) true :: tokens) columns := by
  obtain ⟨c, cs, rfl⟩ := List.exists_cons_of_ne_nil hbody.1
  have hc := ordinary_of_isPlain (hbody.2 c List.mem_cons_self)
  have hvisible : Visible (c :: cs ++ tail) :=
    ⟨c, cs ++ tail, rfl, hc.word.1, hc.word.2.2.2, hc.isBreak⟩
  have hgoes := goesOn_blank i n tokens may hvisible hcolumns
  have hend := htail.endsWord
  have hplain : readToken ⟨⟨c :: cs ++ tail, i + 1, n, col + 1⟩, tokens, columns, may, none, []⟩ =
      readPlainScalar ⟨⟨c :: cs ++ tail, i + 1, n, col + 1⟩, tokens, columns, may, none, []⟩ := by
    refine readToken_plain (hbody.2 c List.mem_cons_self) rfl (by simp [Cursor.atMark]) ?_ rfl
    rintro rfl
    cases cs with
    | nil => exact absurd rfl hdash
    | cons d cs => exact endsWord_plain (hbody.2 d (by simp)) _
  have hline : ∀ d ∈ c :: cs, Yaml.isBreak d = false := fun d hd =>
    (ordinary_of_isPlain (hbody.2 d hd)).isBreak
  have hcolumns' : ∀ column ∈ columns, column < col + 1 :=
    fun column hcolumn => Nat.lt_succ_of_le (hcolumns column hcolumn)
  have hdue := not_due_started tokens may
    (c := ⟨c :: cs ++ tail, i + 1, n, col + 1⟩) hcolumns'
  obtain rfl | ⟨w, next, rfl, hnext, column, hcolumn, hw⟩ := htail
  · have hread := readPlainScalar_apply (i + 1) n (col + 1) tokens columns may hbody (.inl hend)
      (by rfl)
    obtain ⟨col', hcol, hskip⟩ := Cursor.exists_skip_append hline [] (i + 1) n (col + 1)
    rw [← Cursor.moveTo_append] at hskip
    rw [show (takeGap []).rest = [] from rfl, hskip] at hread
    refine ⟨_, hgoes.leads (hplain.trans hread) ?_,
      behind_of_rest _ _ _ _ _ hdue fun column hcolumn => ?_⟩
    · simp [Lexer.rest]
    · exact Nat.le_trans (hcolumns column hcolumn) (by omega)
  · have hgap := takeGap_newLine hnext w
    have hlast : (takeGap (newLine w next)).isLast false (innerWidth ⟨⟨c :: cs ++ newLine w next,
        i + 1, n, col + 1⟩, tokens, columns, may, none, []⟩) = true := by
      rw [hgap]
      cases columns with
      | nil => cases hcolumn
      | cons first columns =>
        obtain rfl := Option.some.inj hcolumn
        have hlt : w < first + 1 := Nat.lt_succ_of_le hw
        simp [Gap.isLast, innerWidth, hlt]
    have hread :=
      readPlainScalar_apply (i + 1) n (col + 1) tokens columns may hbody (.inl hend) hlast
    obtain ⟨i', n', hn, hmove⟩ := Cursor.moveTo_line (c :: cs) next hline w (i + 1) n (col + 1)
    rw [hgap, show newLine w next = '\n' :: (List.replicate w ' ' ++ next) from rfl, hmove] at hread
    refine ⟨_, hgoes.leads (hplain.trans hread) ?_,
      behind_of_newLine hnext fun k hk => ⟨(hdue k hk).1, (hdue k hk).2 ▸ hn⟩⟩
    simp [Lexer.rest, newLine]
    omega

/-- **What is written for a text is read as that text**, behind a key or a dash. -/
theorem leads_scalar {s : String} (i n col : Nat) (tokens : List Token) (may : Bool)
    (hs : ∀ c ∈ s.toList, isInk c = true) (hdash : s ≠ "-")
    (hcolumns : ∀ column ∈ columns, column ≤ col) (htail : Follows columns tail) :
    ∃ l', Leads ⟨⟨' ' :: ((scalarText s).toList ++ tail), i, n, col⟩, tokens, columns, may, none,
        []⟩ l' ∧ Behind l' tail (.scalar s (standsBare s) :: tokens) columns := by
  rw [standsBare, scalarText]
  split
  · next hquoted =>
    have hbody : ∀ c ∈ s.toList.flatMap (Json.charText false), Yaml.isBreak c = false := by
      intro c hc
      obtain ⟨d, hd, hc⟩ := List.mem_flatMap.1 hc
      rw [charText_of_isInk (hs d hd)] at hc
      have hbreak := isBreak_of_isInk (hs d hd)
      split at hc
      · obtain rfl | rfl : c = '\\' ∨ c = d := by simpa using hc
        · rfl
        · exact hbreak
      · obtain rfl : c = d := by simpa using hc
        exact hbreak
    have hleads := leads_quote i n tokens may hbody
      (readDouble_flatMap hs [] tail) hcolumns
    rw [hquoted, Json.quote, String.toList_ofList, Json.stringText]
    simpa using hleads
  · next hbare =>
    have hbody : s.toList ≠ [] ∧ ∀ c ∈ s.toList, isPlain c = true := by
      simpa [needsQuotes, String.isEmpty_iff] using hbare
    have hne : s.toList ≠ ['-'] := fun heq => hdash (by rw [← String.ofList_toList (s := s), heq])
    have hleads := leads_plain i n tokens may hbody hne hcolumns
      htail
    rw [Bool.not_eq_true] at hbare
    rw [hbare]
    simpa using hleads

/-! ## Dashes

A dash may open a list in its column, or go on with one that is open there. -/

/-- The columns of the open blocks behind a dash. -/
def listColumns (w : Nat) (columns : List Nat) : List Nat :=
  if columns.head? = some w then columns else w :: columns

/-- The tokens of a dash, before which a list is opened if none is open in its column. -/
def dashTokens (w : Nat) (columns : List Nat) : List Token :=
  if columns.head? = some w then [.dash] else [.dash, .listStart]

/-- A dash opens a list unless one is open in its column. -/
theorem openBlock_apply {c : Cursor} {t : Token} (hcolumns : ∀ column ∈ columns.head?, column ≤ w) :
    openBlock w t tokens.length ⟨c, tokens, columns, may, none, []⟩ =
      ⟨c, if columns.head? = some w then tokens else t :: tokens, listColumns w columns, may, none,
        []⟩ := by
  have hindent : Lexer.indent ⟨c, tokens, columns, may, none, []⟩ < w ↔ columns.head? ≠ some w := by
    cases columns with
    | nil =>
      simp [Lexer.indent]
      omega
    | cons column columns =>
      have hle := hcolumns column rfl
      simp [Lexer.indent]
      omega
  by_cases h : columns.head? = some w
  · rw [openBlock, if_neg (by simp [hindent, h]), if_pos h, listColumns, if_pos h]
  · rw [openBlock, if_pos (hindent.2 h), if_neg h, listColumns, if_neg h]
    simp [emitAt]

/-- A dash before the end of a word starts an item. -/
theorem readToken_dash (hrest : l.rest = '-' :: rest) (hcolumn : l.cursor.column ≠ 0)
    (hend : endsWord rest = true) : l.readToken = l.readDash := by
  simp [readToken, hrest, hcolumn, hend, Cursor.atMark]

/-- A dash is refused where no token may start a line. -/
theorem next?_dash {m : Lexer} (h : l.goOn = .ok m) (hrest : m.rest = '-' :: rest)
    (hcolumn : m.cursor.column ≠ 0) (hend : endsWord rest = true) (houter : m.outer = [])
    (hmay : m.keyMayStart = false) : l.next? = .error .malformed := by
  rw [next?, h]
  change (if m.rest.isEmpty then _ else _) = _
  rw [hrest, readToken_dash hrest hcolumn hend, readDash, openHere]
  simp [inFlow, houter, hmay, bind, Except.bind]

/-- A dash is read in the column of a list. -/
theorem leads_dash (hw : w ≠ 0) (hrest : endsWord rest = true)
    (hcolumns : ∀ column ∈ columns.head?, column ≤ w)
    (h : GoesOn l ⟨⟨'-' :: rest, i, n, w⟩, tokens, columns, true, none, []⟩) :
    Leads l ⟨⟨rest, i + 1, n, w + 1⟩, dashTokens w columns ++ tokens, listColumns w columns, true,
      none, []⟩ := by
  refine h.leads ?_ (by simp [Lexer.rest])
  have hopen : openHere .listStart ⟨⟨'-' :: rest, i, n, w⟩, tokens, columns, true, none, []⟩ =
      .ok ⟨⟨'-' :: rest, i, n, w⟩, if columns.head? = some w then tokens else .listStart :: tokens,
        listColumns w columns, true, none, []⟩ := by
    rw [← openBlock_apply hcolumns]
    rfl
  rw [readToken_dash rfl hw hrest, readDash, hopen, dashTokens]
  split <;> rfl

end MdxPages.Frontmatter
