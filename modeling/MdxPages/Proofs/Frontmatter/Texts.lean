import MdxPages.Proofs.Frontmatter.Block
import MdxPages.Proofs.Frontmatter.Tokens
import MdxPages.Yaml.Tag

/-!
# Proofs/Frontmatter/Texts — metadata of texts and lists of texts, and its tokens
-/

namespace MdxPages.Frontmatter

open Yaml Yaml.Lexer

/-! ## Metadata

Most pages have texts and lists of texts only.  For these the tokens are known, and the fields of
any page are put together from them. -/

/-- What stands at a key of most pages: a text or a list of texts. -/
inductive Datum
  | text (s : String)
  | texts (s : String) (more : List String)
deriving DecidableEq

namespace Datum

/-- The texts of a datum. -/
def strings : Datum → List String
  | text s => [s]
  | texts s more => s :: more

/-- A datum as a value. -/
def value : Datum → Value
  | text s => .str s
  | texts s more => .arr (.str s :: more.map .str)

/-- What is written behind the colon of a key. -/
def chars : Datum → List Char
  | text s => ' ' :: (scalarText s).toList
  | texts s more => (s :: more).flatMap fun s => newLine 2 ('-' :: ' ' :: (scalarText s).toList)

/-- The tokens of an item behind its dash: a dash that stands alone is itself the item of a list. -/
def itemTokens (s : String) : List Token :=
  if s = "-" then [.listStart, .dash, .blockEnd] else [.scalar s (standsBare s)]

/-- The tokens of a datum. -/
def tokens : Datum → List Token
  | text s => [.scalar s (standsBare s)]
  | texts s more =>
    .listStart :: (s :: more).flatMap (fun s => .dash :: itemTokens s) ++ [.blockEnd]

/-- A datum with tokens: it has no control characters and no line separators, and it is no dash,
which could only start a list. -/
structure Tokened (d : Datum) : Prop where
  ink : ∀ s ∈ d.strings, ∀ c ∈ s.toList, isInk c = true
  ne_dash : d ≠ text "-"

end Datum

/-- What is written for a field. -/
def fieldChars (f : String × Datum) : List Char :=
  f.1.toList ++ ':' :: f.2.chars

/-- The tokens of a field. -/
def fieldTokens (f : String × Datum) : List Token :=
  [.key, .scalar f.1 true, .value] ++ f.2.tokens

/-- A key that is read as a text: plain characters, not too many of them to be a key, and nothing
but a text in this form. -/
structure ReadsAsKey (key : String) : Prop where
  isKey : IsKey key
  length : key.toList.length ≤ maxKeyLength
  isText : Tag.ofPlain key.toList = .text

/-! ## Reading

The scanner is followed from state to state: it leads from one to another if it gets there after
some steps, with tokens added. -/

variable {rest tail next : List Char} {i n col : Nat} {tokens : List Token} {columns : List Nat}
  {l l' m : Lexer} {key s : String} {more : List String}

@[simp] theorem newLine_append (w : Nat) (next rest : List Char) :
    newLine w next ++ rest = newLine w (next ++ rest) := by
  simp [newLine]

/-- What is written for items from the first one's dash on. -/
def itemsChars (s : String) (more : List String) : List Char :=
  '-' :: ' ' :: ((scalarText s).toList ++
    more.flatMap fun s => newLine 2 ('-' :: ' ' :: (scalarText s).toList))

theorem visible_itemsChars (s : String) (more : List String) (tail : List Char) :
    Visible (itemsChars s more ++ tail) :=
  ⟨_, _, rfl, by decide⟩

theorem visible_dash (tail : List Char) : Visible ('-' :: tail) :=
  ⟨_, _, rfl, by decide⟩

/-- An item is read behind its dash. -/
theorem leads_item (hs : ∀ c ∈ s.toList, isInk c = true)
    (hcolumns : columns = [0] ∨ columns = [2, 0]) (htail : Follows [2, 0] tail)
    (h : GoesOn l ⟨⟨'-' :: ' ' :: ((scalarText s).toList ++ tail), i, n, 2⟩, tokens, columns, true,
      none, []⟩) :
    ∃ l', Leads l l' ∧
      Behind l' tail ((Datum.itemTokens s).reverse ++ dashTokens 2 columns ++ tokens) [2, 0] := by
  have hdash := leads_dash (by decide) rfl (by obtain rfl | rfl := hcolumns <;> simp) h
  have hopen : listColumns 2 columns = [2, 0] := by
    obtain rfl | rfl := hcolumns <;> rfl
  have hlist : ∀ column ∈ [2, 0], column ≤ 3 := by decide
  rw [hopen] at hdash
  rw [Datum.itemTokens]
  split
  · next heq =>
    rw [heq] at hdash
    have hblank := goesOn_blank (i + 1) n (dashTokens 2 columns ++ tokens) true
      (visible_dash tail) hlist
    have hinner := leads_dash (by decide) htail.endsWord (by simp) hblank
    have hnested : ∀ column ∈ [4, 2, 0], column ≤ 5 := by decide
    have hbehind := behind_of_none tail (i + 1 + 1 + 1) n 5
      (.dash :: .listStart :: (dashTokens 2 columns ++ tokens)) true hnested
    exact ⟨_, hdash.trans hinner, hbehind.closed (by decide)⟩
  · next hne =>
    obtain ⟨l', hleads, hbehind⟩ := leads_scalar _ _ 3 _ _ hs hne hlist htail
    exact ⟨l', hdash.trans hleads, hbehind⟩

/-- **Items are read one after the other.** -/
theorem leads_items (hs : ∀ s' ∈ s :: more, ∀ c ∈ s'.toList, isInk c = true)
    (hcolumns : columns = [0] ∨ columns = [2, 0]) (htail : Follows [2, 0] tail)
    (h : GoesOn l ⟨⟨itemsChars s more ++ tail, i, n, 2⟩, tokens, columns, true, none, []⟩) :
    ∃ l' tokens', Leads l l' ∧ Behind l' tail tokens' [2, 0] ∧
      tokens'.reverse = tokens.reverse ++ (dashTokens 2 columns).reverse ++
        Datum.itemTokens s ++ more.flatMap fun s => .dash :: Datum.itemTokens s := by
  induction more generalizing s l i n tokens columns with
  | nil =>
    rw [itemsChars, List.flatMap_nil, List.append_nil] at h
    obtain ⟨l', hleads, hbehind⟩ := leads_item (hs s List.mem_cons_self) hcolumns htail h
    exact ⟨l', _, hleads, hbehind, by simp⟩
  | cons next more ih =>
    rw [List.forall_mem_cons] at hs
    have hchars : itemsChars s (next :: more) ++ tail =
        '-' :: ' ' :: ((scalarText s).toList ++ newLine 2 (itemsChars next more ++ tail)) := by
      simp [itemsChars]
    have hvisible := visible_itemsChars next more tail
    rw [hchars] at h
    obtain ⟨l₁, hleads, hbehind⟩ := leads_item hs.1 hcolumns
      (.inr ⟨2, _, rfl, hvisible, 2, rfl, Nat.le_refl 2⟩) h
    obtain ⟨i', n', hgoes⟩ := hbehind.goesOn 2 _ rfl hvisible (by simp)
    obtain ⟨l', tokens', hleads', hbehind', htokens⟩ := ih hs.2 (.inr rfl) hgoes
    exact ⟨l', tokens', hleads.trans hleads', hbehind', by simp [htokens, dashTokens]⟩

/-! ## Fields

Behind a field the scanner stands at the start of a line or at the end of the text, in the outermost
block. -/

/-- A field has been read up to its tail: another field follows, or the table ends. -/
structure BehindField (l : Lexer) (tail : List Char) (tokens : List Token) : Prop where
  goesOn : ∀ next, tail = newLine 0 next → Visible next → ∃ i n tokens', GoesOn l
    ⟨⟨next, i, n, 0⟩, tokens', [0], true, none, []⟩ ∧ tokens'.reverse = tokens
  ends : tail = [] → l.next? = .ok none ∧ l.finished = .ok (tokens ++ [.blockEnd, .finish])

/-- What is read behind a token at the top is read behind a field. -/
theorem Behind.field (h : Behind l tail tokens [0]) : BehindField l tail tokens.reverse where
  goesOn next htail hnext := by
    obtain ⟨i, n, hgoes⟩ := h.goesOn 0 next htail hnext (by simp)
    exact ⟨i, n, _, hgoes, by simp⟩
  ends htail := by simpa using h.ends htail

/-- What follows a field: nothing, or a line that is not moved in. -/
def FollowsField (tail : List Char) : Prop :=
  tail = [] ∨ ∃ next, tail = newLine 0 next ∧ Visible next

/-- A line that is not moved in closes all blocks but the outermost one. -/
theorem FollowsField.follows (h : FollowsField tail) (column : Nat) (columns : List Nat) :
    Follows (column :: columns) tail := by
  obtain rfl | ⟨next, rfl, hnext⟩ := h
  · exact .inl rfl
  · exact .inr ⟨0, next, rfl, hnext, column, rfl, Nat.zero_le column⟩

/-- **What stands behind a key is read.** -/
theorem leads_datum {d : Datum} (hd : d.Tokened) (htail : FollowsField tail) :
    ∃ l', Leads ⟨⟨d.chars ++ tail, i, n, col⟩, tokens, [0], false, none, []⟩ l' ∧
      BehindField l' tail (tokens.reverse ++ d.tokens) := by
  have htable : ∀ column ∈ [0], column ≤ col := by simp
  cases d with
  | text s =>
    have hne : s ≠ "-" := fun heq => hd.ne_dash (congrArg Datum.text heq)
    obtain ⟨l', hleads, hbehind⟩ := leads_scalar i n col tokens false (hd.ink s List.mem_cons_self)
      hne htable (htail.follows _ _)
    exact ⟨l', hleads, by simpa [Datum.tokens] using hbehind.field⟩
  | texts s more =>
    have hchars : (Datum.texts s more).chars ++ tail = newLine 2 (itemsChars s more ++ tail) := by
      simp [Datum.chars, itemsChars]
    have hnone : ∀ k ∈ (none : Option Candidate), k.due = false ∧ k.start.line = n := by simp
    obtain ⟨i', n', hgoes⟩ :=
      goesOn_newLine [0] 2 i col tokens false (visible_itemsChars s more tail) hnone
    obtain ⟨l', tokens', hleads, hbehind, htokens⟩ :=
      leads_items hd.ink (.inl rfl) (htail.follows _ _) hgoes
    rw [hchars]
    refine ⟨l', hleads, ?_⟩
    have hfield := (hbehind.closed (by decide)).field
    rw [List.reverse_cons, htokens] at hfield
    simpa [Datum.tokens, dashTokens] using hfield

/-- Behind the colon of a key comes a blank or a line end. -/
theorem endsWord_chars (d : Datum) (tail : List Char) : endsWord (d.chars ++ tail) = true := by
  cases d <;> rfl

theorem reverse_opening (columns : List Nat) : (opening columns).reverse = opening columns := by
  rw [opening]
  split <;> rfl

/-- The key of a field and its colon are read at the start of a line. -/
theorem leads_fieldKey {d : Datum} (hkey : ReadsAsKey key) (hcolumns : columns = [] ∨ columns = [0])
    (h : GoesOn l ⟨⟨fieldChars (key, d) ++ tail, i, n, 0⟩, tokens, columns, true, none, []⟩) :
    ∃ i', Leads l ⟨⟨d.chars ++ tail, i', n, key.toList.length + 1⟩,
      .value :: .scalar key true :: .key :: (opening columns ++ tokens), [0], false, none, []⟩ := by
  have hchars : fieldChars (key, d) ++ tail = key.toList ++ ':' :: (d.chars ++ tail) := by
    simp [fieldChars]
  have hword : key.toList ≠ [] ∧ ∀ c ∈ key.toList, isPlain c = true :=
    ⟨by simpa using hkey.isKey.1, hkey.isKey.2⟩
  rw [hchars] at h
  obtain ⟨i', hleads⟩ := leads_key hword hkey.length hcolumns (endsWord_chars d tail) h
  exact ⟨i', by simpa using hleads⟩

/-- **A field is read at the start of a line.** -/
theorem leads_field {f : String × Datum} (hkey : ReadsAsKey f.1) (hd : f.2.Tokened)
    (hcolumns : columns = [] ∨ columns = [0]) (htail : FollowsField tail)
    (h : GoesOn l ⟨⟨fieldChars f ++ tail, i, n, 0⟩, tokens, columns, true, none, []⟩) :
    ∃ l', Leads l l' ∧
      BehindField l' tail (tokens.reverse ++ opening columns ++ fieldTokens f) := by
  obtain ⟨i', hleads⟩ := leads_fieldKey hkey hcolumns h
  obtain ⟨l', hleads', hbehind⟩ := leads_datum hd htail
  refine ⟨l', hleads.trans hleads', ?_⟩
  simpa [fieldTokens, reverse_opening] using hbehind

theorem visible_fieldChars {f : String × Datum} (hkey : IsKey f.1) (tail : List Char) :
    Visible (fieldChars f ++ tail) := by
  obtain ⟨c, cs, hcs⟩ := List.exists_cons_of_ne_nil (show f.1.toList ≠ [] by simpa using hkey.1)
  have hc := ordinary_of_isPlain (hkey.2 c (by simp [hcs]))
  refine ⟨c, cs ++ ':' :: f.2.chars ++ tail, by simp [fieldChars, hcs], hc.word.1, hc.word.2.2.2,
    hc.isBreak⟩

/-- What is written for fields behind another one, each on a line of its own. -/
def linesChars (fields : List (String × Datum)) : List Char :=
  fields.flatMap fun f => newLine 0 (fieldChars f)

theorem linesChars_append (fields more : List (String × Datum)) :
    linesChars (fields ++ more) = linesChars fields ++ linesChars more :=
  List.flatMap_append

/-- Each field stands on a line of its own. -/
theorem linesChars_cons (f : String × Datum) (fields : List (String × Datum)) :
    linesChars (f :: fields) = newLine 0 (fieldChars f ++ linesChars fields) := by
  rw [linesChars, List.flatMap_cons, newLine_append]
  rfl

/-- **Fields are read one after the other.** -/
theorem leads_fields {f : String × Datum} {fields : List (String × Datum)}
    (hkeys : ∀ g ∈ f :: fields, ReadsAsKey g.1) (hd : ∀ g ∈ f :: fields, g.2.Tokened)
    (hcolumns : columns = [] ∨ columns = [0]) (htail : FollowsField tail)
    (h : GoesOn l ⟨⟨fieldChars f ++ (linesChars fields ++ tail), i, n, 0⟩, tokens, columns, true,
      none, []⟩) :
    ∃ l', Leads l l' ∧ BehindField l' tail
      (tokens.reverse ++ opening columns ++ (f :: fields).flatMap fieldTokens) := by
  induction fields generalizing f l i n tokens columns with
  | nil =>
    obtain ⟨l', hleads, hbehind⟩ := leads_field (hkeys f List.mem_cons_self)
      (hd f List.mem_cons_self) hcolumns htail h
    exact ⟨l', hleads, by simpa using hbehind⟩
  | cons g fields ih =>
    rw [List.forall_mem_cons] at hkeys hd
    have hvisible := visible_fieldChars (f := g) (hkeys.2 g List.mem_cons_self).isKey
      (linesChars fields ++ tail)
    rw [linesChars_cons, newLine_append, List.append_assoc] at h
    obtain ⟨l₁, hleads, hbehind⟩ :=
      leads_field hkeys.1 hd.1 hcolumns (.inr ⟨_, rfl, hvisible⟩) h
    obtain ⟨i', n', tokens', hgoes, htokens⟩ := hbehind.goesOn _ rfl hvisible
    obtain ⟨l', hleads', hbehind'⟩ := ih hkeys.2 hd.2 (.inr rfl) hgoes
    refine ⟨l', hleads.trans hleads', ?_⟩
    simpa [htokens, opening] using hbehind'

/-- Reading gets to a state with a step left to go on from there. -/
theorem scan_eq_run {cs : List Char} (h : Leads { cursor := { rest := cs } } l) :
    ∃ fuel, Token.scan cs = run (fuel + 1) l := by
  obtain ⟨k, hk, hrun⟩ := h
  have hfuel : cs.length + 1 = k + (cs.length - k + 1) := by
    have hle : k ≤ cs.length := Nat.le_trans (Nat.le_add_right _ _) hk
    omega
  exact ⟨cs.length - k, by rw [Token.scan, hfuel, hrun]⟩

/-- The tokens of a whole text, if reading gets to its end. -/
theorem scan_eq {cs : List Char} (h : Leads { cursor := { rest := cs } } l)
    (hnext : l.next? = .ok none) (hfinished : l.finished = .ok tokens) :
    Token.scan cs = tokens := by
  obtain ⟨fuel, hrun⟩ := scan_eq_run h
  rw [hrun, run, hnext]
  simp [hfinished, Except.toOption]

/-- The tokens up to a problem. -/
theorem scan_eq_broken {cs : List Char} {p : Problem} (h : Leads { cursor := { rest := cs } } l)
    (hnext : l.next? = .error p) : Token.scan cs = l.settled ++ [.broken p] := by
  obtain ⟨fuel, hrun⟩ := scan_eq_run h
  rw [hrun, run, hnext]

/-- Reading starts at what shows. -/
theorem goesOn_start {cs : List Char} (h : Visible cs) :
    GoesOn { cursor := { rest := cs } } ⟨⟨cs, 0, 0, 0⟩, [], [], true, none, []⟩ := by
  have hgo := goOn_apply [] [] true none h.skipSpace_eq (Cursor.moveTo_self ⟨cs, 0, 0, 0⟩) (by simp)
  exact ⟨hgo, Nat.le_refl _⟩

/-- What is written for fields. -/
def fieldsChars (f : String × Datum) (fields : List (String × Datum)) : List Char :=
  fieldChars f ++ linesChars fields

/-- **The tokens of metadata** are those of its fields, in a table. -/
theorem scan_fields {f : String × Datum} {fields : List (String × Datum)}
    (hkeys : ∀ g ∈ f :: fields, ReadsAsKey g.1) (hd : ∀ g ∈ f :: fields, g.2.Tokened) :
    Token.scan (fieldsChars f fields) =
      .tableStart :: (f :: fields).flatMap fieldTokens ++ [.blockEnd, .finish] := by
  have hvisible := visible_fieldChars (hkeys f List.mem_cons_self).isKey (linesChars fields ++ [])
  obtain ⟨l', hleads, hbehind⟩ :=
    leads_fields hkeys hd (.inl rfl) (.inl rfl) (goesOn_start hvisible)
  obtain ⟨hnext, hfinished⟩ := hbehind.ends rfl
  rw [List.append_nil] at hleads
  rw [fieldsChars, scan_eq hleads hnext hfinished]
  rfl

/-- Behind the key of a field, a dash that stands alone is refused. -/
theorem refused_dash (hkey : ReadsAsKey key) (hcolumns : columns = [] ∨ columns = [0])
    (htail : FollowsField tail)
    (h : GoesOn l ⟨⟨fieldChars (key, .text "-") ++ tail, i, n, 0⟩, tokens, columns, true, none,
      []⟩) :
    ∃ l', Leads l l' ∧ l'.next? = .error .malformed ∧
      l'.settled = tokens.reverse ++ opening columns ++ [.key, .scalar key true, .value] := by
  obtain ⟨i', hleads⟩ := leads_fieldKey hkey hcolumns h
  have htable : ∀ column ∈ [0], column ≤ key.toList.length + 1 := by simp
  obtain ⟨hgo, -⟩ := goesOn_blank i' n _ false (visible_dash tail) htable
  have hend := (htail.follows 0 []).endsWord
  refine ⟨_, hleads, next?_dash hgo rfl (Nat.succ_ne_zero _) hend rfl rfl, ?_⟩
  rw [settled_of_none]
  simp [reverse_opening]

/-- **A dash behind a key ends the tokens**, behind those of the fields before it. -/
theorem scan_dash {f : String × Datum} {fields before after : List (String × Datum)}
    (hsplit : f :: fields = before ++ (key, .text "-") :: after)
    (hkeys : ∀ g ∈ f :: fields, ReadsAsKey g.1) (hbefore : ∀ g ∈ before, g.2.Tokened) :
    Token.scan (fieldsChars f fields) =
      .tableStart :: before.flatMap fieldTokens ++
        [.key, .scalar key true, .value, .broken .malformed] := by
  have hkey : ReadsAsKey key := hkeys (key, .text "-") (by simp [hsplit])
  have hvisible := visible_fieldChars (f := (key, .text "-")) hkey.isKey (linesChars after)
  have hfollows : FollowsField (linesChars after) := by
    cases after with
    | nil => exact .inl rfl
    | cons g after =>
      have hg := (hkeys g (by simp [hsplit])).isKey
      exact .inr ⟨_, linesChars_cons g after, visible_fieldChars hg _⟩
  cases before with
  | nil =>
    obtain ⟨rfl, rfl⟩ := List.cons.inj hsplit
    obtain ⟨l', hleads, hnext, hsettled⟩ :=
      refused_dash hkey (.inl rfl) hfollows (goesOn_start hvisible)
    rw [fieldsChars, scan_eq_broken hleads hnext, hsettled]
    rfl
  | cons g before =>
    rw [List.cons_append] at hsplit
    obtain ⟨rfl, rfl⟩ := List.cons.inj hsplit
    have hkeys' : ∀ g ∈ f :: before, ReadsAsKey g.1 := fun g hg =>
      hkeys g (List.mem_append_left _ hg)
    have hstart := goesOn_start (visible_fieldChars (hkeys' f List.mem_cons_self).isKey
      (linesChars before ++ newLine 0 (fieldChars (key, .text "-") ++ linesChars after)))
    obtain ⟨l₁, hleads, hbehind⟩ :=
      leads_fields hkeys' hbefore (.inl rfl) (.inr ⟨_, rfl, hvisible⟩) hstart
    obtain ⟨i', n', tokens', hgoes, htokens⟩ := hbehind.goesOn _ rfl hvisible
    obtain ⟨l', hleads', hnext, hsettled⟩ := refused_dash hkey (.inr rfl) hfollows hgoes
    rw [fieldsChars, linesChars_append, linesChars_cons,
      scan_eq_broken (hleads.trans hleads') hnext, hsettled, htokens]
    simp [opening]

/-! ## The text

What is written for a datum on lines is compared with the characters that the scanner is given. -/

/-- The metadata of fields as values. -/
def valuesOf (fields : List (String × Datum)) : Entries Value :=
  fields.map fun f => (f.1, f.2.value)

/-- Lines, each behind a line end. -/
def brokenLines (lines : List String) : List Char :=
  lines.flatMap fun line => '\n' :: line.toList

theorem break_join {lines : List String} (h : lines ≠ []) :
    '\n' :: (Text.join "\n" lines).toList = brokenLines lines := by
  rw [Text.join]
  induction lines with
  | nil => exact absurd rfl h
  | cons line lines ih =>
    cases lines with
    | nil => simp [brokenLines]
    | cons next lines =>
      have hrest := ih (by simp)
      rw [String.intercalate_cons_cons, String.toList_append, String.toList_append]
      rw [brokenLines, List.flatMap_cons, ← brokenLines, ← hrest]
      simp

/-- A text stands behind its key. -/
theorem isInline_scalarText (s : String) : isInline [scalarText s] = true :=
  isInline_of_fits (sealed_scalarText s).fits

/-- The items of a list of texts stand on a line each. -/
theorem itemsLines_texts (ss : List String) :
    itemsLines 2 (ss.map .str) = ss.map fun s => "  - " ++ scalarText s := by
  induction ss with
  | nil => rfl
  | cons s ss ih =>
    have hitem : itemLines 2 [scalarText s] = ["  - " ++ scalarText s] := by
      rw [itemLines, if_pos (isInline_scalarText s)]
      rfl
    rw [List.map_cons, itemsLines, valueLines, hitem, ih]
    rfl

/-- The lines of a field are its characters behind a line end. -/
theorem brokenLines_field (f : String × Datum) :
    topLines f.1 (valueLines 2 f.2.value) ≠ [] ∧
      brokenLines (topLines f.1 (valueLines 2 f.2.value)) = newLine 0 (fieldChars f) := by
  obtain ⟨key, d⟩ := f
  cases d with
  | text s =>
    simp [topLines, valueLines, Datum.value, isInline_scalarText, brokenLines, newLine, fieldChars,
      Datum.chars]
  | texts s more =>
    have hlines : valueLines 2 (Datum.texts s more).value =
        (s :: more).map fun s => "  - " ++ scalarText s := by
      rw [Datum.value, valueLines, ← List.map_cons, itemsLines_texts]
    have hblock : isInline ((s :: more).map fun s => "  - " ++ scalarText s) = false := by
      cases more with
      | nil => simp [isInline, startsWith_blank]
      | cons => rfl
    have hitem (s : String) : '\n' :: ("  - " ++ scalarText s).toList =
        newLine 2 ('-' :: ' ' :: (scalarText s).toList) := by
      rw [String.toList_append]
      rfl
    have htop : topLines key ((s :: more).map fun s => "  - " ++ scalarText s) =
        (key ++ ":") :: (s :: more).map fun s => "  - " ++ scalarText s := by
      rw [topLines, hblock]
      · rfl
      · simp
    rw [hlines, htop]
    refine ⟨by simp, ?_⟩
    simp only [brokenLines, List.flatMap_cons, List.flatMap_map, hitem]
    simp [newLine, fieldChars, Datum.chars]

/-- The text of metadata is the characters of its fields. -/
theorem toList_text (f : String × Datum) (fields : List (String × Datum)) :
    (text (valuesOf (f :: fields))).toList = fieldsChars f fields := by
  have hlines (fields : List (String × Datum)) :
      brokenLines ((valuesOf fields).flatMap fun f => topLines f.1 (valueLines 2 f.2)) =
        linesChars fields := by
    rw [valuesOf, List.flatMap_map, brokenLines, List.flatMap_assoc]
    exact congrArg (fields.flatMap ·) (funext fun g => (brokenLines_field g).2)
  have hne : ((valuesOf (f :: fields)).flatMap fun f => topLines f.1 (valueLines 2 f.2)) ≠ [] := by
    rw [valuesOf, List.map_cons, List.flatMap_cons]
    exact List.append_ne_nil_of_left_ne_nil (brokenLines_field f).1 _
  have hbreak := break_join hne
  rw [hlines, linesChars_cons] at hbreak
  exact (List.cons.inj hbreak).2

end MdxPages.Frontmatter
