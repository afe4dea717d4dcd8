import MdxPages.Proofs.Frontmatter.Layout
import MdxPages.Proofs.Frontmatter.Scalar
import MdxPages.Proofs.Text.Pieces

/-!
# Proofs/Frontmatter/Block — the layout of a page's metadata is unambiguous

Reading a block by its columns gives back the outline of what was written (`readOutline?_text`).
-/

namespace MdxPages.Frontmatter

variable {α : Type} {n : Nat} {cs : List Char} {line t key : String} {lines lines' : List String}
  {marks marks' : List (Nat × Mark)} {o : Outline}

/-! ## Margins

Lines are moved in by writing blanks before them.  A column is a number of blanks, so it is read off
a line again. -/

/-- The margin of a line is the number of blanks before its first visible character. -/
theorem marginOf_eq (hline : line.toList = List.replicate n ' ' ++ cs) (hcs : cs.head? ≠ some ' ') :
    marginOf line = n := by
  have hnone : cs.takeWhile (· == ' ') = [] := by
    cases cs with
    | nil => rfl
    | cons c cs => exact List.takeWhile_cons_of_neg (by simpa using hcs)
  rw [marginOf, hline, List.takeWhile_append_of_pos (by simp), hnone]
  simp

/-- The marks of a line are those behind its margin, in their columns. -/
theorem lineMarks_eq (hline : line.toList = List.replicate n ' ' ++ cs)
    (hcs : cs.head? ≠ some ' ') : lineMarks line = marksFrom n cs := by
  rw [lineMarks, marginOf_eq hline hcs, hline, List.drop_left' (List.length_replicate ..)]

/-- A line is its margin and what follows it. -/
theorem margin_append_drop (line : String) :
    List.replicate (marginOf line) ' ' ++ line.toList.drop (marginOf line) = line.toList := by
  have hblank : ∀ c ∈ line.toList.takeWhile (· == ' '), c = ' ' := fun c hc =>
    eq_of_beq (List.all_eq_true.1 List.all_takeWhile c hc)
  have hmargin : line.toList.takeWhile (· == ' ') = List.replicate (marginOf line) ' ' :=
    List.eq_replicate_iff.2 ⟨rfl, hblank⟩
  have hstart := List.takeWhile_prefix (l := line.toList) (· == ' ')
  rw [hmargin, List.prefix_iff_eq_take, List.length_replicate] at hstart
  rw [hstart, List.take_append_drop]

/-- A line that is as far in as it should be stays where it is. -/
theorem reindent_self (h : n ≤ marginOf line) : reindent n n line = line := by
  rw [reindent, spaces, ← String.toList_inj]
  simp only [String.toList_append, String.toList_ofList, Nat.add_sub_cancel' h]
  exact margin_append_drop line

/-- Lines that are far enough in stay where they are. -/
theorem map_reindent_self (h : ∀ line ∈ lines, n ≤ marginOf line) :
    lines.map (reindent n n) = lines :=
  (List.map_congr_left fun line hline => reindent_self (h line hline)).trans (List.map_id _)

/-! ## Scalars

A scalar stands behind a key or a dash on one line.  It may not look like a block there, nor like an
empty collection. -/

/-- Nothing in a bare text is taken for the end of a key. -/
theorem drop_ne_colon (h : ∀ c ∈ cs, isBare c = true) (k : Nat) (rest : List Char) :
    cs.drop k ≠ ':' :: rest := by
  intro hdrop
  have hcolon : ':' ∈ cs := List.mem_of_mem_drop (hdrop ▸ List.mem_cons_self)
  exact absurd (h ':' hcolon) (by decide)

/-- **A scalar is not taken for a block.** -/
theorem opensBlock_of_sealed (h : Sealed cs) : opensBlock cs = false := by
  obtain ⟨body, rfl, -⟩ | ⟨-, hbare⟩ := h
  · rfl
  · have hmark : fieldMark? cs = none := by
      rw [fieldMark?]
      split
      · rfl
      · split
        · next heq => exact absurd heq (drop_ne_colon hbare _ _)
        · next heq => exact absurd heq (drop_ne_colon hbare _ _)
        · rfl
    unfold opensBlock
    split
    · next cs => exact absurd (hbare ' ' (by simp)) (by decide)
    · rw [hmark]
      rfl

/-- A text that fits behind a key or a dash. -/
structure Fits (cs : List Char) : Prop where
  visible : cs.head? ≠ some ' '
  closed : opensBlock cs = false
  line : '\n' ∉ cs

/-- A sealed text fits behind a key or a dash. -/
theorem Sealed.fits (h : Sealed cs) : Fits cs where
  visible := by
    obtain ⟨body, rfl, -⟩ | ⟨-, hbare⟩ := h
    · simp
    · exact fun hspace => absurd (hbare ' ' (List.mem_of_mem_head? hspace)) (by decide)
  closed := opensBlock_of_sealed h
  line := by
    obtain ⟨body, rfl, hbody⟩ | ⟨-, hbare⟩ := h
    · simpa using hbody
    · exact fun hbreak => absurd (hbare '\n' hbreak) (by decide)

/-- No scalar is taken for an empty collection. -/
theorem ofText_of_sealed (h : Sealed t.toList) : Outline.ofText t = .scalar t := by
  have hopening {c : Char} {rest : List Char} (hc : isBare c = false ∧ c ≠ '"') :
      t.toList ≠ c :: rest := by
    rintro heq
    rw [heq] at h
    obtain ⟨body, hbody, -⟩ | ⟨-, hbare⟩ := h
    · exact hc.2 (List.cons.inj hbody).1
    · simp [hc.1] at hbare
  rw [Outline.ofText, if_neg, if_neg]
  · rintro rfl
    exact hopening (c := '\x7b') (by decide) rfl
  · rintro rfl
    exact hopening (c := '[') (by decide) rfl

/-! ## Marks

The reader cuts a line into marks from the left.  Each of them is a dash or a key, until what is
left is a scalar. -/

theorem takeWhile_key (hkey : IsKey key) (rest : List Char) :
    (key.toList ++ ':' :: rest).takeWhile isPlain = key.toList := by
  rw [List.takeWhile_append_of_pos hkey.2, List.takeWhile_cons_of_neg (by decide), List.append_nil]

/-- A key by itself has a block below it. -/
theorem fieldMark?_key (hkey : IsKey key) :
    fieldMark? (key.toList ++ [':']) = some (.key key) := by
  simp [fieldMark?, takeWhile_key hkey, hkey.1]

/-- A key with a text behind it is a field. -/
theorem fieldMark?_field (hkey : IsKey key) (text : String) :
    fieldMark? (key.toList ++ ':' :: ' ' :: text.toList) = some (.field key text) := by
  simp [fieldMark?, takeWhile_key hkey, hkey.1]

/-- Lines that are a block in a column: none of them starts before it, and the first one in it. -/
structure Laid (n : Nat) (lines : List String) : Prop where
  first : ∃ line rest cs, lines = line :: rest ∧ line.toList = List.replicate n ' ' ++ cs ∧
    opensBlock cs = true
  inside : ∀ line ∈ lines, n ≤ marginOf line
  break_notMem : ∀ line ∈ lines, '\n' ∉ line.toList

theorem visible_of_opensBlock (h : opensBlock cs = true) : cs.head? ≠ some ' ' := by
  rintro hspace
  obtain ⟨cs, rfl⟩ := List.head?_eq_some_iff.1 hspace
  exact absurd h (by simp [opensBlock, fieldMark?, isPlain])

/-- Where a block starts, a mark stands. -/
theorem marksFrom_of_opensBlock (h : opensBlock cs = true) :
    ∃ mark rest, marksFrom n cs = (n, mark) :: rest := by
  unfold marksFrom
  split
  · split <;> exact ⟨_, _, rfl⟩
  · exact ⟨_, _, rfl⟩

/-! ## Reading

A block is read with what stands behind it left over.  The reader has fuel, of which three steps for
each mark are enough. -/

/-- Marks that read functions for a column read as entries, whatever entries they read behind
them. -/
def Reads (read : Nat → List (Nat × Mark) → Option (List α × List (Nat × Mark))) (n : Nat)
    (marks : List (Nat × Mark)) (xs : List α) : Prop :=
  ∀ more ys rest, (∀ m ∈ more.head?, m.1 ≤ n) →
    (∀ fuel, 3 * more.length < fuel → read fuel more = some (ys, rest)) →
    ∀ fuel, 3 * (marks ++ more).length < fuel → read fuel (marks ++ more) = some (xs ++ ys, rest)

/-- Marks that are read as a block, if what follows does not stand in its column or behind it. -/
def ReadsBlock (n : Nat) (marks : List (Nat × Mark)) (o : Outline) : Prop :=
  ∀ more, (∀ m ∈ more.head?, m.1 < n) →
    ∀ fuel, 3 * (marks ++ more).length + 1 < fuel → readBlock? fuel (marks ++ more) = some (o, more)

variable {read : Nat → List (Nat × Mark) → Option (List α × List (Nat × Mark))} {xs ys : List α}

theorem Reads.nil : Reads read n [] ([] : List α) :=
  fun _ _ _ _ hread fuel hfuel => hread fuel hfuel

/-- Entries are read before others if these stand no deeper than the column. -/
theorem Reads.append (hx : Reads read n marks xs) (hy : Reads read n marks' ys)
    (hfirst : ∀ m ∈ marks'.head?, m.1 ≤ n) : Reads read n (marks ++ marks') (xs ++ ys) := by
  intro more zs rest hmore hread fuel hfuel
  rw [List.append_assoc] at hfuel ⊢
  rw [List.append_assoc]
  refine hx (marks' ++ more) (ys ++ zs) rest ?_ (hy more zs rest hmore hread) fuel hfuel
  cases marks' with
  | nil => exact hmore
  | cons m marks' => exact hfirst

/-- The inner block is read behind its dash or key. -/
theorem ReadsBlock.readInner? (h : ReadsBlock (n + 2) marks o) (hfirst : ∃ mark rest,
    marks = (n + 2, mark) :: rest) {more : List (Nat × Mark)} (hmore : ∀ m ∈ more.head?, m.1 ≤ n)
    (fuel : Nat) (hfuel : 3 * (marks ++ more).length + 2 < fuel) :
    readInner? fuel n (marks ++ more) = some (o, more) := by
  obtain ⟨fuel, rfl⟩ : ∃ k, fuel = k + 1 := ⟨fuel - 1, by omega⟩
  rw [Frontmatter.readInner?, h more (fun m hm => by have := hmore m hm; omega) fuel (by omega)]
  obtain ⟨mark, rest, rfl⟩ := hfirst
  simp

/-- A text behind a dash is an item. -/
theorem reads_item (t : String) : Reads (readItems? · n) n [(n, .item t)] [.ofText t] := by
  intro more ys rest hmore hread fuel hfuel
  obtain ⟨fuel, rfl⟩ : ∃ k, fuel = k + 1 := ⟨fuel - 1, by omega⟩
  simp only [List.singleton_append, List.length_cons] at hfuel ⊢
  simp [readItems?, hread fuel (by omega)]

/-- A text behind a key is a field. -/
theorem reads_field (key t : String) :
    Reads (readFields? · n) n [(n, .field key t)] [(key, .ofText t)] := by
  intro more ys rest hmore hread fuel hfuel
  obtain ⟨fuel, rfl⟩ : ∃ k, fuel = k + 1 := ⟨fuel - 1, by omega⟩
  simp only [List.singleton_append, List.length_cons] at hfuel ⊢
  simp [readFields?, hread fuel (by omega)]

/-- A block behind a dash is an item, two columns further in. -/
theorem ReadsBlock.reads_dash (h : ReadsBlock (n + 2) marks o)
    (hfirst : ∃ mark rest, marks = (n + 2, mark) :: rest) :
    Reads (readItems? · n) n ((n, .dash) :: marks) [o] := by
  intro more ys rest hmore hread fuel hfuel
  obtain ⟨fuel, rfl⟩ : ∃ k, fuel = k + 1 := ⟨fuel - 1, by omega⟩
  simp only [List.cons_append, List.length_cons, List.length_append] at hfuel ⊢
  have hinner := h.readInner? hfirst hmore fuel (by simp; omega)
  simp [readItems?, hinner, hread fuel (by omega)]

/-- A block below a key is a field, two columns further in. -/
theorem ReadsBlock.reads_key (h : ReadsBlock (n + 2) marks o)
    (hfirst : ∃ mark rest, marks = (n + 2, mark) :: rest) :
    Reads (readFields? · n) n ((n, .key key) :: marks) [(key, o)] := by
  intro more ys rest hmore hread fuel hfuel
  obtain ⟨fuel, rfl⟩ : ∃ k, fuel = k + 1 := ⟨fuel - 1, by omega⟩
  simp only [List.cons_append, List.length_cons, List.length_append] at hfuel ⊢
  have hinner := h.readInner? hfirst hmore fuel (by simp; omega)
  simp [readFields?, hinner, hread fuel (by omega)]

/-- Whether a mark starts an item. -/
def Mark.isItem : Mark → Bool
  | .dash | .item _ => true
  | _ => false

/-- Whether a mark starts a field. -/
def Mark.isField : Mark → Bool
  | .key _ | .field _ _ => true
  | _ => false

theorem readBlock?_isItem {mark : Mark} (hmark : mark.isItem = true) (fuel : Nat) :
    readBlock? (fuel + 1) ((n, mark) :: marks) =
      (readItems? fuel n ((n, mark) :: marks)).map fun r => (.list r.1, r.2) := by
  rw [Option.map_eq_bind]
  cases mark with
  | dash | item => rfl
  | key | field | unknown => cases hmark

theorem readBlock?_isField {mark : Mark} (hmark : mark.isField = true) (fuel : Nat) :
    readBlock? (fuel + 1) ((n, mark) :: marks) =
      (readFields? fuel n ((n, mark) :: marks)).map fun r => (.table r.1, r.2) := by
  rw [Option.map_eq_bind]
  cases mark with
  | key | field => rfl
  | dash | item | unknown => cases hmark

/-- Items end where a mark stands before their column. -/
theorem readItems?_end (h : ∀ m ∈ marks.head?, m.1 < n) {fuel : Nat}
    (hfuel : 3 * marks.length < fuel) : readItems? fuel n marks = some ([], marks) := by
  obtain ⟨fuel, rfl⟩ : ∃ k, fuel = k + 1 := ⟨fuel - 1, by omega⟩
  cases marks with
  | nil => rfl
  | cons m marks =>
    have hm : m.1 ≠ n := Nat.ne_of_lt (h m rfl)
    simp [readItems?, hm]

/-- Fields end where a mark stands before their column. -/
theorem readFields?_end (h : ∀ m ∈ marks.head?, m.1 < n) {fuel : Nat}
    (hfuel : 3 * marks.length < fuel) : readFields? fuel n marks = some ([], marks) := by
  obtain ⟨fuel, rfl⟩ : ∃ k, fuel = k + 1 := ⟨fuel - 1, by omega⟩
  cases marks with
  | nil => rfl
  | cons m marks =>
    have hm : m.1 ≠ n := Nat.ne_of_lt (h m rfl)
    simp [readFields?, hm]

/-- **A block is a list if items can be read in its column.** -/
theorem Reads.readsBlock_list {mark : Mark} {items : List Outline} (hmark : mark.isItem = true)
    (h : Reads (readItems? · n) n ((n, mark) :: marks) items) :
    ReadsBlock n ((n, mark) :: marks) (.list items) := by
  intro more hmore fuel hfuel
  obtain ⟨fuel, rfl⟩ : ∃ k, fuel = k + 1 := ⟨fuel - 1, by omega⟩
  have hitems : readItems? fuel n ((n, mark) :: marks ++ more) = some (items ++ [], more) :=
    h more [] more (fun m hm => Nat.le_of_lt (hmore m hm)) (fun _ => readItems?_end hmore) fuel
      (by omega)
  rw [List.cons_append] at hitems ⊢
  rw [readBlock?_isItem hmark, hitems, List.append_nil]
  rfl

/-- **A block is a table if fields can be read in its column.** -/
theorem Reads.readsBlock_table {mark : Mark} {fields : List (String × Outline)}
    (hmark : mark.isField = true)
    (h : Reads (readFields? · n) n ((n, mark) :: marks) fields) :
    ReadsBlock n ((n, mark) :: marks) (.table fields) := by
  intro more hmore fuel hfuel
  obtain ⟨fuel, rfl⟩ : ∃ k, fuel = k + 1 := ⟨fuel - 1, by omega⟩
  have hfields : readFields? fuel n ((n, mark) :: marks ++ more) = some (fields ++ [], more) :=
    h more [] more (fun m hm => Nat.le_of_lt (hmore m hm)) (fun _ => readFields?_end hmore) fuel
      (by omega)
  rw [List.cons_append] at hfields ⊢
  rw [readBlock?_isField hmark, hfields, List.append_nil]
  rfl

/-! ## Lines

`Shows` is the link between writing and reading: the lines of a value, and the outline that the
reader sees there, at any column. -/

/-- What lines show at a column: nothing, a scalar or an empty collection that fits behind a key, or
a block. -/
inductive Shows (n : Nat) : List String → Option Outline → Prop
  | nothing : Shows n [] none
  | inline {t : String} (h : Fits t.toList) : Shows n [t] (some (.ofText t))
  | block {lines : List String} {o : Outline} (hlaid : Laid n lines)
    (hread : ReadsBlock n (lines.flatMap lineMarks) o) : Shows n lines (some o)

/-- What lines show that are the entries of a block in a column. -/
structure ShowsEntries (read : Nat → List (Nat × Mark) → Option (List α × List (Nat × Mark)))
    (kind : Mark → Bool) (n : Nat) (lines : List String) (xs : List α) : Prop where
  laid : lines ≠ [] → Laid n lines
  kind : ∀ m ∈ (lines.flatMap lineMarks).head?, kind m.2 = true
  eq_nil : lines = [] ↔ xs = []
  reads : Reads read n (lines.flatMap lineMarks) xs

/-- A block has a first mark, in its column. -/
theorem Laid.exists_marks (h : Laid n lines) :
    ∃ mark rest, lines.flatMap lineMarks = (n, mark) :: rest := by
  obtain ⟨line, rest, cs, rfl, hline, hcs⟩ := h.first
  rw [List.flatMap_cons, lineMarks_eq hline (visible_of_opensBlock hcs)]
  obtain ⟨mark, marks, hmarks⟩ := marksFrom_of_opensBlock (n := n) hcs
  exact ⟨mark, marks ++ rest.flatMap lineMarks, by rw [hmarks, List.cons_append]⟩

/-- A block goes on with lines that are laid in its column. -/
theorem Laid.append (h : Laid n lines) (h' : lines' ≠ [] → Laid n lines') :
    Laid n (lines ++ lines') where
  first := by
    obtain ⟨line, rest, cs, rfl, hline⟩ := h.first
    exact ⟨line, rest ++ lines', cs, rfl, hline⟩
  inside line hline := (List.mem_append.1 hline).elim (h.inside line) fun hmem =>
    (h' (List.ne_nil_of_mem hmem)).inside line hmem
  break_notMem line hline := (List.mem_append.1 hline).elim (h.break_notMem line) fun hmem =>
    (h' (List.ne_nil_of_mem hmem)).break_notMem line hmem

namespace ShowsEntries

variable {kind : Mark → Bool}

theorem nil : ShowsEntries read kind n [] ([] : List α) where
  laid h := absurd rfl h
  kind _ hm := by cases hm
  eq_nil := by simp
  reads := .nil

/-- Entries shown one after the other are shown together. -/
theorem append (hx : ShowsEntries read kind n lines xs) (hy : ShowsEntries read kind n lines' ys) :
    ShowsEntries read kind n (lines ++ lines') (xs ++ ys) where
  laid h := by
    by_cases hlines : lines = []
    · subst hlines
      exact hy.laid h
    · exact (hx.laid hlines).append hy.laid
  kind m hm := by
    by_cases hlines : lines = []
    · subst hlines
      exact hy.kind m hm
    · obtain ⟨mark, rest, hmarks⟩ := (hx.laid hlines).exists_marks
      refine hx.kind m ?_
      rw [List.flatMap_append, hmarks] at hm
      rw [hmarks]
      exact hm
  eq_nil := by simp [hx.eq_nil, hy.eq_nil]
  reads := by
    rw [List.flatMap_append]
    refine hx.reads.append hy.reads fun m hm => ?_
    by_cases hlines : lines' = []
    · subst hlines
      cases hm
    · obtain ⟨mark, rest, hmarks⟩ := (hy.laid hlines).exists_marks
      rw [hmarks] at hm
      obtain rfl := Option.some.inj hm
      exact Nat.le_refl n

end ShowsEntries

/-! ## Laying out

The first line of a block goes behind a dash as it is, and the lines below it are moved two columns
in. -/

theorem startsWith_blank (t : String) : Text.startsWith t " " = (t.toList.head? == some ' ') := by
  rw [Text.startsWith, show " ".toList = [' '] from rfl]
  cases t.toList with
  | nil => rfl
  | cons c cs => simp [List.isPrefixOf, Bool.beq_comm]

theorem isInline_of_fits (h : Fits t.toList) : isInline [t] = true := by
  simp [isInline, startsWith_blank, h.visible]

/-- A block is not taken for a text that could stand behind its key. -/
theorem Laid.isInline_eq_false (h : Laid (n + 1) lines) : isInline lines = false := by
  obtain ⟨line, rest, cs, rfl, hline, -⟩ := h.first
  cases rest with
  | nil => simp [isInline, startsWith_blank, hline, List.replicate_succ]
  | cons => rfl

theorem toList_spaces (n : Nat) : (spaces n).toList = List.replicate n ' ' :=
  String.toList_ofList

/-- Lines are a block if the first one opens it and the others stand no further out. -/
theorem Laid.intro {rest : List String} (hline : line.toList = List.replicate n ' ' ++ cs)
    (hcs : opensBlock cs = true) (hbreak : '\n' ∉ cs)
    (hrest : ∀ l ∈ rest, n ≤ marginOf l ∧ '\n' ∉ l.toList) : Laid n (line :: rest) where
  first := ⟨line, rest, cs, rfl, hline, hcs⟩
  inside := List.forall_mem_cons.2
    ⟨Nat.le_of_eq (marginOf_eq hline (visible_of_opensBlock hcs)).symm, fun l hl => (hrest l hl).1⟩
  break_notMem := List.forall_mem_cons.2
    ⟨by simp [hline, hbreak], fun l hl => (hrest l hl).2⟩

/-- A key is not taken for a dash. -/
theorem dash_ne_key (hkey : IsKey key) (rest : List Char) :
    key.toList ++ ':' :: rest ≠ '-' :: ' ' :: cs := by
  intro heq
  cases hlist : key.toList with
  | nil => exact hkey.1 (by simpa using hlist)
  | cons c ds =>
    cases ds with
    | nil => simp [hlist] at heq
    | cons d ds =>
      rw [hlist] at heq
      have hplain := hkey.2 d (by simp [hlist])
      obtain rfl : d = ' ' := (List.cons.inj (List.cons.inj heq).2).1
      exact absurd hplain (by decide)

/-- A key opens a block. -/
theorem opensBlock_key {rest : List Char}
    (h : (fieldMark? (key.toList ++ ':' :: rest)).isSome = true) :
    opensBlock (key.toList ++ ':' :: rest) = true := by
  unfold opensBlock
  split
  · rfl
  · exact h

theorem marksFrom_key (hkey : IsKey key) {rest : List Char} {mark : Mark}
    (h : fieldMark? (key.toList ++ ':' :: rest) = some mark) :
    marksFrom n (key.toList ++ ':' :: rest) = [(n, mark)] := by
  unfold marksFrom
  split
  · next heq => exact absurd heq (dash_ne_key hkey rest)
  · rw [h, Option.getD_some]

/-- **What an item shows is read behind its dash.** -/
theorem Shows.itemLines {shown : Option Outline} (h : Shows (n + 2) lines shown) :
    ShowsEntries (readItems? · n) Mark.isItem n (itemLines n lines) shown.toList := by
  cases h with
  | nothing => exact .nil
  | @inline t h =>
    have hline : (spaces n ++ "- " ++ t).toList =
        List.replicate n ' ' ++ '-' :: ' ' :: t.toList := by
      simp [toList_spaces]
    have hmarks : [spaces n ++ "- " ++ t].flatMap lineMarks = [(n, .item t)] := by
      rw [List.flatMap_singleton, lineMarks_eq hline (by simp), marksFrom,
        if_neg (by simp [h.closed]), String.ofList_toList]
    have hlines : Frontmatter.itemLines n [t] = [spaces n ++ "- " ++ t] := by
      simp [Frontmatter.itemLines, isInline_of_fits h]
    rw [hlines]
    refine ⟨fun _ => .intro hline rfl (by simp [h.line]) (by simp), ?_, by simp, ?_⟩
    · simp [hmarks, Mark.isItem]
    · rw [hmarks]
      exact reads_item t
  | block hlaid hread =>
    obtain ⟨line, rest, cs, rfl, hline, hcs⟩ := hlaid.first
    have hmargin := marginOf_eq hline (visible_of_opensBlock hcs)
    have hfirst : (spaces n ++ "- " ++ String.ofList (line.toList.drop (n + 2))).toList =
        List.replicate n ' ' ++ '-' :: ' ' :: cs := by
      simp [toList_spaces, hline]
    have hlines : Frontmatter.itemLines n (line :: rest) =
        (spaces n ++ "- " ++ String.ofList (line.toList.drop (n + 2))) :: rest := by
      simp only [Frontmatter.itemLines, hlaid.isInline_eq_false, hmargin]
      rw [if_neg (by simp),
        map_reindent_self fun l hl => hlaid.inside l (List.mem_cons_of_mem _ hl)]
    have hmarks : ((spaces n ++ "- " ++ String.ofList (line.toList.drop (n + 2))) ::
        rest).flatMap lineMarks = (n, .dash) :: (line :: rest).flatMap lineMarks := by
      rw [List.flatMap_cons, List.flatMap_cons, lineMarks_eq hfirst (by simp),
        lineMarks_eq hline (visible_of_opensBlock hcs), marksFrom, if_pos hcs, List.cons_append]
    rw [hlines]
    refine ⟨fun _ => .intro hfirst rfl ?_ fun l hl => ?_, ?_, by simp, ?_⟩
    · have hbreak := hlaid.break_notMem line List.mem_cons_self
      simp [hline] at hbreak
      simp [hbreak]
    · have hinside := hlaid.inside l (List.mem_cons_of_mem _ hl)
      exact ⟨by omega, hlaid.break_notMem l (List.mem_cons_of_mem _ hl)⟩
    · simp [hmarks, Mark.isItem]
    · rw [hmarks]
      exact hread.reads_dash hlaid.exists_marks

/-- **What a field shows is read behind its key.** -/
theorem Shows.fieldLines {shown : Option Outline} (hkey : IsKey key)
    (h : Shows (n + 2) lines shown) :
    ShowsEntries (readFields? · n) Mark.isField n (fieldLines n key lines)
      (shown.toList.map (key, ·)) := by
  have hbreak : '\n' ∉ key.toList := fun hmem => absurd (hkey.2 '\n' hmem) (by decide)
  cases h with
  | nothing => exact .nil
  | @inline t h =>
    have hmark := fieldMark?_field hkey t
    have hopens := opensBlock_key (by rw [hmark]; rfl)
    have hline : (spaces n ++ key ++ ": " ++ t).toList =
        List.replicate n ' ' ++ (key.toList ++ ':' :: ' ' :: t.toList) := by
      simp [toList_spaces]
    have hmarks : [spaces n ++ key ++ ": " ++ t].flatMap lineMarks = [(n, .field key t)] := by
      rw [List.flatMap_singleton, lineMarks_eq hline (visible_of_opensBlock hopens),
        marksFrom_key hkey hmark]
    have hlines : Frontmatter.fieldLines n key [t] = [spaces n ++ key ++ ": " ++ t] := by
      simp [Frontmatter.fieldLines, isInline_of_fits h]
    rw [hlines]
    refine ⟨fun _ => .intro hline hopens (by simp [hbreak, h.line]) (by simp), ?_, by simp, ?_⟩
    · simp [hmarks, Mark.isField]
    · rw [hmarks]
      exact reads_field key t
  | block hlaid hread =>
    have hmark := fieldMark?_key hkey
    have hopens := opensBlock_key (by rw [hmark]; rfl)
    have hline : (spaces n ++ key ++ ":").toList =
        List.replicate n ' ' ++ (key.toList ++ [':']) := by
      simp [toList_spaces]
    have hlines : Frontmatter.fieldLines n key lines = (spaces n ++ key ++ ":") :: lines := by
      obtain ⟨line, rest, cs, rfl, hline, hcs⟩ := hlaid.first
      have hmargin := marginOf_eq hline (visible_of_opensBlock hcs)
      simp only [Frontmatter.fieldLines, hlaid.isInline_eq_false, hmargin]
      rw [if_neg (by simp), map_reindent_self hlaid.inside]
    have hmarks : ((spaces n ++ key ++ ":") :: lines).flatMap lineMarks =
        (n, .key key) :: lines.flatMap lineMarks := by
      rw [List.flatMap_cons, lineMarks_eq hline (visible_of_opensBlock hopens),
        marksFrom_key hkey hmark, List.singleton_append]
    rw [hlines]
    refine ⟨fun _ => .intro hline hopens (by simp [hbreak]) fun l hl => ?_, ?_, by simp, ?_⟩
    · have hinside := hlaid.inside l hl
      exact ⟨by omega, hlaid.break_notMem l hl⟩
    · simp [hmarks, Mark.isField]
    · rw [hmarks]
      exact hread.reads_key hlaid.exists_marks

/-- Items that show something are a list, and all of them together nothing if none does. -/
theorem ShowsEntries.shows_list {items : List Outline}
    (h : ShowsEntries (readItems? · n) Mark.isItem n lines items) :
    Shows n lines (if items.isEmpty then none else some (.list items)) := by
  split
  · next hnil =>
    rw [h.eq_nil.2 (List.isEmpty_iff.1 hnil)]
    exact .nothing
  · next hsome =>
    have hlaid := h.laid (mt h.eq_nil.1 (mt List.isEmpty_iff.2 hsome))
    obtain ⟨mark, rest, hmarks⟩ := hlaid.exists_marks
    refine .block hlaid ?_
    have hreads := h.reads
    rw [hmarks] at hreads ⊢
    exact hreads.readsBlock_list (h.kind (n, mark) (by rw [hmarks]; rfl))

/-- Fields that show something are a table, and all of them together nothing if none does. -/
theorem ShowsEntries.shows_table {fields : List (String × Outline)}
    (h : ShowsEntries (readFields? · n) Mark.isField n lines fields) :
    Shows n lines (if fields.isEmpty then none else some (.table fields)) := by
  split
  · next hnil =>
    rw [h.eq_nil.2 (List.isEmpty_iff.1 hnil)]
    exact .nothing
  · next hsome =>
    have hlaid := h.laid (mt h.eq_nil.1 (mt List.isEmpty_iff.2 hsome))
    obtain ⟨mark, rest, hmarks⟩ := hlaid.exists_marks
    refine .block hlaid ?_
    have hreads := h.reads
    rw [hmarks] at hreads ⊢
    exact hreads.readsBlock_table (h.kind (n, mark) (by rw [hmarks]; rfl))

/-- A sealed text shows itself. -/
theorem Shows.scalar (h : Sealed t.toList) : Shows n [t] (some (.scalar t)) := by
  rw [← ofText_of_sealed h]
  exact .inline h.fits

mutual

/-- **The lines of a value show the value pruned**, whatever its nesting. -/
theorem shows_valueLines (n : Nat) : ∀ v, (∀ key ∈ keysOf v, IsKey key) →
    Shows n (valueLines n v) (pruned? v)
  | .null, _ => .nothing
  | .str s, _ => .scalar (sealed_scalarText s)
  | .bool b, _ => .scalar (by cases b <;> exact .inr ⟨by decide, List.all_eq_true.1 rfl⟩)
  | .num x, _ => .scalar (.inr (bare_plainText x))
  | .foreign x, _ => .scalar (sealed_foreignText x)
  | .arr [], _ => .inline ⟨by decide, by decide, by decide⟩
  | .obj [], _ => .inline ⟨by decide, by decide, by decide⟩
  | .arr (v :: vs), h => (showsEntries_itemsLines n (v :: vs) h).shows_list
  | .obj (f :: fs), h => (showsEntries_fieldsLines n (f :: fs) h).shows_table

/-- …and so do the lines of the items of a list. -/
theorem showsEntries_itemsLines (n : Nat) : ∀ vs, (∀ key ∈ keysOfItems vs, IsKey key) →
    ShowsEntries (readItems? · n) Mark.isItem n (itemsLines n vs) (prunedItems vs)
  | [], _ => .nil
  | v :: vs, h => by
    rw [keysOfItems, List.forall_mem_append] at h
    exact (shows_valueLines (n + 2) v h.1).itemLines.append (showsEntries_itemsLines n vs h.2)

/-- …and those of the fields of a table. -/
theorem showsEntries_fieldsLines (n : Nat) : ∀ fs, (∀ key ∈ keysOfFields fs, IsKey key) →
    ShowsEntries (readFields? · n) Mark.isField n (fieldsLines n fs) (prunedFields fs)
  | [], _ => .nil
  | (key, v) :: fs, h => by
    rw [keysOfFields, List.cons_append, List.forall_mem_cons, List.forall_mem_append] at h
    exact ((shows_valueLines (n + 2) v h.2.1).fieldLines h.1).append
      (showsEntries_fieldsLines n fs h.2.2)

end

/-! ## The text of a page

At the top there is no dash and no key before a block, and the columns start at zero. -/

/-- At the top, too, a block stands below its key as it is. -/
theorem Shows.topLines {shown : Option Outline} (h : Shows 2 lines shown) (key : String) :
    topLines key lines = Frontmatter.fieldLines 0 key lines := by
  have hmargin : spaces 0 = "" := rfl
  cases h with
  | nothing => rfl
  | inline h =>
    simp [Frontmatter.topLines, Frontmatter.fieldLines, isInline_of_fits h, hmargin]
  | block hlaid =>
    obtain ⟨line, rest, cs, rfl, hline, hcs⟩ := hlaid.first
    have hfirst := marginOf_eq hline (visible_of_opensBlock hcs)
    rw [Frontmatter.topLines, Frontmatter.fieldLines, hfirst, map_reindent_self hlaid.inside]
    · simp [hlaid.isInline_eq_false, hmargin]
    · simp

/-- The lines at the top are those of a table in the first column. -/
theorem flatMap_topLines : ∀ fs, (∀ key ∈ keysOfFields fs, IsKey key) →
    fs.flatMap (fun (key, v) => topLines key (valueLines 2 v)) = fieldsLines 0 fs
  | [], _ => rfl
  | (key, v) :: fs, h => by
    rw [keysOfFields, List.cons_append, List.forall_mem_cons, List.forall_mem_append] at h
    rw [List.flatMap_cons, flatMap_topLines fs h.2.2, fieldsLines,
      ← (shows_valueLines 2 v h.2.1).topLines key]

/-- **The layout is unambiguous.**  A reader that knows the columns of keys and dashes and nothing
of scalars gets back from the text of a page's metadata what it was written from: without nulls and
what is left empty without them, in order, and with every scalar as it is written. -/
theorem readOutline?_text (fields : Entries Value) (h : ∀ key ∈ keysOfFields fields, IsKey key) :
    readOutline? (text fields) = some (.table (prunedFields fields)) := by
  have hshows := showsEntries_fieldsLines 0 fields h
  rw [text, flatMap_topLines fields h]
  by_cases hlines : fieldsLines 0 fields = []
  · rw [hlines, hshows.eq_nil.1 hlines]
    rfl
  · have hlaid := hshows.laid hlines
    have hreads := hshows.reads [] [] [] (by simp)
      (fun fuel hfuel => readFields?_end (by simp) hfuel)
    have hsplit : Text.split '\n' (Text.join "\n" (fieldsLines 0 fields)) = fieldsLines 0 fields :=
      Text.split_join rfl hlines hlaid.break_notMem
    have hne : (Text.join "\n" (fieldsLines 0 fields)).isEmpty = false := by
      rw [← Bool.not_eq_true, String.isEmpty_iff]
      intro hempty
      rw [hempty] at hsplit
      obtain ⟨line, rest, cs, hfirst, hline, hcs⟩ := hlaid.first
      rw [hfirst] at hsplit
      obtain ⟨rfl, -⟩ := List.cons.inj (show [""] = _ from hsplit)
      obtain rfl : cs = [] := by simpa using hline
      cases hcs
    simp only [List.append_nil] at hreads
    rw [readOutline?, hne, hsplit]
    simp only [Bool.false_eq_true, if_false, hreads _ (Nat.lt_succ_self _)]

/-- Metadata with stacked dashes, nulls, and a list that is left with nothing. -/
def nested : Entries Value :=
  [("title", .str "Install: Atlas"), ("draft", .null),
    ("meta", .obj [("rows", .arr [.arr [.arr [.int 1, .null], .obj [("a", .bool true),
      ("b", .arr [])]], .null]), ("gone", .arr [.null, .obj [("x", .null)]])]),
    ("tags", .obj [])]

/-- The text of the metadata, and what its columns say. -/
theorem readOutline?_nested :
    text nested = "title: \"Install: Atlas\"\nmeta:\n  rows:\n    - - - 1\n" ++
      "      - a: true\n        b: []\ntags: \x7b\x7d" ∧
    readOutline? (text nested) = some (.table [("title", .scalar "\"Install: Atlas\""),
      ("meta", .table [("rows", .list [.list [.list [.scalar "1"],
        .table [("a", .scalar "true"), ("b", .list [])]]])]), ("tags", .table [])]) :=
  ⟨by decide +kernel, readOutline?_text nested (by decide)⟩

end MdxPages.Frontmatter
