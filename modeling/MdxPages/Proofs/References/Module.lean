import MdxPages.Proofs.References.Literal
import MdxPages.Proofs.References.Pattern

/-!
# Proofs/References/Module — the registry that a written module holds

A module that is written holds the entries of the registry, cut to the greatest length, unless one
of its literals is mistaken for the end of an object or the start of the references
(`parse_render`).
-/

namespace MdxPages.References

variable {r : References} {pieces : List Piece} {cs : List Char}

/-! ## Literals that are not mistaken for code

The reader of modules looks for the code around the entries in the whole text.  A literal that holds
such code misleads it, and no other. -/

/-- A literal that does not look like the end of an object. -/
def Harmless (literal : String) : Prop :=
  Lacks exportClosing literal.toList

/-- A literal that does not look like the start of the references. -/
def Unopening (literal : String) : Prop :=
  Lacks (exportOpening "refs") literal.toList

instance (literal : String) : Decidable (Harmless literal) :=
  inferInstanceAs (Decidable (Lacks exportClosing literal.toList))

instance (literal : String) : Decidable (Unopening literal) :=
  inferInstanceAs (Decidable (Lacks (exportOpening "refs") literal.toList))

/-- No literal of the module looks like the end of an object, and none before the references like
their start. -/
structure Unmistakable (r : References) : Prop where
  name : ∀ e ∈ r.substitutions, Harmless (Json.quote e.1) ∧ Unopening (Json.quote e.1)
  text : ∀ e ∈ r.substitutions, Harmless (encode e.2) ∧ Unopening (encode e.2)
  url : ∀ e ∈ r.refs, Harmless (encode e.1)
  title : ∀ e ∈ r.refs, Harmless (encode e.2.title)

/-! ## Passing over the lines

A line is passed over if its literals are, for the code between them is known. -/

/-- No pattern of the module reaches across a quote or a comma. -/
theorem separates_quotes {c : Char} (hc : c ∈ ['\'', '"', ',']) :
    Separates c exportClosing ∧ Separates c (exportOpening "refs") := by
  simp only [List.mem_cons, List.not_mem_nil, or_false] at hc
  obtain rfl | rfl | rfl := hc <;> constructor <;> decide

/-- Without a brace no object ends. -/
theorem passed_closing (h : '\x7d' ∉ cs) : Passed exportClosing cs := by
  refine passed_of_forall fun c hc ys => ?_
  have hne : '\x7d' ≠ c := (ne_of_mem_of_not_mem hc h).symm
  simp [exportClosing, afterAll?_cons, Piece.after?, List.isPrefixOf, hne]

/-- Without its letters no object starts. -/
theorem passed_opening (h : 'e' ∉ cs) : Passed (exportOpening "refs") cs := by
  refine passed_of_forall fun c hc ys => ?_
  have hne : 'e' ≠ c := (ne_of_mem_of_not_mem hc h).symm
  simp [exportOpening, afterAll?_cons, Piece.after?, List.isPrefixOf, hne]

/-- A literal that lacks a pattern is passed over. -/
theorem passed_encode (hq : Separates '\'' pieces) {s : String}
    (h : Lacks pieces (encode s).toList) : Passed pieces (encode s).toList := by
  rw [encode, String.toList_ofList] at h ⊢
  exact passed_of_lacks hq h

theorem passed_quote (hq : Separates '"' pieces) {s : String}
    (h : Lacks pieces (Json.quote s).toList) : Passed pieces (Json.quote s).toList := by
  rw [Json.quote, String.toList_ofList] at h ⊢
  exact passed_of_lacks hq h

/-- A substitution is passed over if its literals do not look like the end of an object. -/
theorem passed_substitutionLine_closing {name text : String} (hname : Harmless (Json.quote name))
    (htext : Harmless (encode text)) :
    Passed exportClosing (substitutionLine name text).toList := by
  have hquote := passed_quote (separates_quotes (c := '"') (by decide)).1 hname
  have hencode := passed_encode (separates_quotes (c := '\'') (by decide)).1 htext
  simp only [substitutionLine, String.toList_append]
  refine ((((passed_closing ?_).append hquote).append (passed_closing ?_)).append hencode).append
    (passed_closing ?_) <;> decide

/-- A substitution is passed over if they do not look like the start of the references. -/
theorem passed_substitutionLine_opening {name text : String} (hname : Unopening (Json.quote name))
    (htext : Unopening (encode text)) :
    Passed (exportOpening "refs") (substitutionLine name text).toList := by
  have hquote := passed_quote (separates_quotes (c := '"') (by decide)).2 hname
  have hencode := passed_encode (separates_quotes (c := '\'') (by decide)).2 htext
  simp only [substitutionLine, String.toList_append]
  refine ((((passed_opening ?_).append hquote).append (passed_opening ?_)).append hencode).append
    (passed_opening ?_) <;> decide

/-- A reference is passed over. -/
theorem passed_refLine {url : String} {target : RefTarget} (hurl : Harmless (encode url))
    (htitle : Harmless (encode target.title)) :
    Passed exportClosing (refLine url target).toList := by
  have hquote := (separates_quotes (c := '\'') (by decide)).1
  have hend : Passed exportClosing " \x7d,".toList :=
    @passed_of_lacks _ _ " \x7d".toList (separates_quotes (c := ',') (by decide)).1 (by decide)
  simp only [refLine, String.toList_append]
  refine ((((((passed_closing ?_).append (passed_encode hquote hurl)).append
    (passed_closing ?_)).append (passed_encode hquote htitle)).append (passed_closing ?_)).append
    (passed_encode hquote hurl)).append hend <;> decide

/-! ## Finding the objects

The first object is found at the start.  The second one is found behind it, if nothing in the first
looks like its start. -/

/-- What stands between the braces of an exported object. -/
def inside (lines : List String) : List Char :=
  '\n' :: (['\n'].intercalate (lines.map String.toList) ++ ['\n'])

theorem passed_inside {lines : List String} (hbreak : Passed pieces ['\n'])
    (h : ∀ line ∈ lines, Passed pieces line.toList) : Passed pieces (inside lines) :=
  hbreak.append ((passed_intercalate hbreak (by simpa using h)).append hbreak)

theorem toList_exportObject (name : String) (lines : List String) :
    (exportObject name lines).toList =
      "export const ".toList ++ name.toList ++ " = \x7b".toList ++ inside lines ++
        "\x7d as const;\n".toList := by
  delta exportObject
  simp [inside, Text.join, String.toList_append, String.toList_intercalate]

/-- An object is found where its name is exported. -/
theorem afterFirst?_exportOpening {name : String} (hname : name ∈ ["substitutions", "refs"])
    (ys : List Char) :
    afterFirst? (exportOpening name)
      ("export const ".toList ++ name.toList ++ " = \x7b".toList ++ ys) = some ys := by
  simp only [List.mem_cons, List.not_mem_nil, or_false] at hname
  obtain rfl | rfl := hname <;> rfl

/-- An object ends at its brace. -/
theorem beforeFirst?_exportClosing (ys : List Char) :
    beforeFirst? exportClosing ("\x7d as const;\n".toList ++ ys) = some [] := by
  rfl

/-- An exported object is found behind whatever does not look like its start. -/
theorem between?_exportObject {name : String} (hname : name ∈ ["substitutions", "refs"])
    {lines : List String} (hlines : ∀ line ∈ lines, Passed exportClosing line.toList)
    {before : List Char} (hbefore : Passed (exportOpening name) before) (after : List Char) :
    between? (exportOpening name) exportClosing
      (before ++ ((exportObject name lines).toList ++ after)) = some (inside lines) := by
  have hinside := passed_inside (passed_closing (by decide)) hlines
  rw [between?, hbefore.after, toList_exportObject, List.append_assoc, List.append_assoc,
    afterFirst?_exportOpening hname, Option.bind_some, hinside.before, beforeFirst?_exportClosing]
  simp

theorem passed_substitutions {lines : List String}
    (h : ∀ line ∈ lines, Passed (exportOpening "refs") line.toList) :
    Passed (exportOpening "refs") (exportObject "substitutions" lines).toList := by
  have hstart : Passed (exportOpening "refs") ("export const s".toList ++ ['u']) :=
    passed_of_lacks (by decide) (by decide)
  have hname : Passed (exportOpening "refs") "bstitutions = \x7b".toList :=
    passed_opening (by decide)
  have hend : Passed (exportOpening "refs") "\x7d as const;\n".toList :=
    passed_opening (by decide)
  have hopening : "export const ".toList ++ "substitutions".toList ++ " = \x7b".toList =
      ("export const s".toList ++ ['u']) ++ "bstitutions = \x7b".toList := by
    decide
  rw [toList_exportObject, hopening]
  exact ((hstart.append hname).append (passed_inside (passed_opening (by decide)) h)).append hend

/-! ## Reading the entries

Entries are sought at each place of the text, so that what stands between them does not matter as
long as it starts none. -/

theorem exists_encode_eq_cons (s : String) : ∃ cs, (encode s).toList = '\'' :: cs :=
  ⟨_, by rw [encode, String.toList_ofList]; rfl⟩

/-- A substitution is read from its line, its text cut. -/
theorem substitution?_append (name text : String) (ys : List Char) :
    substitution? ((Json.quote name).toList ++ (": ".toList ++ ((encode text).toList ++ ys))) =
      some ((name, cutText text), ys) := by
  obtain ⟨body, hbody, hname⟩ :=
    readLiteral_quote name (": ".toList ++ ((encode text).toList ++ ys))
  obtain ⟨body', hbody', htext⟩ := readLiteral_encode text ys
  have hcolon : afterAll? [.blank, .word ":", .blank]
      (": ".toList ++ ((encode text).toList ++ ys)) =
      some ((encode text).toList ++ ys) := by
    obtain ⟨cs, hcs⟩ := exists_encode_eq_cons text
    rw [hcs]
    rfl
  simp only [substitution?, hbody, hcolon, hbody', hname, htext, Option.bind_eq_bind,
    Option.bind_some, Option.pure_def]

/-- A reference is read from its line, its URL and its title cut. -/
theorem ref?_append (url : String) (target : RefTarget) (ys : List Char) :
    ref? ((encode url).toList ++ (": \x7b title: ".toList ++ ((encode target.title).toList ++
      (", url: ".toList ++ ((encode url).toList ++ (" \x7d".toList ++ ys)))))) =
      some ((cutText url, ⟨cutText target.title, cutText url⟩), ys) := by
  obtain ⟨key, hkey, hkeyText⟩ := readLiteral_encode url (": \x7b title: ".toList ++
    ((encode target.title).toList ++ (", url: ".toList ++ ((encode url).toList ++
      (" \x7d".toList ++ ys)))))
  obtain ⟨title, htitle, htitleText⟩ := readLiteral_encode target.title
    (", url: ".toList ++ ((encode url).toList ++ (" \x7d".toList ++ ys)))
  obtain ⟨address, haddress, haddressText⟩ := readLiteral_encode url (" \x7d".toList ++ ys)
  have hopen (ys : List Char) : afterAll?
      [.blank, .word ":", .blank, .word "\x7b", .blank, .word "title:", .blank]
      (": \x7b title: ".toList ++ ((encode target.title).toList ++ ys)) =
      some ((encode target.title).toList ++ ys) := by
    obtain ⟨cs, hcs⟩ := exists_encode_eq_cons target.title
    rw [hcs]
    rfl
  have hcomma (ys : List Char) : afterAll? [.blank, .word ",", .blank, .word "url:", .blank]
      (", url: ".toList ++ ((encode url).toList ++ ys)) =
      some ((encode url).toList ++ ys) := by
    obtain ⟨cs, hcs⟩ := exists_encode_eq_cons url
    rw [hcs]
    rfl
  have hclose : afterAll? [.blank, .word "\x7d"] (" \x7d".toList ++ ys) = some ys := rfl
  simp only [ref?, hkey, hopen, htitle, hcomma, haddress, hclose, hkeyText, htitleText,
    haddressText, Option.bind_eq_bind, Option.bind_some, Option.pure_def]

/-- No entry starts with anything but a quote. -/
theorem reads_glue (h : '\'' ∉ cs ∧ '"' ∉ cs) :
    Reads substitution? cs [] ∧ Reads ref? cs [] := by
  have hliteral (c : Char) (hc : c ∈ cs) (ys : List Char) : readLiteral (c :: ys) = none :=
    if_neg (not_or.2 ⟨ne_of_mem_of_not_mem hc h.1, ne_of_mem_of_not_mem hc h.2⟩)
  refine ⟨reads_of_forall fun c hc ys => ?_, reads_of_forall fun c hc ys => ?_⟩
  · rw [substitution?, hliteral c hc]
    rfl
  · rw [ref?, hliteral c hc]
    rfl

/-- The line of a substitution reads as that entry. -/
theorem reads_substitutionLine (name text : String) :
    Reads substitution? (substitutionLine name text).toList [(name, cutText text)] := by
  have hentry : Reads substitution?
      ((Json.quote name).toList ++ (": ".toList ++ (encode text).toList))
      [(name, cutText text)] := by
    refine reads_entry (by simp) fun ys => ?_
    simpa only [List.append_assoc] using substitution?_append name text ys
  have hmargin := (@reads_glue "    ".toList (by decide)).1
  have hend := (@reads_glue ",".toList (by decide)).1
  have hline : (substitutionLine name text).toList = "    ".toList ++
      ((Json.quote name).toList ++ (": ".toList ++ (encode text).toList)) ++ ",".toList := by
    simp [substitutionLine, String.toList_append]
  rw [hline]
  exact (hmargin.append hentry).append hend

/-- The line of a reference reads as that entry. -/
theorem reads_refLine (url : String) (target : RefTarget) :
    Reads ref? (refLine url target).toList
      [(cutText url, ⟨cutText target.title, cutText url⟩)] := by
  have hentry : Reads ref?
      ((encode url).toList ++ (": \x7b title: ".toList ++ ((encode target.title).toList ++
        (", url: ".toList ++ ((encode url).toList ++ " \x7d".toList)))))
      [(cutText url, ⟨cutText target.title, cutText url⟩)] := by
    refine reads_entry (by simp) fun ys => ?_
    simpa only [List.append_assoc] using ref?_append url target ys
  have hmargin := (@reads_glue "    ".toList (by decide)).2
  have hend := (@reads_glue ",".toList (by decide)).2
  have hline : (refLine url target).toList = "    ".toList ++ ((encode url).toList ++
      (": \x7b title: ".toList ++ ((encode target.title).toList ++ (", url: ".toList ++
        ((encode url).toList ++ " \x7d".toList))))) ++ ",".toList := by
    simp [refLine, String.toList_append]
  rw [hline]
  exact (hmargin.append hentry).append hend

/-- The lines between the braces of an object read as its entries. -/
theorem entriesFrom_inside {α β : Type} {readEntry : List Char → Option (α × List Char)}
    {items : List β} {line : β → String} {entry : β → α}
    (hbreak : Reads readEntry ['\n'] [])
    (h : ∀ item ∈ items, Reads readEntry (line item).toList [entry item]) :
    entriesFrom readEntry 0 (inside (items.map line)) = items.map entry := by
  have hlines := Reads.intercalate hbreak h
  have hread := (hbreak.append (hlines.append hbreak)) []
  simpa [inside, Function.comp_def, entriesFrom] using hread

/-- A module is its two objects, and what is exported of them behind. -/
theorem toList_render (r : References) :
    (render r).toList =
      (exportObject "substitutions" ((sorted r.substitutions).map fun e =>
        substitutionLine e.1 e.2)).toList ++
      ((exportObject "refs" ((sorted r.refs).map fun e => refLine e.1 e.2)).toList ++
      ("const references = \x7b substitutions, refs \x7d as const;\n" ++
        "export default references;\n").toList) := by
  rw [render, String.toList_append, String.toList_append, List.append_assoc]
  rfl

theorem mem_sorted {α : Type} {entries : Entries α} {e : String × α} :
    e ∈ sorted entries ↔ e ∈ entries :=
  List.mem_mergeSort

/-- The substitutions of a module are found. -/
theorem substitutionsIn?_render (h : r.Unmistakable) :
    substitutionsIn? (render r).toList =
      some (inside ((sorted r.substitutions).map fun e => substitutionLine e.1 e.2)) := by
  have hlines : ∀ line ∈ (sorted r.substitutions).map fun e => substitutionLine e.1 e.2,
      Passed exportClosing line.toList := by
    intro line hline
    obtain ⟨e, he, rfl⟩ := List.mem_map.1 hline
    rw [mem_sorted] at he
    exact passed_substitutionLine_closing (h.name e he).1 (h.text e he).1
  have hname : "substitutions" ∈ ["substitutions", "refs"] := by decide
  have hfound := between?_exportObject hname hlines .nil
  simp only [List.nil_append] at hfound
  rw [substitutionsIn?, toList_render, hfound]
  rfl

/-- And so are its references. -/
theorem refsIn?_render (h : r.Unmistakable) :
    refsIn? (render r).toList =
      some (inside ((sorted r.refs).map fun e => refLine e.1 e.2)) := by
  have hlines : ∀ line ∈ (sorted r.refs).map fun e => refLine e.1 e.2,
      Passed exportClosing line.toList := by
    intro line hline
    obtain ⟨e, he, rfl⟩ := List.mem_map.1 hline
    rw [mem_sorted] at he
    exact passed_refLine (h.url e he) (h.title e he)
  have hbefore : ∀ line ∈ (sorted r.substitutions).map fun e => substitutionLine e.1 e.2,
      Passed (exportOpening "refs") line.toList := by
    intro line hline
    obtain ⟨e, he, rfl⟩ := List.mem_map.1 hline
    rw [mem_sorted] at he
    exact passed_substitutionLine_opening (h.name e he).2 (h.text e he).2
  rw [refsIn?, toList_render,
    between?_exportObject (by decide) hlines (passed_substitutions hbefore)]
  rfl

/-- **A module that is written holds its entries**, cut to the greatest length, if none of its
literals is mistaken for code. -/
theorem parse_render (h : r.Unmistakable) :
    parse (render r) =
      ⟨Entries.ofList ((sorted r.substitutions).map fun e => (e.1, cutText e.2)),
        Entries.ofList ((sorted r.refs).map fun e =>
          (cutText e.1, ⟨cutText e.2.title, cutText e.1⟩))⟩ := by
  have hbreak := @reads_glue ['\n'] (by decide)
  have hsubstitutions := entriesFrom_inside hbreak.1
    fun e (_ : e ∈ sorted r.substitutions) => reads_substitutionLine e.1 e.2
  have hrefs := entriesFrom_inside hbreak.2
    fun e (_ : e ∈ sorted r.refs) => reads_refLine e.1 e.2
  simp only [parse, substitutionsIn?_render h, refsIn?_render h, Option.elim_some,
    hsubstitutions, hrefs]

end MdxPages.References
