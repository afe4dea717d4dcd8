import MdxPages.Convert.Assembly
import MdxPages.Proofs.Path.Resolution

/-!
# Proofs/Path/Script — names and paths that an import statement can hold

A script imports a default under an identifier, from a path between quotes (`IsImport`).  The name
and the path that an image is imported under are always of that kind, up to the quotes and line
breaks of the image's own path (`isImport_image`).  Those of a fragment are if its file name is made
of what an identifier may hold, hyphens and points, and the way to it does not start with a hidden
name (`isImport_fragment`).
-/

namespace MdxPages

/-! ## Import statements

Which letters beyond ASCII may stand in an identifier is left open.  All else is what a script needs
to read an import. -/

namespace Script

variable {letter : Char → Bool}

/-- Whether a character ends a line of a script. -/
def isLineBreak (c : Char) : Bool :=
  c == '\n' || c == '\r' || c == '\u2028' || c == '\u2029'

/-- The lines of a script. -/
def lines (s : String) : List String :=
  (Text.splitOn isLineBreak s.toList).map String.ofList

/-- The words that an import cannot bind. -/
def reservedWords : List String :=
  ["arguments", "await", "break", "case", "catch", "class", "const", "continue", "debugger",
    "default", "delete", "do", "else", "enum", "eval", "export", "extends", "false", "finally",
    "for", "function", "if", "implements", "import", "in", "instanceof", "interface", "let", "new",
    "null", "package", "private", "protected", "public", "return", "static", "super", "switch",
    "this", "throw", "true", "try", "typeof", "var", "void", "while", "with", "yield"]

/-- A character of an identifier.  Beyond ASCII, `letter` says which characters are letters. -/
def isNameChar (letter : Char → Bool) (c : Char) : Bool :=
  c.isAlphanum || c == '_' || c == '$' || (128 ≤ c.toNat && letter c && !isLineBreak c)

/-- A name that a script can bind. -/
structure IsIdentifier (letter : Char → Bool) (name : String) : Prop where
  chars : ∀ c ∈ name.toList, isNameChar letter c = true
  start : ∃ c ∈ name.toList.head?, c.isDigit = false
  notReserved : name ∉ reservedWords

/-- An identifier is not empty. -/
theorem IsIdentifier.ne_empty {name : String} (h : IsIdentifier letter name) : name ≠ "" := by
  rintro rfl
  obtain ⟨c, hc, -⟩ := h.start
  cases hc

/-- A character that stands for itself between quotes. -/
def isPlain (c : Char) : Bool :=
  c != '\'' && c != '"' && c != '\\' && !isLineBreak c

/-- A relative path that can stand between quotes. -/
structure IsSpecifier (path : String) : Prop where
  relative : Text.startsWith path "./" = true ∨ Text.startsWith path "../" = true
  chars : ∀ c ∈ path.toList, isPlain c = true

/-- A name and a path that make an import statement. -/
structure IsImport (letter : Char → Bool) (name path : String) : Prop where
  identifier : IsIdentifier letter name
  specifier : IsSpecifier path

/-- Words that cannot be bound start with a small letter, and none of them ends like the names of
images. -/
theorem shape_of_reserved : ∀ word ∈ reservedWords,
    (∃ c ∈ word.toList.head?, c.isLower = true) ∧ ¬"Img".toList <:+ word.toList := by
  have h : (reservedWords.all fun word => word.toList.head?.any Char.isLower &&
      !"Img".toList.isSuffixOf word.toList) = true := by rfl
  simp only [List.all_eq_true, Bool.and_eq_true, Option.any_eq_true, Bool.not_eq_true',
    ← Bool.not_eq_true, List.isSuffixOf_iff_suffix] at h
  exact h

/-- What an image is named with may stand in an identifier. -/
theorem isNameChar_of_ascii {c : Char} (h : Path.isIdentifierChar c = true) :
    isNameChar letter c = true := by
  rw [Path.isIdentifierChar, Bool.or_eq_true] at h
  obtain h | h := h <;> simp [isNameChar, h]

/-- Names and paths hold no line breaks, so that each import keeps to its line. -/
theorem isLineBreak_of_isNameChar {c : Char} (h : isNameChar letter c = true) :
    isLineBreak c = false := by
  rw [← Bool.not_eq_true]
  intro hbreak
  simp only [isLineBreak, Bool.or_eq_true, beq_iff_eq] at hbreak
  obtain ((rfl | rfl) | rfl) | rfl := hbreak <;> simp [isNameChar, isLineBreak] at h

/-- What stands for itself between quotes breaks no line. -/
theorem isLineBreak_of_isPlain {c : Char} (h : isPlain c = true) : isLineBreak c = false := by
  simp only [isPlain, Bool.and_eq_true] at h
  simpa using h.2

end Script

namespace Path

open Script

variable {letter : Char → Bool} {P : Char → Prop} {name : List Char}

/-! ## The guard before digits

A name may not start with a digit, so an underscore is put before one. -/

theorem isDigit_of_ascii {c : Char} (h : c.isDigit = true) : Text.isDigit c = true := by
  have hrange : 48 ≤ c.toNat ∧ c.toNat ≤ 57 := Char.isDigit_iff_toNat.1 h
  rw [Text.isDigit, Text.isDecimal, Text.decimalValue?, Text.decimalZeros,
    List.find?_cons_of_pos (by simpa using hrange)]
  rfl

/-- A guard adds an underscore at most. -/
theorem forall_mem_guardDigit (hguard : P '_') (h : ∀ c ∈ name, P c) :
    ∀ c ∈ guardDigit name, P c := by
  cases name with
  | nil => exact h
  | cons c cs =>
    rw [guardDigit]
    split
    · exact List.forall_mem_cons.2 ⟨hguard, h⟩
    · exact h

/-- What a guarded name starts with is no digit. -/
theorem exists_head_guardDigit (h : name ≠ []) : ∃ c ∈ (guardDigit name).head?,
    c.isDigit = false ∧ (c = '_' ∨ c ∈ name.head?) := by
  cases name with
  | nil => exact absurd rfl h
  | cons c cs =>
    rw [guardDigit]
    split
    · exact ⟨'_', rfl, by decide, .inl rfl⟩
    · next hdigit =>
      refine ⟨c, rfl, ?_, .inr rfl⟩
      rw [← Bool.not_eq_true]
      exact mt isDigit_of_ascii hdigit

/-! ## Images

The name of an image is made of letters and digits of ASCII, and all other characters are replaced.
-/

/-- **An image is imported under an identifier**, whatever its path. -/
theorem isIdentifier_imageIdentifier (letter : Char → Bool) (target : String) :
    IsIdentifier letter (imageIdentifier target) := by
  obtain ⟨name, hname, heq⟩ : ∃ name : List Char, (∀ c ∈ name, isIdentifierChar c = true) ∧
      imageIdentifier target = String.ofList (guardDigit name) ++ "Img" := by
    refine ⟨_, fun c hc => ?_, rfl⟩
    obtain ⟨d, -, rfl⟩ := List.mem_map.1 hc
    split
    · assumption
    · decide
  have hchars : (imageIdentifier target).toList = guardDigit name ++ ['I', 'm', 'g'] := by
    rw [heq, String.toList_append, String.toList_ofList]
    rfl
  refine ⟨?_, ?_, fun hreserved => (shape_of_reserved _ hreserved).2 ⟨_, hchars.symm⟩⟩
  · rw [hchars]
    refine List.forall_mem_append.2 ⟨forall_mem_guardDigit (isNameChar_of_ascii (by decide))
      fun c hc => isNameChar_of_ascii (hname c hc), ?_⟩
    simp only [List.forall_mem_cons, List.not_mem_nil, false_imp_iff, implies_true, and_true]
    exact ⟨rfl, rfl, rfl⟩
  · rw [hchars]
    by_cases hempty : name = []
    · rw [hempty]
      exact ⟨'I', rfl, by decide⟩
    · obtain ⟨c, hc, hdigit, -⟩ := exists_head_guardDigit hempty
      exact ⟨c, by rw [List.head?_append, Option.mem_def.1 hc]; rfl, hdigit⟩

/-- The import of an image can be read if its path can stand between quotes. -/
theorem isImport_image (letter : Char → Bool) (importer : String) {target : String}
    (h : ∀ c ∈ (toPosix target).toList, isPlain c = true) :
    IsImport letter (imageIdentifier target) (imageImport importer target) where
  identifier := isIdentifier_imageIdentifier letter target
  specifier := by
    refine ⟨.inr ?_, forall_mem_imageImport (by decide) (by decide) importer h⟩
    rw [imageImport]
    split <;> exact Text.startsWith_append _ _

/-! ## Fragments

The name of a component keeps what the file name holds, but for hyphens and underscores, and starts
with a capital. -/

/-- The file name of a fragment without its extension. -/
def fragmentStem (path extension : String) : String :=
  dropEnding (baseName (toPosix path)) extension

/-- A character that the name of a component can be made from: a hyphen, a point, or a character of
identifiers that has a capital made of such characters, none of them a small letter. -/
def isStemChar (letter : Char → Bool) (c : Char) : Bool :=
  c == '-' || c == '.' ||
    (isNameChar letter c && !(Text.upperChar c).isEmpty &&
      (Text.upperChar c).all fun d => isNameChar letter d && !d.isLower)

/-- A fragment that a file can import: its file name is made of what names are made of, and not of
hyphens and underscores alone; nothing in its path ends quotes or lines; and the way to it does not
start with a hidden name, nor end one level up. -/
structure Importable (letter : Char → Bool) (extension importer path : String) : Prop where
  stem : ∀ c ∈ (fragmentStem path extension).toList, isStemChar letter c = true
  named : ∃ c ∈ (fragmentStem path extension).toList, c ≠ '-' ∧ c ≠ '_'
  plain : ∀ c ∈ (toPosix (Text.stripLeading '/' path)).toList, isPlain c = true
  way : ∃ first rest, wayBetween (parts (dirname importer)) (parts (Text.stripLeading '/' path)) =
    first :: rest ∧ (Text.startsWith first "." = true → first = ".." ∧ rest ≠ [])

theorem capital_of_isStemChar {c : Char} (h : isStemChar letter c = true) (hc : c ≠ '-') :
    (c = '.' ∨ isNameChar letter c = true) ∧ Text.upperChar c ≠ [] ∧
      ∀ d ∈ Text.upperChar c, (d = '.' ∨ isNameChar letter d = true) ∧ d.isLower = false := by
  by_cases hpoint : c = '.'
  · subst hpoint
    have hupper : Text.upperChar '.' = ['.'] := rfl
    rw [hupper]
    exact ⟨.inl rfl, List.cons_ne_nil _ _, List.forall_mem_singleton.2 ⟨.inl rfl, by decide⟩⟩
  · simp only [isStemChar, beq_eq_false_iff_ne.2 hc, beq_eq_false_iff_ne.2 hpoint, Bool.false_or,
      Bool.and_eq_true, List.all_eq_true, Bool.not_eq_true', List.isEmpty_eq_false_iff] at h
    exact ⟨.inr h.1.1, h.1.2, fun d hd => ⟨.inr (h.2 d hd).1, (h.2 d hd).2⟩⟩

/-- The pieces of a file name hold characters that are kept, or put in their capital form. -/
theorem forall_mem_pieces {stem : String} (h : ∀ c ∈ stem.toList, isStemChar letter c = true) :
    ∀ piece ∈ Text.splitOn (fun c => c == '-' || c == '_') stem.toList, ∀ c ∈ piece,
      (c = '.' ∨ isNameChar letter c = true) ∧ Text.upperChar c ≠ [] ∧
        ∀ d ∈ Text.upperChar c, (d = '.' ∨ isNameChar letter d = true) ∧ d.isLower = false := by
  intro piece hpiece c hc
  obtain ⟨hmem, hseparator⟩ := Text.mem_of_mem_splitOn hpiece c hc
  refine capital_of_isStemChar (h c hmem) ?_
  rintro rfl
  cases hseparator

/-- The name of a component is made of what the file name may hold. -/
theorem isNameChar_of_mem_componentName {stem : String}
    (h : ∀ c ∈ stem.toList, isStemChar letter c = true) :
    ∀ d ∈ (componentName stem).toList, d = '.' ∨ isNameChar letter d = true := by
  rw [componentName, String.toList_ofList]
  intro d hd
  obtain ⟨piece, hpiece, hd⟩ := List.mem_flatMap.1 hd
  have hchars := forall_mem_pieces h piece hpiece
  cases piece with
  | nil => cases hd
  | cons c cs =>
    rw [List.forall_mem_cons] at hchars
    obtain hd | hd := List.mem_append.1 hd
    · exact (hchars.1.2.2 d hd).1
    · exact (hchars.2 d hd).1

/-- A component does not start with a small letter. -/
theorem exists_head_componentName {stem : String}
    (h : ∀ c ∈ stem.toList, isStemChar letter c = true)
    (hnamed : ∃ c ∈ stem.toList, c ≠ '-' ∧ c ≠ '_') :
    ∃ d ∈ (componentName stem).toList.head?, d.isLower = false := by
  obtain ⟨c, hc, hhyphen, hunderscore⟩ := hnamed
  obtain ⟨piece, hpiece, hmem⟩ := Text.exists_mem_splitOn (p := fun c => c == '-' || c == '_') hc
    (by simp [hhyphen, hunderscore])
  have hchars := forall_mem_pieces h
  rw [componentName, String.toList_ofList]
  -- the first piece that is not empty starts the name
  generalize Text.splitOn _ stem.toList = pieces at hpiece hchars
  induction pieces with
  | nil => cases hpiece
  | cons first pieces ih =>
    rw [List.forall_mem_cons] at hchars
    cases first with
    | nil =>
      obtain rfl | hpiece := List.mem_cons.1 hpiece
      · cases hmem
      · exact ih hpiece hchars.2
    | cons c cs =>
      obtain ⟨-, hne, hcapital⟩ := hchars.1 c List.mem_cons_self
      obtain ⟨d, ds, hupper⟩ := List.exists_cons_of_ne_nil hne
      rw [hupper] at hcapital
      refine ⟨d, ?_, (hcapital d List.mem_cons_self).2⟩
      rw [List.flatMap_cons, capitalize, hupper]
      rfl

/-- A fragment is imported under an identifier if its file name is made of such characters, not of
hyphens and underscores alone. -/
theorem isIdentifier_fragmentComponent {extension path : String}
    (hstem : ∀ c ∈ (fragmentStem path extension).toList, isStemChar letter c = true)
    (hnamed : ∃ c ∈ (fragmentStem path extension).toList, c ≠ '-' ∧ c ≠ '_') :
    IsIdentifier letter (fragmentComponent path extension) := by
  have hchars := isNameChar_of_mem_componentName hstem
  obtain ⟨d, hd, hlower⟩ := exists_head_componentName hstem hnamed
  have hunderscore : isNameChar letter '_' = true := isNameChar_of_ascii (by decide)
  have hname : (fragmentComponent path extension).toList = guardDigit
      ((componentName (fragmentStem path extension)).toList.map fun c =>
        if c == '.' then '_' else c) := String.toList_ofList
  generalize (componentName (fragmentStem path extension)).toList = component at *
  have hne : component.map (fun c => if c == '.' then '_' else c) ≠ [] := by
    rintro hempty
    rw [List.map_eq_nil_iff.1 hempty] at hd
    cases hd
  obtain ⟨c, hc, hdigit, hstart⟩ := exists_head_guardDigit hne
  rw [← hname] at hc
  refine ⟨?_, ⟨c, hc, hdigit⟩, fun hreserved => ?_⟩
  · rw [hname]
    refine forall_mem_guardDigit hunderscore fun e he => ?_
    obtain ⟨d, hd, rfl⟩ := List.mem_map.1 he
    split
    · exact hunderscore
    · next hpoint => exact (hchars d hd).resolve_left fun h => hpoint (beq_iff_eq.2 h)
  · -- the name starts with a capital, or with what has none
    obtain ⟨⟨c', hc', hsmall⟩, -⟩ := shape_of_reserved _ hreserved
    obtain rfl : c = c' := Option.some.inj ((Option.mem_def.1 hc).symm.trans hc')
    have hcapital : c.isLower = false := by
      obtain rfl | hstart := hstart
      · decide
      · rw [List.head?_map, Option.mem_def.1 hd] at hstart
        obtain rfl := Option.some.inj hstart
        dsimp only
        split
        · decide
        · exact hlower
    exact Bool.false_ne_true (hcapital.symm.trans hsmall)

theorem startsWith_point_append {s : String} (h : s ≠ "") (t : String) :
    Text.startsWith (s ++ t) "." = Text.startsWith s "." := by
  rw [Text.startsWith, Text.startsWith, String.toList_append]
  cases hs : s.toList with
  | nil => exact absurd (String.toList_eq_nil_iff.1 hs) h
  | cons c cs => rfl

/-- The import of a fragment says that it is relative, unless the way to it starts with a hidden
name or ends one level up. -/
theorem relative_fragmentImport {importer path first : String} {rest : List String}
    (hway : wayBetween (parts (dirname importer)) (parts (Text.stripLeading '/' path)) =
      first :: rest) (hhidden : Text.startsWith first "." = true → first = ".." ∧ rest ≠ []) :
    Text.startsWith (fragmentImport importer path) "./" = true ∨
      Text.startsWith (fragmentImport importer path) "../" = true := by
  have hfirst : first ≠ "" := by
    rintro rfl
    obtain hup | hmem := mem_wayBetween (hway ▸ List.mem_cons_self)
    · exact absurd hup (by decide)
    · exact absurd (isVoid_of_mem_named hmem) (by decide)
  obtain ⟨more, hmore, hrest⟩ : ∃ more, Text.join "/" (first :: rest) = first ++ more ∧
      (rest ≠ [] → ∃ below, more = "/" ++ below) := by
    by_cases hempty : rest = []
    · exact ⟨"", by rw [hempty, String.append_empty]; rfl, fun h => absurd hempty h⟩
    · exact ⟨_, by rw [Text.join_cons _ _ hempty, String.append_assoc], fun _ => ⟨_, rfl⟩⟩
  have hjoined : (first ++ more).isEmpty = false := by
    rw [String.isEmpty_eq_false_iff]
    exact fun h => hfirst (String.append_eq_empty_iff.1 h).1
  rw [fragmentImport, relative, hway, hmore, hjoined, if_neg Bool.false_ne_true, dotted,
    startsWith_point_append hfirst]
  cases hpoint : Text.startsWith first "." with
  | false => exact .inl (Text.startsWith_append "./" _)
  | true =>
    obtain ⟨rfl, hne⟩ := hhidden hpoint
    obtain ⟨below, rfl⟩ := hrest hne
    rw [if_pos rfl, ← String.append_assoc]
    exact .inr (Text.startsWith_append "../" below)

/-- **The import of a fragment can be read** if its file name can be made a component and its path
is no hidden one. -/
theorem isImport_fragment {extension importer path : String}
    (h : Importable letter extension importer path) :
    IsImport letter (fragmentComponent path extension) (fragmentImport importer path) where
  identifier := isIdentifier_fragmentComponent h.stem h.named
  specifier :=
    let ⟨_, _, hway, hhidden⟩ := h.way
    ⟨relative_fragmentImport hway hhidden,
      forall_mem_fragmentImport (by decide) (by decide) importer h.plain⟩

end Path

end MdxPages
