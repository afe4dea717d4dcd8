import Mathlib.Data.List.Nodup
import MdxPages.Proofs.References.Kept

/-!
# Proofs/References/Keys — the keys that a registry module is written with

A module is read object by object and entry by entry, each literal up to its end; so what is read is
what was written, whatever the literals say (`module?_render`).  Names are written as they are, and
none of them is written twice.  URLs are cut like any text: **one is written twice exactly if two
long URLs begin alike** (`keys_written`), and what is written again over what was read has the cut
URL beside the whole one.
-/

namespace MdxPages.References

variable {α β : Type} {r : References} {u v : String} {cs rest : List Char}

/-! ## Reading a module

A reader of its own, which does not search for patterns but reads the module from its start, entry
by entry. -/

/-- The entries that a text starts with, each with a comma behind it, and the rest of the text. -/
def items (readEntry : List Char → Option (α × List Char)) (cs : List Char) : List α × List Char :=
  match readEntry cs with
  | none => ([], cs)
  | some (entry, rest) =>
    match afterAll? [.blank, .word ",", .blank] rest with
    | none => ([], cs)
    | some rest =>
      if rest.length < cs.length then
        let (entries, rest) := items readEntry rest
        (entry :: entries, rest)
      else ([], cs)
termination_by cs.length

/-- An exported object at the start of a text: its entries, and the rest of the text. -/
def object? (name : String) (readEntry : List Char → Option (α × List Char)) (cs : List Char) :
    Option (List α × List Char) := do
  let cs ← afterAll? (exportOpening name ++ [.blank]) cs
  let (entries, cs) := items readEntry cs
  let cs ← afterAll? (exportClosing ++ [.word ";", .blank]) cs
  return (entries, cs)

/-- A module at the start of a text: the entries of its two objects. -/
def module? (text : String) : Option (List (String × String) × List (String × RefTarget)) := do
  let (substitutions, cs) ← object? "substitutions" substitution? text.toList
  let (refs, _) ← object? "refs" ref? cs
  return (substitutions, refs)

/-- The names and the URLs of a module, in their order. -/
def moduleKeys? (text : String) : Option (List String × List String) :=
  (module? text).map fun (substitutions, refs) => (Entries.keys substitutions, Entries.keys refs)

/-! ## A written module

Each entry is a line that starts with a key.  The lines end where the brace stands that closes the
object. -/

/-- Where no entry starts, the entries end. -/
theorem items_stop {readEntry : List Char → Option (α × List Char)} (h : readEntry cs = none) :
    items readEntry cs = ([], cs) := by
  rw [items, h]

/-- An entry and a comma are read before the rest. -/
theorem items_cons {readEntry : List Char → Option (α × List Char)} {entry : α} {after : List Char}
    (hentry : readEntry cs = some (entry, after))
    (hcomma : afterAll? [.blank, .word ",", .blank] after = some rest)
    (hshort : rest.length < cs.length) :
    items readEntry cs = (entry :: (items readEntry rest).1, (items readEntry rest).2) := by
  rw [items, hentry]
  dsimp only
  rw [hcomma]
  dsimp only
  rw [if_pos hshort]

/-- How the entries of an object are written: each starts with a character that is no blank, and
reading takes it whatever follows it; a closing brace starts none. -/
structure Written (readEntry : List Char → Option (α × List Char)) (text : β → List Char)
    (entry : β → α) : Prop where
  start (x : β) : ∃ c cs, text x = c :: cs ∧ Text.isSpace c = false
  read (x : β) (rest : List Char) : readEntry (text x ++ rest) = some (entry x, rest)
  brace (rest : List Char) : readEntry ('\x7d' :: rest) = none

/-- The line of an entry. -/
def entryLine (text : β → List Char) (x : β) : List Char :=
  "    ".toList ++ (text x ++ [',', '\n'])

section

variable {readEntry : List Char → Option (α × List Char)} {text : β → List Char} {entry : β → α}

/-- **Entries are read one by one**, up to the brace behind them. -/
theorem items_lines (h : Written readEntry text entry) (xs : List β) (rest : List Char) :
    items readEntry ((xs.flatMap (entryLine text) ++ '\x7d' :: rest).dropWhile Text.isSpace) =
      (xs.map entry, '\x7d' :: rest) := by
  induction xs with
  | nil =>
    have hstop := items_stop (h.brace rest)
    exact hstop
  | cons x xs ih =>
    obtain ⟨c, cs, htext, hc⟩ := h.start x
    generalize hafter : xs.flatMap (entryLine text) ++ '\x7d' :: rest = after at ih
    have hblank (ys : List Char) : ("    ".toList ++ c :: ys).dropWhile Text.isSpace = c :: ys := by
      change (c :: ys).dropWhile Text.isSpace = c :: ys
      exact List.dropWhile_cons_of_neg (by simp [hc])
    have hline : ((x :: xs).flatMap (entryLine text) ++ '\x7d' :: rest).dropWhile Text.isSpace =
        text x ++ ',' :: '\n' :: after := by
      simp only [List.flatMap_cons, entryLine, List.append_assoc, htext, List.cons_append,
        List.nil_append, hblank, ← hafter]
    have hcomma : afterAll? [.blank, .word ",", .blank] (',' :: '\n' :: after) =
        some (after.dropWhile Text.isSpace) := rfl
    have hshort : (after.dropWhile Text.isSpace).length <
        (text x ++ ',' :: '\n' :: after).length := by
      have hdrop := (List.dropWhile_suffix (l := after) Text.isSpace).length_le
      simp only [List.length_append, List.length_cons]
      omega
    rw [hline, items_cons (h.read x _) hcomma hshort, ih]
    rfl

theorem dropWhile_inside (lines : List String) (rest : List Char) :
    (inside lines ++ rest).dropWhile Text.isSpace =
      (lines.flatMap (fun line => line.toList ++ ['\n']) ++ rest).dropWhile Text.isSpace := by
  have hlines (line : String) (lines : List String) :
      ['\n'].intercalate ((line :: lines).map String.toList) ++ ['\n'] =
        (line :: lines).flatMap fun line => line.toList ++ ['\n'] := by
    induction lines generalizing line with
    | nil => simp
    | cons next lines ih =>
      rw [List.map_cons, List.map_cons, List.intercalate_cons_cons, List.flatMap_cons, ← ih]
      simp
  rcases lines with _ | ⟨line, lines⟩
  · rfl
  · rw [inside, hlines]
    rfl

/-- **An exported object is read as it was written.** -/
theorem object?_exportObject {name : String} (hname : name ∈ ["substitutions", "refs"])
    (h : Written readEntry text entry) {line : β → String}
    (hline : ∀ x, (line x).toList ++ ['\n'] = entryLine text x) (xs : List β) (rest : List Char) :
    object? name readEntry ((exportObject name (xs.map line)).toList ++ rest) =
      some (xs.map entry, rest.dropWhile Text.isSpace) := by
  have hopening (ys : List Char) : afterAll? (exportOpening name ++ [.blank])
      ("export const ".toList ++ name.toList ++ " = \x7b".toList ++ ys) =
        some (ys.dropWhile Text.isSpace) := by
    simp only [List.mem_cons, List.not_mem_nil, or_false] at hname
    rcases hname with rfl | rfl <;> rfl
  have hclosing : afterAll? (exportClosing ++ [.word ";", .blank])
      ('\x7d' :: (" as const;\n".toList ++ rest)) = some (rest.dropWhile Text.isSpace) := rfl
  have hbody :
      (inside (xs.map line) ++ ("\x7d as const;\n".toList ++ rest)).dropWhile Text.isSpace =
        (xs.flatMap (entryLine text) ++ '\x7d' :: (" as const;\n".toList ++ rest)).dropWhile
          Text.isSpace := by
    rw [dropWhile_inside, List.flatMap_map]
    simp only [hline]
    rfl
  rw [object?, toList_exportObject, List.append_assoc, List.append_assoc, hopening,
    Option.bind_eq_bind, Option.bind_some, hbody, items_lines h]
  dsimp only
  rw [hclosing]
  rfl

end

/-- A substitution as it is written. -/
def substitutionText (e : String × String) : List Char :=
  (Json.quote e.1).toList ++ (": ".toList ++ (encode e.2).toList)

/-- A reference as it is written. -/
def refText (e : String × RefTarget) : List Char :=
  (encode e.1).toList ++ (": \x7b title: ".toList ++ ((encode e.2.title).toList ++
    (", url: ".toList ++ ((encode e.1).toList ++ " \x7d".toList))))

/-- A substitution is read as its name and its cut text. -/
theorem written_substitutionText :
    Written substitution? substitutionText fun e => (e.1, cutText e.2) where
  start e := ⟨'"', _, by rw [substitutionText, Json.quote, String.toList_ofList]; rfl, by decide⟩
  read e rest := by
    simpa only [substitutionText, List.append_assoc] using substitution?_append e.1 e.2 rest
  brace rest := rfl

/-- A reference is read as its cut URL and its cut title. -/
theorem written_refText :
    Written ref? refText fun e => (cutText e.1, ⟨cutText e.2.title, cutText e.1⟩) where
  start e := ⟨'\'', _, by rw [refText, encode, String.toList_ofList]; rfl, by decide⟩
  read e rest := by simpa only [refText, List.append_assoc] using ref?_append e.1 e.2 rest
  brace rest := rfl

/-- **A module is read as it was written**, whatever its literals say. -/
theorem module?_render (r : References) :
    module? (render r) =
      some ((sorted r.substitutions).map fun e => (e.1, cutText e.2),
        (sorted r.refs).map fun e => (cutText e.1, ⟨cutText e.2.title, cutText e.1⟩)) := by
  have hsubstitution (e : String × String) : (substitutionLine e.1 e.2).toList ++ ['\n'] =
      entryLine substitutionText e := by
    simp [substitutionLine, entryLine, substitutionText]
  have href (e : String × RefTarget) : (refLine e.1 e.2).toList ++ ['\n'] =
      entryLine refText e := by
    simp [refLine, entryLine, refText]
  have hstart (lines : List String) (rest : List Char) :
      ((exportObject "refs" lines).toList ++ rest).dropWhile Text.isSpace =
        (exportObject "refs" lines).toList ++ rest := by
    rw [toList_exportObject]
    rfl
  rw [module?, toList_render,
    object?_exportObject (by decide) written_substitutionText hsubstitution, hstart,
    Option.bind_eq_bind, Option.bind_some]
  dsimp only
  rw [object?_exportObject (by decide) written_refText href]
  rfl

/-! ## Cut keys

A text is cut behind its greatest length and marked, so what has been cut starts as the whole does.
-/

theorem length_truncate_le_iff : (truncate cs).length ≤ maxLength ↔ cs.length ≤ maxLength := by
  rw [truncate]
  split_ifs with h
  · rw [List.length_append, List.length_take_of_le (Nat.le_of_lt h)]
    simp only [List.length_singleton]
    omega
  · rfl

/-- Different texts that are both cut, and begin alike up to there. -/
structure Twins (u v : String) : Prop where
  ne : u ≠ v
  left : maxLength < u.toList.length
  right : maxLength < v.toList.length
  take : u.toList.take maxLength = v.toList.take maxLength

/-- **Different texts are cut to the same text exactly if they are twins.** -/
theorem twins_iff : Twins u v ↔ u ≠ v ∧ cutText u = cutText v := by
  rw [cutText, cutText, String.ofList_inj]
  constructor
  · intro h
    rw [truncate, truncate, if_pos h.left, if_pos h.right, h.take]
    exact ⟨h.ne, rfl⟩
  · rintro ⟨hne, hcut⟩
    have hshort : u.toList.length ≤ maxLength ↔ v.toList.length ≤ maxLength := by
      rw [← length_truncate_le_iff, hcut, length_truncate_le_iff]
    have hu : ¬u.toList.length ≤ maxLength := by
      intro hu
      rw [truncate_of_length_le hu, truncate_of_length_le (hshort.1 hu)] at hcut
      exact hne (String.toList_inj.1 hcut)
    have hv := mt hshort.2 hu
    rw [Nat.not_le] at hu hv
    rw [truncate, truncate, if_pos hu, if_pos hv, List.append_cancel_right_eq] at hcut
    exact ⟨hne, hu, hv, hcut⟩

/-- Registries without twins among their URLs. -/
def Twinless (r : References) : Prop :=
  ∀ u ∈ r.refs.keys, ∀ v ∈ r.refs.keys, ¬Twins u v

/-- Without twins no two URLs are cut alike. -/
theorem twinless_iff :
    r.Twinless ↔ ∀ u ∈ r.refs.keys, ∀ v ∈ r.refs.keys, cutText u = cutText v → u = v := by
  simp only [Twinless, twins_iff, not_and, not_imp_not, ne_eq]

/-! ## Keys of a written module

Names are not cut, and URLs are.  What is read back has the cut URL for a key, and does not meet the
whole one. -/

/-- Sorting keeps the keys. -/
theorem keys_sorted_perm (entries : Entries α) : (sorted entries).keys.Perm entries.keys :=
  (List.mergeSort_perm entries _).map Prod.fst

/-- **A module has each name once, and each URL cut**; it has a URL twice exactly if there are
twins. -/
theorem moduleKeys?_render (h : r.Keyed) :
    ∃ names urls, moduleKeys? (render r) = some (names, urls) ∧
      names.Perm r.substitutions.keys ∧ names.Nodup ∧
      urls.Perm (r.refs.keys.map cutText) ∧ (urls.Nodup ↔ r.Twinless) := by
  have hurls := (keys_sorted_perm r.refs).map cutText
  refine ⟨(sorted r.substitutions).keys, (sorted r.refs).keys.map cutText, ?_,
    keys_sorted_perm _, keys_sorted h.names, hurls, ?_⟩
  · rw [moduleKeys?, module?_render]
    simp [Entries.keys, Function.comp_def]
  · rw [hurls.nodup_iff, List.nodup_map_iff_inj_on h.urls, twinless_iff]

/-- What is parsed has no key twice. -/
theorem keyed_parse (text : String) : (parse text).Keyed where
  names := Entries.nodup_keys_ofList _
  urls := Entries.nodup_keys_ofList _

/-- A merged map has the keys of both. -/
theorem mem_keys_merge {key : String} {left right : Entries α} :
    key ∈ (left.merge right).keys ↔ key ∈ left.keys ∨ key ∈ right.keys := by
  rw [Entries.keys_merge, List.mem_append, List.mem_eraseDups, List.removeAll, List.mem_filter]
  by_cases hleft : key ∈ left.keys
  · simp [hleft]
  · simp [hleft]

/-- The URLs of a registry that is merged into what its own module is read as. -/
theorem mem_urls_merge_parse (h : r.Unmistakable) :
    v ∈ ((parse (render r)).merge r).refs.keys ↔
      (∃ u ∈ r.refs.keys, cutText u = v) ∨ v ∈ r.refs.keys := by
  have hkeys : Entries.keys ((sorted r.refs).map fun e =>
      (cutText e.1, (⟨cutText e.2.title, cutText e.1⟩ : RefTarget))) =
        (sorted r.refs).keys.map cutText := by
    simp [Entries.keys, Function.comp_def]
  have hread : v ∈ (parse (render r)).refs.keys ↔ ∃ u ∈ r.refs.keys, cutText u = v := by
    rw [parse_render h, Entries.keys_ofList, List.mem_eraseDups, hkeys, List.mem_map]
    simp only [(keys_sorted_perm r.refs).mem_iff]
  rw [merge, mem_keys_merge, hread]

/-- **A URL that is cut has its twin in what is written next.** -/
theorem twinless_merge_parse_iff (h : r.Unmistakable) :
    ((parse (render r)).merge r).Twinless ↔ ∀ u ∈ r.refs.keys, cutText u = u := by
  rw [twinless_iff]
  constructor
  · intro hmerged u hu
    exact hmerged _ ((mem_urls_merge_parse h).2 (.inl ⟨u, hu, rfl⟩)) u
      ((mem_urls_merge_parse h).2 (.inr hu)) (cutText_cutText u)
  · intro hwhole
    have hmerged : ∀ v ∈ ((parse (render r)).merge r).refs.keys, cutText v = v := by
      intro v hv
      rcases (mem_urls_merge_parse h).1 hv with ⟨u, -, rfl⟩ | hv
      · exact cutText_cutText u
      · exact hwhole v hv
    intro u hu v hv hcut
    rwa [hmerged u hu, hmerged v hv] at hcut

/-- **Which keys are written once.**  A module has each name of its registry once, and each URL cut;
it has a URL twice exactly if there are twins.  The same holds of what is written for the registry
merged into what its own module is read as; where that module is read as it is meant, there are
twins exactly if a URL is not its own cut. -/
theorem keys_written {r : References} (h : r.Keyed) :
    (∃ names urls, moduleKeys? (render r) = some (names, urls) ∧
      names.Perm r.substitutions.keys ∧ names.Nodup ∧
      urls.Perm (r.refs.keys.map cutText) ∧ (urls.Nodup ↔ r.Twinless)) ∧
    ∃ names urls, moduleKeys? (render ((parse (render r)).merge r)) = some (names, urls) ∧
      names.Perm ((parse (render r)).merge r).substitutions.keys ∧ names.Nodup ∧
      urls.Perm (((parse (render r)).merge r).refs.keys.map cutText) ∧
      (urls.Nodup ↔ ((parse (render r)).merge r).Twinless) ∧
      (r.Unmistakable → (urls.Nodup ↔ ∀ u ∈ r.refs.keys, cutText u = u)) := by
  refine ⟨moduleKeys?_render h, ?_⟩
  obtain ⟨names, urls, hmodule, hnames, hnodup, hurls, htwins⟩ :=
    moduleKeys?_render ((keyed_parse (render r)).merge r)
  refine ⟨names, urls, hmodule, hnames, hnodup, hurls, htwins, fun hplain => ?_⟩
  rw [htwins, twinless_merge_parse_iff hplain]

/-- Two names and two URLs, with quotes in them. -/
theorem keys_written_quotes :
    ∃ r : References, r.Keyed ∧ r.Unmistakable ∧
      r.substitutions.keys = ["it's", "\"v\""] ∧ r.refs.keys = ["/b'", "/a"] ∧
      (∃ names urls, moduleKeys? (render r) = some (names, urls) ∧ names.Nodup ∧ urls.Nodup) ∧
      ∃ names urls, moduleKeys? (render ((parse (render r)).merge r)) = some (names, urls) ∧
        names.Nodup ∧ urls.Nodup := by
  have hkeyed : (⟨[("it's", "1"), ("\"v\"", "2")],
      [("/b'", ⟨"b", "/b'"⟩), ("/a", ⟨"a", "/a"⟩)]⟩ : References).Keyed := by
    constructor <;> decide
  have hplain : (⟨[("it's", "1"), ("\"v\"", "2")],
      [("/b'", ⟨"b", "/b'"⟩), ("/a", ⟨"a", "/a"⟩)]⟩ : References).Unmistakable := by
    constructor <;> decide
  have hwhole : ∀ u ∈ ["/b'", "/a"], cutText u = u := by
    decide
  obtain ⟨⟨names, urls, hmodule, -, hnames, -, hurls⟩,
    names', urls', hmodule', -, hnames', -, -, hurls'⟩ := keys_written hkeyed
  refine ⟨_, hkeyed, hplain, rfl, rfl, ⟨names, urls, hmodule, hnames, hurls.2 ?_⟩,
    names', urls', hmodule', hnames', (hurls' hplain).2 hwhole⟩
  rw [twinless_iff]
  intro u hu v hv hcut
  rwa [hwhole u hu, hwhole v hv] at hcut

/-- A URL that is one character too long to be kept. -/
def longUrl (last : Char) : String :=
  String.ofList (List.replicate maxLength 'a' ++ [last])

/-- **Two URLs that differ only behind the greatest length are written as one key**, twice. -/
theorem twins_share_key :
    longUrl 'b' ≠ longUrl 'c' ∧
      moduleKeys? (render { refs := [(longUrl 'b', ⟨"b", longUrl 'b'⟩),
        (longUrl 'c', ⟨"c", longUrl 'c'⟩)] }) =
          some ([], [cutText (longUrl 'b'), cutText (longUrl 'b')]) := by
  have htwins : Twins (longUrl 'b') (longUrl 'c') := by
    have htake (last : Char) :
        (longUrl last).toList.take maxLength = List.replicate maxLength 'a' := by
      rw [longUrl, String.toList_ofList, List.take_left' List.length_replicate]
    constructor
    · rw [longUrl, longUrl, ne_eq, String.ofList_inj, List.append_cancel_left_eq]
      decide
    · simp [longUrl]
    · simp [longUrl]
    · rw [htake, htake]
  obtain ⟨hne, hcut⟩ := twins_iff.1 htwins
  have hkeyed : (⟨[], [(longUrl 'b', ⟨"b", longUrl 'b'⟩),
      (longUrl 'c', ⟨"c", longUrl 'c'⟩)]⟩ : References).Keyed :=
    ⟨List.nodup_nil, by simpa [Entries.keys] using hne⟩
  obtain ⟨names, urls, hmodule, hnames, -, hurls, -⟩ := moduleKeys?_render hkeyed
  have hall : urls = List.replicate 2 (cutText (longUrl 'b')) := by
    refine List.eq_replicate_iff.2 ⟨hurls.length_eq, fun url hurl => ?_⟩
    simpa [Entries.keys, ← hcut] using hurls.mem_iff.1 hurl
  rw [hmodule, List.perm_nil.1 hnames, hall]
  exact ⟨hne, rfl⟩

end MdxPages.References
