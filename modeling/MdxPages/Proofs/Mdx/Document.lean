import MdxPages.Mdx.Render
import MdxPages.Proofs.Text.Margin

/-!
# Proofs/Mdx/Document — the lines of a document

A document is closed: `\r\n` becomes `\n`, and one line end is left of those at its end.  `Closes`
says so without the code, and a document is closed exactly so (`closes_iff`).  Each of its lines
loses a carriage return (`unifyPairs_append`), and what stands below a line with content is closed
by itself (`exists_split_closeDocument`).
-/

namespace MdxPages

namespace Text

variable {cs ds : List Char} {c : Char} {s t : String}

/-! ## Carriage returns

A pair of characters is replaced wherever it stands.  Since its two characters differ, no two places
overlap, and a text is cut into pieces in one way. -/

/-- Without its second character a pair is not in a text. -/
theorem noPair_of_notMem {a b : Char} (h : b ∉ cs) : ¬[a, b] <:+: cs := fun hpair =>
  h (hpair.subset (by simp))

/-- Between two texts no pair begins if the first does not end with its first character or the
second does not start with its second one. -/
theorem replacePair_append {a b : Char} {new : List Char} (hcs : ¬[a, b] <:+: cs)
    (h : cs.getLast? ≠ some a ∨ c ≠ b) (ds : List Char) :
    replacePair a b new (cs ++ c :: ds) = cs ++ replacePair a b new (c :: ds) := by
  induction cs with
  | nil => rfl
  | cons d cs ih =>
    rw [List.infix_cons_iff, not_or] at hcs
    cases cs with
    | nil =>
      have hpair : ¬(d = a ∧ c = b) := fun hd => h.elim (fun ha => ha (by simp [hd.1])) (· hd.2)
      rw [List.singleton_append, replacePair, if_neg hpair, List.singleton_append]
    | cons e cs =>
      have hpair : ¬(d = a ∧ e = b) := fun hd => hcs.1 (by simp [hd.1, hd.2])
      rw [List.getLast?_cons_cons] at h
      simp only [List.cons_append] at ih ⊢
      rw [replacePair, if_neg hpair, ih hcs.2 h]

/-- A text without a pair stays as it is. -/
theorem replacePair_eq_self {a b : Char} {new : List Char} (h : ¬[a, b] <:+: cs) :
    replacePair a b new cs = cs := by
  fun_induction replacePair a b new cs with
  | case1 => rfl
  | case2 => rfl
  | case3 c d cs hcd ih => exact absurd (by simp [hcd.1, hcd.2, List.infix_cons_iff]) h
  | case4 c d cs hcd ih => rw [ih fun hpair => h (List.infix_cons hpair)]

/-- Pieces without a pair, put together with it, are put together with what is written for it. -/
theorem replacePair_intercalate {a b : Char} (hab : a ≠ b) (new : List Char)
    {pieces : List (List Char)} (h : ∀ piece ∈ pieces, ¬[a, b] <:+: piece) :
    replacePair a b new ([a, b].intercalate pieces) = new.intercalate pieces := by
  induction pieces with
  | nil => rfl
  | cons piece rest ih =>
    rw [List.forall_mem_cons] at h
    cases rest with
    | nil => simp [replacePair_eq_self h.1]
    | cons next rest =>
      rw [List.intercalate_cons_cons, List.intercalate_cons_cons, ← ih h.2, List.append_assoc,
        List.append_assoc, List.cons_append, replacePair_append h.1 (.inr hab), List.cons_append,
        replacePair, if_pos ⟨rfl, rfl⟩, List.nil_append]

theorem intercalate_cons_left (separator piece : List Char) (c : Char) (rest) :
    separator.intercalate ((c :: piece) :: rest) = c :: separator.intercalate (piece :: rest) := by
  cases rest <;> simp [List.intercalate_cons_cons]

/-- A text can be cut at a pair, wherever it stands. -/
theorem exists_pieces (a b : Char) (cs : List Char) : ∃ pieces : List (List Char),
    pieces ≠ [] ∧ (∀ piece ∈ pieces, ¬[a, b] <:+: piece) ∧ cs = [a, b].intercalate pieces := by
  -- the cuts are where a replacement is made, whatever it puts in
  fun_induction replacePair a b [] cs with
  | case1 => exact ⟨[[]], by simp, by simp, rfl⟩
  | case2 c => exact ⟨[[c]], by simp, by simpa using fun h => by simpa using h.length_le, rfl⟩
  | case3 c d cs hcd ih =>
    obtain ⟨pieces, hne, hpieces, rfl⟩ := ih
    refine ⟨[] :: pieces, by simp, by simpa using hpieces, ?_⟩
    rw [List.intercalate_cons_of_ne_nil hne, hcd.1, hcd.2]
    rfl
  | case4 c d cs hcd ih =>
    obtain ⟨pieces, hne, hpieces, hcs⟩ := ih
    obtain ⟨piece, rest, rfl⟩ := List.exists_cons_of_ne_nil hne
    rw [List.forall_mem_cons] at hpieces
    have hpiece : ¬[a, b] <:+: c :: piece := by
      rw [List.infix_cons_iff, not_or]
      refine ⟨fun hpair => hcd ?_, hpieces.1⟩
      -- a pair at the front of the piece would be the one at the front of the text
      have hfront : [a, b] <+: c :: d :: cs := by
        rw [hcs, ← intercalate_cons_left]
        exact hpair.trans (by cases rest <;> simp [List.intercalate_cons_cons])
      simpa [eq_comm] using hfront
    refine ⟨(c :: piece) :: rest, by simp, List.forall_mem_cons.2 ⟨hpiece, hpieces.2⟩, ?_⟩
    rw [intercalate_cons_left, hcs]

/-- One text is another one with `\n` in the place of each `\r\n`. -/
def Unifies (s t : String) : Prop :=
  ∃ pieces : List String, (∀ piece ∈ pieces, ¬['\r', '\n'] <:+: piece.toList) ∧
    s = "\r\n".intercalate pieces ∧ t = "\n".intercalate pieces

/-- A text in which every `\r\n` is written `\n`. -/
def unifyPairs (s : String) : String :=
  String.ofList (replacePair '\r' '\n' ['\n'] s.toList)

/-- The pieces between the pairs are all that `Unifies` leaves open, and they do not matter. -/
theorem unifies_iff : Unifies s t ↔ t = unifyPairs s := by
  constructor
  · rintro ⟨pieces, hpieces, rfl, rfl⟩
    have hlists : ∀ piece ∈ pieces.map String.toList, ¬['\r', '\n'] <:+: piece := by
      simpa using hpieces
    rw [← String.toList_inj]
    simp [String.toList_intercalate, unifyPairs, replacePair_intercalate (by decide) _ hlists]
  · rintro rfl
    obtain ⟨pieces, -, hpieces, hs⟩ := exists_pieces '\r' '\n' s.toList
    refine ⟨pieces.map String.ofList, by simpa using hpieces, ?_, ?_⟩
    · simp [← String.toList_inj, String.toList_intercalate, hs]
    · simp [← String.toList_inj, String.toList_intercalate, hs, unifyPairs,
        replacePair_intercalate (by decide) _ hpieces]

/-- Without a line end there is no pair to replace. -/
theorem unifyPairs_of_notMem (h : '\n' ∉ s.toList) : unifyPairs s = s := by
  rw [unifyPairs, replacePair_eq_self (noPair_of_notMem h), String.ofList_toList]

/-- A line loses a carriage return at its end. -/
theorem unifyPairs_append (h : '\n' ∉ s.toList) (t : String) :
    unifyPairs (s ++ "\n" ++ t) = dropReturn s ++ "\n" ++ unifyPairs t := by
  rw [← String.toList_inj]
  obtain ⟨line, rfl, hdrop⟩ | ⟨hs, hdrop⟩ := dropReturn_cases s
  · have hline : '\n' ∉ line.toList := fun hmem => h (by simp [hmem])
    have hborder : line.toList.getLast? ≠ some '\r' ∨ '\r' ≠ '\n' := .inr (by decide)
    simp [unifyPairs, hdrop, replacePair_append (noPair_of_notMem hline) hborder, replacePair]
  · have hborder : s.toList.getLast? ≠ some '\r' ∨ '\n' ≠ '\n' := .inl hs
    cases ht : t.toList <;> simp [unifyPairs, hdrop,
      replacePair_append (noPair_of_notMem h) hborder, replacePair, ht]

/-- Lines lose their carriage returns one by one. -/
theorem unifyPairs_join {lines rest : List String} (h : ∀ line ∈ lines, '\n' ∉ line.toList)
    (hrest : rest ≠ []) : unifyPairs (join "\n" (lines ++ rest)) =
      join "\n" (lines.map dropReturn ++ [unifyPairs (join "\n" rest)]) := by
  induction lines with
  | nil => rfl
  | cons line lines ih =>
    rw [List.forall_mem_cons] at h
    rw [List.cons_append, join_cons _ _ (by simp [hrest]), unifyPairs_append h.1, ih h.2,
      List.map_cons, List.cons_append, join_cons _ _ (by simp)]

/-! ## Line ends at the end

One line end is left of those at the end.  A text of line ends only is empty then. -/

/-- Behind a text that keeps its end only the second one is cut. -/
theorem dropEndWhile_append {p : Char → Bool} (h : dropEndWhile p cs = cs) (ds : List Char) :
    dropEndWhile p (cs ++ ds) = cs ++ dropEndWhile p ds := by
  have hcs : cs.reverse.dropWhile p = cs.reverse := List.reverse_eq_iff.1 h
  rw [dropEndWhile, dropEndWhile, List.reverse_append, List.dropWhile_append, hcs]
  split
  · next hds => simp [List.isEmpty_iff.1 hds]
  · simp

/-- What is cut off at the end are characters of the kind. -/
theorem exists_dropEndWhile_append (p : Char → Bool) (cs : List Char) :
    ∃ ends, (∀ c ∈ ends, p c) ∧ cs = dropEndWhile p cs ++ ends :=
  ⟨cs.rtakeWhile p, fun _ => List.mem_rtakeWhile_imp, List.rdropWhile_append_rtakeWhile.symm⟩

/-- What is left ends in a character of another kind. -/
theorem getLast?_dropEndWhile {p : Char → Bool} (h : (dropEndWhile p cs).getLast? = some c) :
    ¬p c := by
  have hne : dropEndWhile p cs ≠ [] := fun hnil => by simp [hnil] at h
  rw [List.getLast?_eq_some_getLast hne, Option.some_inj] at h
  exact h ▸ List.rdropWhile_last_not p cs hne

/-- A text with one line end for those at its end. -/
def closeEnd (s : String) : String :=
  String.ofList (dropEndWhile (· == '\n') s.toList ++ ['\n'])

/-- Closing looks at the end only. -/
theorem closeEnd_append (h : stripEnd s = s) (t : String) :
    closeEnd (s ++ t) = s ++ closeEnd t := by
  have hcs : dropEndWhile (· == '\n') s.toList = s.toList := by
    have hspace := congrArg String.toList h
    rw [stripEnd, String.toList_ofList] at hspace
    refine List.rdropWhile_eq_self_iff.2 fun hne hlast => ?_
    refine List.rdropWhile_eq_self_iff.1 hspace hne ?_
    rw [eq_of_beq hlast]
    rfl
  rw [← String.toList_inj]
  simp [closeEnd, dropEndWhile_append hcs]

theorem exists_closeEnd_eq (t : String) : ∃ u, closeEnd ("\n" ++ t) = "\n" ++ u := by
  obtain ⟨ds, hds⟩ : dropEndWhile (· == '\n') ('\n' :: t.toList) <+: '\n' :: t.toList :=
    List.rdropWhile_prefix (· == '\n') ('\n' :: t.toList)
  have hhead : ∃ u, dropEndWhile (· == '\n') ('\n' :: t.toList) ++ ['\n'] = '\n' :: u := by
    cases hdrop : dropEndWhile (· == '\n') ('\n' :: t.toList) with
    | nil => exact ⟨[], rfl⟩
    | cons c cs =>
      rw [hdrop] at hds
      exact ⟨cs ++ ['\n'], by rw [(List.cons.inj hds).1, List.cons_append]⟩
  obtain ⟨u, hu⟩ := hhead
  exact ⟨String.ofList u, by rw [← String.toList_inj]; simp [closeEnd, hu]⟩

end Text

namespace Mdx

open Text

/-- A text is closed: there is one line end at its end, and nothing where there are line ends
only. -/
inductive EndsClosed : String → String → Prop
  | content {body ends : String} (hbody : body ≠ "") (hlast : body.toList.getLast? ≠ some '\n')
      (hends : ∀ c ∈ ends.toList, c = '\n') : EndsClosed (body ++ ends) (body ++ "\n")
  | empty {ends : String} (hends : ∀ c ∈ ends.toList, c = '\n') : EndsClosed ends ""

/-- A document is a text with `\n` in the place of each `\r\n` that is closed then. -/
def Closes (s document : String) : Prop :=
  ∃ t, Unifies s t ∧ EndsClosed t document

variable {s : String} {above shown : List String}

/-- A text is closed by cutting off its line ends and adding one. -/
theorem endsClosed_iff {t document : String} : EndsClosed t document ↔ document =
    if dropEndWhile (· == '\n') t.toList = [] then ""
    else String.ofList (dropEndWhile (· == '\n') t.toList ++ ['\n']) := by
  have hnil {s : String} : dropEndWhile (· == '\n') s.toList = [] ↔ ∀ c ∈ s.toList, c = '\n' :=
    List.rdropWhile_eq_nil_iff.trans (by simp)
  constructor
  · rintro (@⟨body, ends, hbody, hlast, hends⟩ | hends)
    · have hself : dropEndWhile (· == '\n') body.toList = body.toList := by
        refine List.rdropWhile_eq_self_iff.2 fun hne heq => hlast ?_
        rw [List.getLast?_eq_some_getLast hne, eq_of_beq heq]
      rw [String.toList_append, dropEndWhile_append hself, hnil.2 hends, List.append_nil,
        if_neg (by simpa), String.ofList_append, String.ofList_toList]
    · rw [if_pos (hnil.2 hends)]
  · rintro rfl
    split
    · next h => exact .empty (hnil.1 h)
    · next hne =>
      obtain ⟨ends, hends, ht⟩ := exists_dropEndWhile_append (· == '\n') t.toList
      have hclosed : EndsClosed (String.ofList (dropEndWhile (· == '\n') t.toList) ++
            String.ofList ends) (String.ofList (dropEndWhile (· == '\n') t.toList) ++ "\n") := by
        refine .content (by simpa using hne) ?_ (by simpa using hends)
        rw [String.toList_ofList]
        exact fun hlast => getLast?_dropEndWhile hlast rfl
      rw [← String.ofList_append, ← ht, String.ofList_toList] at hclosed
      rwa [String.ofList_append]

/-- **A document is closed as `Closes` says**, and in no other way. -/
theorem closes_iff {document : String} : Closes s document ↔ document = closeDocument s := by
  simp only [Closes, unifies_iff, exists_eq_left, endsClosed_iff, unifyPairs, closeDocument,
    String.toList_ofList, List.isEmpty_iff]

/-- A document with content is closed at its end, its carriage returns being dropped. -/
theorem closeDocument_eq (h : isBlank (unifyPairs s) = false) :
    closeDocument s = closeEnd (unifyPairs s) := by
  obtain ⟨c, hc, hspace⟩ := isBlank_eq_false_iff.1 h
  rw [unifyPairs, String.toList_ofList] at hc
  have hnewline : c ≠ '\n' := by
    rintro rfl
    cases hspace
  have hne : dropEndWhile (· == '\n') (replacePair '\r' '\n' ['\n'] s.toList) ≠ [] := fun hnil =>
    hnewline (eq_of_beq (List.rdropWhile_eq_nil_iff.1 hnil c hc))
  simp [closeDocument, closeEnd, unifyPairs, hne]

/-- Lines that end in something else than white space lose their carriage returns also in front of
what comes after them. -/
theorem unifyPairs_of_split {below : List String} (hlines : split '\n' s = above ++ shown ++ below)
    (hshown : Bounded shown) : unifyPairs s =
      join "\n" (above.map dropReturn ++ shown.map dropReturn) ++
        if below = [] then "" else "\n" ++ unifyPairs (join "\n" below) := by
  have hmem : ∀ line ∈ above ++ shown ++ below, '\n' ∉ line.toList := by
    rw [← hlines]
    exact fun _ => notMem_of_mem_split
  have hnewline : ("\n" : String).toList = ['\n'] := rfl
  rw [← join_split hnewline s, hlines]
  obtain ⟨first, middle, last, rfl, -, -, hend⟩ := hshown
  split
  · next hbelow =>
    -- The last line stands before no line end, so that a carriage return would stay there.
    have hlast : unifyPairs last = last := unifyPairs_of_notMem (hmem last (by simp))
    have hinit : above ++ first :: (middle ++ [last]) ++ below =
        (above ++ first :: middle) ++ [last] := by simp [hbelow]
    rw [hinit] at hmem ⊢
    rw [unifyPairs_join (fun line hline => hmem line (List.mem_append_left _ hline)) (by simp)]
    simp [join, hlast, dropReturn_of_stripEnd_eq hend]
  · next hbelow =>
    rw [unifyPairs_join (fun line hline => hmem line (List.mem_append_left _ hline)) hbelow, join,
      String.intercalate_append_of_ne_nil (by simp) (by simp)]
    simp [join, String.append_assoc]

/-- **The lines of a document are the lines of the text it is made of**, without a carriage return
at their ends, up to what comes after the last line with content. -/
theorem exists_split_closeDocument (below : List String) : ∃ below',
    (below = [] → below' = [""]) ∧ ∀ {s above shown},
      split '\n' s = above ++ shown ++ below → Bounded shown →
        split '\n' (closeDocument s) =
          above.map dropReturn ++ shown.map dropReturn ++ below' := by
  obtain ⟨u, hu⟩ := exists_closeEnd_eq (unifyPairs (join "\n" below))
  refine ⟨split '\n' (if below = [] then "" else u), fun hbelow => by rw [if_pos hbelow]; rfl, ?_⟩
  intro s above shown hlines hshown
  obtain ⟨hblank, hend⟩ := hshown.map_dropReturn.join (above.map dropReturn)
  have hunified := unifyPairs_of_split hlines hshown
  have hclosed : closeDocument s = join "\n" (above.map dropReturn ++ shown.map dropReturn) ++
      "\n" ++ if below = [] then "" else u := by
    rw [closeDocument_eq (by rw [hunified, isBlank_append, hblank, Bool.false_and]), hunified,
      closeEnd_append hend, String.append_assoc]
    split
    · rfl
    · exact congrArg _ hu
  have hpieces : ∀ line ∈ above.map dropReturn ++ shown.map dropReturn, '\n' ∉ line.toList := by
    rw [← List.map_append, List.forall_mem_map]
    intro line hline hnewline
    have hpiece : line ∈ split '\n' s := hlines ▸ List.mem_append_left _ hline
    exact notMem_of_mem_split hpiece (mem_of_mem_dropReturn hnewline)
  have hne : above.map dropReturn ++ shown.map dropReturn ≠ [] := by
    obtain ⟨first, middle, last, rfl, -⟩ := hshown
    simp
  rw [hclosed, split_append rfl, split_join rfl hne hpieces]

end Mdx

end MdxPages
