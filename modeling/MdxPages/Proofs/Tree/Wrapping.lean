import Mathlib.Data.List.Forall2
import MdxPages.Proofs.Tree.Normal
import MdxPages.References.Basic

/-!
# Proofs/Tree/Wrapping — wrapping runs of phrasing only adds paragraphs

A wrapped tree is told from the tree before by paragraphs alone, each around a maximal run of
phrasing siblings (`Grouped`, `Wrapped`).  Taking apart all paragraphs among blocks leads from both
trees to the same one (`spliceParagraphs_wrapInlineRuns`), and the other nodes, the text and the
references stay as they are (`wrapInlineRuns_adds_paragraphs`).
-/

namespace MdxPages

namespace Node

variable {n : Node} {run run' ns ns' : List Node} {before : Option Node}

/-! ## Maximal runs

Runs are found from left to right with the current run carried along.  `Grouped` says what is found
without it. -/

/-- Siblings before and after: each block is related to one of its own, and each maximal run of
phrasing nodes is related to the nodes of a paragraph.  `before` is the sibling just before them. -/
inductive Grouped (R : Node → Node → Prop) : Option Node → List Node → List Node → Prop
  | nil {before : Option Node} : Grouped R before [] []
  | block {before : Option Node} {n n' : Node} {ns ns' : List Node}
    (phrasing : n.isPhrasing = false) (related : R n n') (rest : Grouped R (some n) ns ns') :
    Grouped R before (n :: ns) (n' :: ns')
  | run {before : Option Node} {run run' ns ns' : List Node} (nonempty : run ≠ [])
    (phrasing : ∀ n ∈ run, n.isPhrasing = true) (left : ∀ n ∈ before, n.isPhrasing = false)
    (right : ∀ n ∈ ns.head?, n.isPhrasing = false) (related : List.Forall₂ R run run')
    (rest : Grouped R run.getLast? ns ns') : Grouped R before (run ++ ns) (paragraph run' :: ns')

/-- A tree before and after: under a flow container the maximal runs of phrasing are put in
paragraphs, under any other node each child stays a child of its own. -/
inductive Wrapped : Node → Node → Prop
  | flow {n : Node} {ds : List Node} (container : n.isFlowContainer = true)
    (grouped : Grouped Wrapped none n.children ds) : Wrapped n (n.withChildren ds)
  | other {n : Node} {ds : List Node} (container : n.isFlowContainer = false)
    (related : List.Forall₂ Wrapped n.children ds) : Wrapped n (n.withChildren ds)

/-- A run that is wrapped is maximal if it is bounded on both sides. -/
theorem grouped_wrapRun {R : Node → Node → Prop} (hrun : List.Forall₂ R run run')
    (hphrasing : ∀ n ∈ run, n.isPhrasing = true) (hleft : ∀ n ∈ before, n.isPhrasing = false)
    (hright : ∀ n ∈ ns.head?, n.isPhrasing = false) (hrest : ∀ last, Grouped R last ns ns') :
    Grouped R before (run ++ ns) (wrapRun run' ++ ns') := by
  cases hrun with
  | nil => exact hrest before
  | cons hn hrun => exact .run (by simp) hphrasing hleft hright (.cons hn hrun) (hrest _)

/-- Wrapping groups siblings by maximal runs; `run` stands just before the siblings still to come,
and what stands before `run` is no phrasing. -/
theorem grouped_wrapFrom {R : Node → Node → Prop}
    (hkind : ∀ n n', R n n' → n'.isPhrasing = n.isPhrasing) (hns : List.Forall₂ R ns ns')
    (hrun : List.Forall₂ R run run') (hphrasing : ∀ n ∈ run, n.isPhrasing = true)
    (hleft : ∀ n ∈ before, n.isPhrasing = false) :
    Grouped R before (run ++ ns) (wrapFrom run' ns') := by
  induction hns generalizing run run' before with
  | nil =>
    rw [wrapFrom, ← List.append_nil (wrapRun run')]
    exact grouped_wrapRun hrun hphrasing hleft (by simp) fun _ => .nil
  | @cons n n' ns ns' hn hns ih =>
    rw [wrapFrom, hkind n n' hn]
    cases hnphrasing : n.isPhrasing with
    | true =>
      rw [← List.singleton_append, ← List.append_assoc]
      refine ih (List.rel_append hrun (.cons hn .nil)) ?_ hleft
      exact List.forall_mem_append.2 ⟨hphrasing, List.forall_mem_singleton.2 hnphrasing⟩
    | false =>
      refine grouped_wrapRun hrun hphrasing hleft (by simpa using hnphrasing) fun _ => ?_
      exact .block hnphrasing hn (ih .nil (by simp) (by simpa using hnphrasing))

/-- Wrapping siblings groups them by maximal runs. -/
theorem grouped_wrapRuns {R : Node → Node → Prop}
    (hkind : ∀ n n', R n n' → n'.isPhrasing = n.isPhrasing) (hns : List.Forall₂ R ns ns') :
    Grouped R none ns (wrapRuns ns') := by
  have h : Grouped R none ([] ++ ns) (wrapFrom [] ns') :=
    grouped_wrapFrom hkind hns .nil (by simp) (by simp)
  exact h

theorem isPhrasing_withChildren (cs : List Node) (n : Node) :
    (n.withChildren cs).isPhrasing = n.isPhrasing := by
  cases n <;> rfl

theorem isPhrasing_of_wrapped {n' : Node} (h : Wrapped n n') : n'.isPhrasing = n.isPhrasing := by
  cases h <;> exact isPhrasing_withChildren _ n

mutual

/-- Wrapping at every depth relates the trees, by induction. -/
theorem wrapped_normalize (n : Node) : Wrapped n n.normalize := by
  match n with
  | root cs | blockquote cs | list _ _ cs | listItem cs | footnoteDefinition _ _ cs
  | flowComponent _ _ cs =>
    rw [normalize]
    exact .flow rfl <| grouped_wrapRuns (fun _ _ => isPhrasing_of_wrapped)
      (forall₂_wrapped_normalizeEach cs)
  | heading _ cs | paragraph cs | emphasis cs | strong cs | link _ cs | textComponent _ _ cs =>
    rw [normalize]
    exact .other rfl (forall₂_wrapped_normalizeEach cs)
  | code .. | thematicBreak | html _ | yaml _ | imports _ | text _ | inlineCode _ | lineBreak
  | footnoteReference .. => exact @Wrapped.other _ [] rfl .nil

theorem forall₂_wrapped_normalizeEach (ns : List Node) :
    List.Forall₂ Wrapped ns (normalizeEach ns) := by
  match ns with
  | [] => exact .nil
  | n :: ns =>
    rw [normalizeEach]
    exact .cons (wrapped_normalize n) (forall₂_wrapped_normalizeEach ns)

end

/-- **Each paragraph that wrapping adds holds a maximal run**, at every depth. -/
theorem grouped_wrapInlineRuns (ns : List Node) : Grouped Wrapped none ns (wrapInlineRuns ns) :=
  grouped_wrapRuns (fun _ _ => isPhrasing_of_wrapped) (forall₂_wrapped_normalizeEach ns)

/-! ## Taking paragraphs apart

Paragraphs that were there before are taken apart as well, on both sides. -/

/-- Siblings with the children of each paragraph in the place of the paragraph. -/
def spliceParagraphs (ns : List Node) : List Node :=
  ns.flatMap fun n => match n with
    | paragraph cs => cs
    | n => [n]

mutual

/-- A tree in which the paragraphs under flow containers are taken apart, at every depth. -/
def spliced : Node → Node
  | root cs => root (spliceParagraphs (splicedEach cs))
  | blockquote cs => blockquote (spliceParagraphs (splicedEach cs))
  | list ordered start cs => list ordered start (spliceParagraphs (splicedEach cs))
  | listItem cs => listItem (spliceParagraphs (splicedEach cs))
  | footnoteDefinition identifier label cs =>
    footnoteDefinition identifier label (spliceParagraphs (splicedEach cs))
  | flowComponent name attributes cs =>
    flowComponent name attributes (spliceParagraphs (splicedEach cs))
  | heading depth cs => heading depth (splicedEach cs)
  | paragraph cs => paragraph (splicedEach cs)
  | emphasis cs => emphasis (splicedEach cs)
  | strong cs => strong (splicedEach cs)
  | link url cs => link url (splicedEach cs)
  | textComponent name attributes cs => textComponent name attributes (splicedEach cs)
  | leaf => leaf

/-- Sibling trees in which the paragraphs under flow containers are taken apart. -/
def splicedEach : List Node → List Node
  | [] => []
  | n :: ns => spliced n :: splicedEach ns

end

theorem splicedEach_append (xs ys : List Node) :
    splicedEach (xs ++ ys) = splicedEach xs ++ splicedEach ys := by
  induction xs with
  | nil => rfl
  | cons x xs ih => rw [List.cons_append, splicedEach, splicedEach, ih, List.cons_append]

theorem spliceParagraphs_append (xs ys : List Node) :
    spliceParagraphs (xs ++ ys) = spliceParagraphs xs ++ spliceParagraphs ys :=
  List.flatMap_append

theorem isPhrasing_spliced (n : Node) : (spliced n).isPhrasing = n.isPhrasing := by
  cases n <;> simp [spliced, isPhrasing]

/-- Phrasing stays when paragraphs are taken apart. -/
theorem spliceParagraphs_cons_of_phrasing (h : n.isPhrasing = true) (ns : List Node) :
    spliceParagraphs (n :: ns) = n :: spliceParagraphs ns := by
  cases n <;> first | rfl | cases h

/-- A paragraph around a run is the run again. -/
theorem spliceParagraphs_wrapRun (run : List Node) :
    spliceParagraphs (splicedEach (wrapRun run)) = splicedEach run := by
  cases run with
  | nil => rfl
  | cons n run => simp [wrapRun, splicedEach, spliced, spliceParagraphs]

/-- So siblings that are wrapped and taken apart are what they were. -/
theorem spliceParagraphs_wrapFrom (run ns : List Node) :
    spliceParagraphs (splicedEach (wrapFrom run ns)) =
      splicedEach run ++ spliceParagraphs (splicedEach ns) := by
  induction ns generalizing run with
  | nil =>
    rw [wrapFrom, spliceParagraphs_wrapRun]
    exact (List.append_nil _).symm
  | cons n ns ih =>
    rw [wrapFrom]
    split
    · next hphrasing =>
      have hspliced := (isPhrasing_spliced n).trans hphrasing
      rw [ih, splicedEach_append, splicedEach, splicedEach, splicedEach,
        spliceParagraphs_cons_of_phrasing hspliced, List.append_assoc, List.singleton_append]
    · have hcons (ms : List Node) : spliceParagraphs (splicedEach (n :: ms)) =
          spliceParagraphs [spliced n] ++ spliceParagraphs (splicedEach ms) :=
        spliceParagraphs_append [spliced n] (splicedEach ms)
      rw [splicedEach_append, spliceParagraphs_append, spliceParagraphs_wrapRun, hcons, hcons, ih]
      rfl

mutual

/-- And so is the tree, at every depth. -/
theorem spliced_normalize (n : Node) : spliced n.normalize = spliced n := by
  match n with
  | root cs | blockquote cs | list _ _ cs | listItem cs | footnoteDefinition _ _ cs
  | flowComponent _ _ cs =>
    simp only [normalize, spliced, wrapRuns, spliceParagraphs_wrapFrom, splicedEach,
      List.nil_append, splicedEach_normalizeEach cs]
  | heading _ cs | paragraph cs | emphasis cs | strong cs | link _ cs | textComponent _ _ cs =>
    simp only [normalize, spliced, splicedEach_normalizeEach cs]
  | code .. | thematicBreak | html _ | yaml _ | imports _ | text _ | inlineCode _ | lineBreak
  | footnoteReference .. => rfl

theorem splicedEach_normalizeEach (ns : List Node) :
    splicedEach (normalizeEach ns) = splicedEach ns := by
  match ns with
  | [] => rfl
  | n :: ns =>
    rw [normalizeEach, splicedEach, splicedEach, spliced_normalize n,
      splicedEach_normalizeEach ns]

end

/-- **Taking paragraphs apart undoes wrapping**: what is left is the same before and after. -/
theorem spliceParagraphs_wrapInlineRuns (ns : List Node) :
    spliceParagraphs (splicedEach (wrapInlineRuns ns)) = spliceParagraphs (splicedEach ns) := by
  rw [wrapInlineRuns, wrapRuns, spliceParagraphs_wrapFrom, splicedEach, List.nil_append,
    splicedEach_normalizeEach]

/-! ## Other nodes and references -/

/-- A node by itself, without its children; a paragraph is passed over. -/
def alone? : Node → Option Node
  | paragraph _ => none
  | n => some (n.withChildren [])

/-- A node by itself is not changed by wrapping. -/
theorem alone?_normalize (n : Node) : n.normalize.alone? = n.alone? := by
  cases n <;> simp [normalize, alone?, withChildren]

end Node

namespace References

open Node

theorem substitutionOf?_normalize (n : Node) : substitutionOf? n.normalize = substitutionOf? n := by
  cases n with
  | textComponent name attributes cs =>
    rw [Node.normalize]
    by_cases h : name = "SubstitutionReference"
    · subst h
      simp only [substitutionOf?, plainTexts_normalizeEach]
    · simp [substitutionOf?, h]
  | _ => rfl

theorem refOf?_normalize (n : Node) : refOf? n.normalize = refOf? n := by
  cases n with
  | textComponent name attributes cs =>
    rw [Node.normalize]
    by_cases h : name = "Ref"
    · subst h
      simp only [refOf?, plainTexts_normalizeEach]
    · simp [refOf?, h]
  | _ => rfl

/-- Wrapping keeps the references of a page, in their order. -/
theorem collect_root_wrapInlineRuns (ns : List Node) :
    collect (root (wrapInlineRuns ns)) = collect (root ns) := by
  simp only [collect, preorder, List.filterMap_cons, substitutionOf?, refOf?,
    filterMap_preorders_wrapInlineRuns (fun _ => rfl) substitutionOf?_normalize,
    filterMap_preorders_wrapInlineRuns (fun _ => rfl) refOf?_normalize]

end References

namespace Node

/-- **Wrapping only adds paragraphs.**  Each of them holds a maximal run of phrasing siblings; with
the paragraphs among blocks taken apart the trees are the same; the nodes that are no paragraphs
stay in their order with their fields; and so do the text, whatever joins it, and the references. -/
theorem wrapInlineRuns_adds_paragraphs (ns : List Node) :
    Grouped Wrapped none ns (wrapInlineRuns ns) ∧
    spliceParagraphs (splicedEach (wrapInlineRuns ns)) = spliceParagraphs (splicedEach ns) ∧
    (preorders (wrapInlineRuns ns)).filterMap alone? = (preorders ns).filterMap alone? ∧
    (∀ joiner, plainTexts joiner (wrapInlineRuns ns) = plainTexts joiner ns) ∧
    References.collect (root (wrapInlineRuns ns)) = References.collect (root ns) :=
  ⟨grouped_wrapInlineRuns ns, spliceParagraphs_wrapInlineRuns ns,
    filterMap_preorders_wrapInlineRuns (fun _ => rfl) alone?_normalize ns,
    fun joiner => plainTexts_wrapInlineRuns joiner ns, References.collect_root_wrapInlineRuns ns⟩

end Node

end MdxPages
