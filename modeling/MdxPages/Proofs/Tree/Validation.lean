import MdxPages.Proofs.Results
import MdxPages.Tree.Validation

/-!
# Proofs/Tree/Validation — strict and collecting validators find the same problems

A visit reports the problems of a tree in one order, whatever the validator is and whatever it has
visited before (`visit_reports`).  So **a strict validator stops with the first of the problems that
another one keeps** (`strict_iff_collected`): those of a node itself, which are settled by the node
and the kinds of its children, and then those of its children in document order.
-/

namespace MdxPages

namespace Node

/-! ## The problems of a node itself -/

/-- Children by themselves, with nothing below them. -/
def cutBelow (cs : List Node) : List Node :=
  cs.map (withChildren [])

theorem flowProblems_cutBelow (type : String) (cs : List Node) :
    flowProblems type (cutBelow cs) = flowProblems type cs := by
  rw [flowProblems, flowProblems, cutBelow, List.filterMap_map]
  exact congrArg (List.filterMap · cs) (funext fun c => by cases c <;> rfl)

/-- Whether a child is phrasing is seen without its children. -/
theorem phrasingProblems_cutBelow (type : String) (cs : List Node) :
    phrasingProblems type (cutBelow cs) = phrasingProblems type cs := by
  rw [phrasingProblems, phrasingProblems, cutBelow, List.filterMap_map]
  exact congrArg (List.filterMap · cs) (funext fun c => by cases c <;> rfl)

theorem itemProblems_cutBelow (cs : List Node) : itemProblems (cutBelow cs) = itemProblems cs := by
  rw [itemProblems, itemProblems, cutBelow, List.filterMap_map]
  exact congrArg (List.filterMap · cs) (funext fun c => by cases c <;> rfl)

/-- **What is below the children of a node makes no difference to its own problems.** -/
theorem ownProblems_cutBelow (n : Node) :
    (n.withChildren (cutBelow n.children)).ownProblems = n.ownProblems := by
  cases n with
  | root | blockquote | listItem | footnoteDefinition | flowComponent =>
    simp only [withChildren, children, ownProblems, type, phrasingProblems_cutBelow]
  | paragraph | emphasis | strong | heading | link | textComponent =>
    simp only [withChildren, children, ownProblems, type, flowProblems_cutBelow]
  | list => simp only [withChildren, children, ownProblems, itemProblems_cutBelow]
  | code | thematicBreak | html | yaml | imports | text | inlineCode | lineBreak
  | footnoteReference => rfl

/-- The problems of a node are its own, and then those of its children in order. -/
theorem problems_eq_append (n : Node) :
    n.problems = n.ownProblems ++ n.children.flatMap problems := by
  have hchildren (cs : List Node) : cs.flatMap problems = problemsEach cs := by
    induction cs with
    | nil => rfl
    | cons c cs ih => rw [List.flatMap_cons, ih, problemsEach]
  rw [hchildren]
  cases n <;> simp [problems, children, problemsEach]

/-- The first of some problems, or else the first of the others. -/
theorem stopAt_append (ps qs : List String) :
    stopAt (ps ++ qs) = stopAt ps >>= fun _ => stopAt qs := by
  cases ps <;> rfl

mutual

/-- The first problem of a tree is where a walk through it stops. -/
theorem check_eq (n : Node) : n.check = stopAt n.problems := by
  match n with
  | root cs | blockquote cs | listItem cs | paragraph cs | emphasis cs | strong cs | heading _ cs
  | list _ _ cs | footnoteDefinition _ _ cs | flowComponent _ _ cs | link _ cs
  | textComponent _ _ cs => rw [check, problems, stopAt_append, checkEach_eq cs]
  | code .. | thematicBreak | html _ | yaml _ | imports _ | text _ | inlineCode _ | lineBreak
  | footnoteReference .. => rfl

/-- …for siblings. -/
theorem checkEach_eq (ns : List Node) : checkEach ns = stopAt (problemsEach ns) := by
  match ns with
  | [] => rfl
  | n :: ns => rw [checkEach, problemsEach, stopAt_append, check_eq n, checkEach_eq ns]

end

end Node

namespace Validator

variable {x y : Visit Unit} {ps qs : List String}

/-- What a validator does with problems that come one after the other: a strict one stops with the
first, the other kind keeps all. -/
def meet (problems : List String) (v : Validator) : Except String Unit × Validator :=
  match v.strict, problems with
  | true, problem :: _ => (.error problem, v)
  | true, [] => (.ok (), v)
  | false, problems => (.ok (), { v with problems := v.problems ++ problems })

/-- A visit reports some problems in order, whatever the validator has kept before. -/
def Reports (x : Visit Unit) (problems : List String) : Prop :=
  ∀ v, x v = v.meet problems

namespace Reports

theorem nothing : Reports (pure ()) [] := by
  rintro ⟨_ | _, kept⟩
  · exact congrArg (fun kept => (Except.ok (), Validator.mk false kept)) (List.append_nil kept).symm
  · rfl

/-- Reporting one problem. -/
theorem report (problem : String) : Reports (report problem) [problem] := by
  rintro ⟨_ | _, kept⟩ <;> rfl

/-- **One visit after the other reports the problems of both**, and stops if the first one does. -/
theorem bind (hx : Reports x ps) (hy : Reports y qs) : Reports (x >>= fun _ => y) (ps ++ qs) := by
  intro v
  rw [bind_apply, hx v]
  obtain ⟨_ | _, kept⟩ := v
  · simp [meet, hy ⟨false, kept ++ ps⟩]
  · cases ps with
    | nil => exact hy ⟨true, kept⟩
    | cons problem ps => rfl

theorem reportIf (condition : Bool) (problem : String) :
    Reports (reportIf condition problem) (Node.problemIf condition problem) := by
  cases condition with
  | false => exact nothing
  | true => exact report problem

/-- A visit to each of some elements reports their problems in order. -/
theorem forM {α : Type} {f : α → Visit Unit} {problem? : α → Option String}
    (h : ∀ a, Reports (f a) (problem? a).toList) (as : List α) :
    Reports (as.forM f) (as.filterMap problem?) := by
  induction as with
  | nil => exact nothing
  | cons a as ih =>
    rw [List.forM, List.filterMap_cons]
    have hboth := (h a).bind ih
    cases hproblem : problem? a with
    | none => rwa [hproblem] at hboth
    | some problem => rwa [hproblem] at hboth

end Reports

/-! ## Visits

The two validators run the same visits, and differ in what they do with a problem. -/

theorem reports_checkPhrasing (type : String) (cs : List Node) :
    Reports (checkPhrasing type cs) (Node.flowProblems type cs) := by
  refine .forM (fun c => ?_) cs
  cases c with
  | text | emphasis | strong | inlineCode | link | lineBreak | footnoteReference | textComponent
  | flowComponent | html => exact .nothing
  | root | heading | paragraph | code | blockquote | list | listItem | thematicBreak | yaml
  | imports | footnoteDefinition => exact .report _

/-- A flow container reports its phrasing children. -/
theorem reports_checkFlow (type : String) (cs : List Node) :
    Reports (checkFlow type cs) (Node.phrasingProblems type cs) := by
  refine .forM (fun c => ?_) cs
  cases c.isPhrasing with
  | false => exact .nothing
  | true => exact .report _

/-- A list reports children that are no items. -/
theorem reports_checkItems (cs : List Node) :
    Reports (checkItems cs) (Node.itemProblems cs) := by
  refine .forM (fun c => ?_) cs
  cases c with
  | listItem => exact .nothing
  | _ => exact .report _

theorem reports_checkImports (value : String) :
    Reports (checkImports value) (Node.importProblems value) := by
  refine .forM (fun line => ?_) (Text.lines value)
  cases Text.isBlank line with
  | true => exact .nothing
  | false =>
    cases Text.startsWith line "import " with
    | true => exact .nothing
    | false => exact .report _

mutual

/-- **A visit reports the problems of the tree**, those of a node before those of its children. -/
theorem visit_reports (n : Node) : Reports (visit n) n.problems := by
  match n with
  | .root cs | .blockquote cs | .listItem cs =>
    rw [visit, Node.problems]
    exact (reports_checkFlow _ cs).bind (visitEach_reports cs)
  | .paragraph cs | .emphasis cs | .strong cs =>
    rw [visit, Node.problems]
    exact (reports_checkPhrasing _ cs).bind (visitEach_reports cs)
  | .heading _ cs | .link _ cs | .textComponent _ _ cs =>
    rw [visit, Node.problems, Node.ownProblems, List.append_assoc]
    exact (Reports.reportIf _ _).bind ((reports_checkPhrasing _ cs).bind (visitEach_reports cs))
  | .footnoteDefinition _ _ cs | .flowComponent _ _ cs =>
    rw [visit, Node.problems, Node.ownProblems, List.append_assoc]
    exact (Reports.reportIf _ _).bind ((reports_checkFlow _ cs).bind (visitEach_reports cs))
  | .list _ _ cs =>
    rw [visit, Node.problems, Node.ownProblems, List.append_assoc]
    exact (reports_checkItems cs).bind ((Reports.reportIf _ _).bind (visitEach_reports cs))
  | .imports value => exact reports_checkImports value
  | .footnoteReference _ _ => exact .reportIf _ _
  | .code .. | .thematicBreak | .html _ | .yaml _ | .text _ | .inlineCode _ | .lineBreak =>
    exact .nothing

/-- …for siblings. -/
theorem visitEach_reports (ns : List Node) : Reports (visitEach ns) (Node.problemsEach ns) := by
  match ns with
  | [] => exact .nothing
  | n :: ns =>
    rw [visitEach, Node.problemsEach]
    exact (visit_reports n).bind (visitEach_reports ns)

end

/-! ## Strict and collecting validators -/

/-- A validator that is not strict keeps all problems of a tree. -/
theorem collected_eq (tree : Node) : collected tree = tree.problems := by
  rw [collected, visit_reports tree]
  rfl

/-- A strict one stops at the first of them. -/
theorem fst_meet_strict (problems kept : List String) :
    (meet problems ⟨true, kept⟩).1 = Node.stopAt problems := by
  cases problems <;> rfl

theorem stopAt_eq_error_iff {problems : List String} {problem : String} :
    Node.stopAt problems = .error problem ↔ problems.head? = some problem := by
  cases problems <;> simp [Node.stopAt]

/-- **A strict validator stops exactly if another one keeps a problem, and with the first of those
that it keeps.**  Which problems are found in a tree does not depend on what has been visited
before: they are those of the root itself, for which it makes no difference what is below its
children, and then those of each child in order. -/
theorem strict_iff_collected (tree : Node) (kept : List String) :
    visit tree ⟨false, kept⟩ = (.ok (), ⟨false, kept ++ collected tree⟩) ∧
    ((∃ problem, (visit tree ⟨true, kept⟩).1 = .error problem) ↔ collected tree ≠ []) ∧
    (∀ problem, (visit tree ⟨true, kept⟩).1 = .error problem ↔
      (collected tree).head? = some problem) ∧
    collected tree = tree.ownProblems ++ tree.children.flatMap collected ∧
    (tree.withChildren (Node.cutBelow tree.children)).ownProblems = tree.ownProblems ∧
    collected tree = tree.problems ∧ (visit tree ⟨true, kept⟩).1 = tree.check := by
  have hcollected : collected = Node.problems := funext collected_eq
  have hstrict : (visit tree ⟨true, kept⟩).1 = Node.stopAt tree.problems := by
    rw [visit_reports tree, fst_meet_strict]
  rw [hcollected]
  refine ⟨visit_reports tree _, ?_, fun problem => ?_, tree.problems_eq_append,
    tree.ownProblems_cutBelow, rfl, ?_⟩
  · simp only [hstrict, stopAt_eq_error_iff, ← Option.isSome_iff_exists]
    simp
  · rw [hstrict, stopAt_eq_error_iff]
  · rw [hstrict, tree.check_eq]

end Validator

end MdxPages
