import MdxPages.Proofs.Tree.Typed

/-!
# Proofs/Tree/NormalForm — wrapping runs of phrasing computes a normal form

Validation reports phrasing content under a node exactly if the node is a flow container other than
a list, of which it only checks that its children are items (`exists_reportsPhrasing_iff`).  A
wrapped tree has no such node, and wrapping it again changes nothing
(`normalForm_wrapInlineRuns`).
-/

namespace MdxPages.Node

variable {n tree : Node} {ns : List Node} {type problem : String}

/-! ## Reports of phrasing content

A problem is a text.  Which problems are reports of phrasing is told by the words behind the type of
the node. -/

/-- A problem that reports phrasing content under a node: so it goes on after its first word, which
is the type of the node. -/
def ReportsPhrasing (problem : String) : Prop :=
  " contains unwrapped phrasing content: ".toList <+: problem.toList.dropWhile (· != ' ')

/-- The type of a node is one word. -/
theorem dropWhile_type_append (n : Node) (rest : String) :
    (n.type ++ rest).toList.dropWhile (· != ' ') = rest.toList.dropWhile (· != ' ') := by
  have hword : n.type.toList.all (· != ' ') = true := by
    cases n <;> simp only [type] <;> decide
  rw [String.toList_append, List.dropWhile_append_of_pos (List.all_eq_true.1 hword)]

/-- A report names the node and then the child. -/
theorem reportsPhrasing_type (n c : Node) :
    ReportsPhrasing (n.type ++ " contains unwrapped phrasing content: " ++ c.type) := by
  rw [ReportsPhrasing, String.append_assoc, dropWhile_type_append]
  simp

theorem not_reportsPhrasing_problemIf {condition : Bool} {message : String}
    (hmessage : ¬ ReportsPhrasing message) (h : problem ∈ problemIf condition message) :
    ¬ ReportsPhrasing problem := by
  unfold problemIf at h
  split at h
  · rwa [List.mem_singleton.1 h]
  · cases h

/-- Blocks in phrasing are reported in other words. -/
theorem not_reportsPhrasing_flowProblems (h : problem ∈ flowProblems n.type ns) :
    ¬ ReportsPhrasing problem := by
  obtain ⟨c, -, hc⟩ := List.mem_filterMap.1 h
  split at hc
  · cases hc
  · cases hc
  · split at hc
    · cases hc
    · obtain rfl := Option.some.inj hc
      rw [ReportsPhrasing, String.append_assoc, dropWhile_type_append]
      simp

theorem not_reportsPhrasing_itemProblems (h : problem ∈ itemProblems ns) :
    ¬ ReportsPhrasing problem := by
  obtain ⟨c, -, hc⟩ := List.mem_filterMap.1 h
  split at hc
  · cases hc
  · obtain rfl := Option.some.inj hc
    simp [ReportsPhrasing]

theorem not_reportsPhrasing_importProblems {value : String} (h : problem ∈ importProblems value) :
    ¬ ReportsPhrasing problem := by
  obtain ⟨line, -, hline⟩ := List.mem_filterMap.1 h
  split at hline
  · cases hline
  · obtain rfl := Option.some.inj hline
    simp [ReportsPhrasing]

/-- Each child that is phrasing is reported. -/
theorem mem_phrasingProblems_iff : problem ∈ phrasingProblems type ns ↔
    ∃ c ∈ ns, c.isPhrasing = true ∧
      problem = type ++ " contains unwrapped phrasing content: " ++ c.type := by
  rw [phrasingProblems, List.mem_filterMap]
  refine exists_congr fun c => and_congr_right fun _ => ?_
  cases c.isPhrasing <;> simp [eq_comm]

/-- The nodes under which phrasing content is reported. -/
def ReportsUnder (n : Node) : Prop :=
  n.isFlowContainer = true ∧ n.type ≠ "list" ∧ ∃ c ∈ n.children, c.isPhrasing = true

theorem exists_reportsPhrasing_phrasingProblems (cs : List Node) :
    (∃ problem ∈ phrasingProblems n.type cs, ReportsPhrasing problem) ↔
      ∃ c ∈ cs, c.isPhrasing = true := by
  constructor
  · rintro ⟨problem, hproblem, -⟩
    obtain ⟨c, hc, hphrasing, -⟩ := mem_phrasingProblems_iff.1 hproblem
    exact ⟨c, hc, hphrasing⟩
  · rintro ⟨c, hc, hphrasing⟩
    exact ⟨_, mem_phrasingProblems_iff.2 ⟨c, hc, hphrasing, rfl⟩, reportsPhrasing_type n c⟩

theorem exists_reportsPhrasing_append {ps qs : List String}
    (h : ∀ problem ∈ ps, ¬ ReportsPhrasing problem) :
    (∃ problem ∈ ps ++ qs, ReportsPhrasing problem) ↔ ∃ problem ∈ qs, ReportsPhrasing problem := by
  refine exists_congr fun problem => ?_
  rw [List.mem_append, or_and_right]
  exact or_iff_right fun hp => h problem hp.1 hp.2

/-- What a node itself is reported for. -/
theorem exists_reportsPhrasing_ownProblems (n : Node) :
    (∃ problem ∈ n.ownProblems, ReportsPhrasing problem) ↔ n.ReportsUnder := by
  have hnone {ps : List String} (h : ∀ problem ∈ ps, ¬ ReportsPhrasing problem) :
      (∃ problem ∈ ps, ReportsPhrasing problem) ↔ False :=
    iff_false_intro fun ⟨problem, hproblem, hreports⟩ => h problem hproblem hreports
  cases n with
  | root cs | blockquote cs | listItem cs =>
    rw [ownProblems, exists_reportsPhrasing_phrasingProblems]
    simp [ReportsUnder, isFlowContainer, type, children]
  | footnoteDefinition identifier label cs | flowComponent name attributes cs =>
    rw [ownProblems, exists_reportsPhrasing_append, exists_reportsPhrasing_phrasingProblems]
    · simp [ReportsUnder, isFlowContainer, type, children]
    · exact fun _ => not_reportsPhrasing_problemIf (by simp [ReportsPhrasing])
  | paragraph cs | emphasis cs | strong cs =>
    rw [ownProblems, hnone fun _ => not_reportsPhrasing_flowProblems]
    simp [ReportsUnder, isFlowContainer]
  | heading depth cs | link url cs | textComponent name attributes cs =>
    rw [ownProblems, exists_reportsPhrasing_append, hnone fun _ => not_reportsPhrasing_flowProblems]
    · simp [ReportsUnder, isFlowContainer]
    · exact fun _ => not_reportsPhrasing_problemIf (by simp [ReportsPhrasing])
  | list ordered start cs =>
    rw [ownProblems, exists_reportsPhrasing_append fun _ => not_reportsPhrasing_itemProblems,
      hnone fun _ => not_reportsPhrasing_problemIf (by simp [ReportsPhrasing])]
    simp [ReportsUnder, type]
  | imports value =>
    rw [ownProblems, hnone fun _ => not_reportsPhrasing_importProblems]
    simp [ReportsUnder, isFlowContainer]
  | footnoteReference identifier label =>
    rw [ownProblems, hnone fun _ => not_reportsPhrasing_problemIf (by simp [ReportsPhrasing])]
    simp [ReportsUnder, isFlowContainer]
  | code | thematicBreak | html | yaml | text | inlineCode | lineBreak =>
    simp [ownProblems, ReportsUnder, isFlowContainer]

/-- **Phrasing content is reported exactly where it stands under a flow container** other than a
list. -/
theorem exists_reportsPhrasing_iff :
    (∃ problem ∈ tree.problems, ReportsPhrasing problem) ↔ ∃ m ∈ tree.preorder, m.ReportsUnder := by
  simp only [problems_eq, List.mem_flatMap, ← exists_reportsPhrasing_ownProblems]
  constructor
  · rintro ⟨problem, ⟨m, hm, hproblem⟩, hreports⟩
    exact ⟨m, hm, problem, hproblem, hreports⟩
  · rintro ⟨m, hm, problem, hproblem, hreports⟩
    exact ⟨problem, ⟨m, hm, hproblem⟩, hreports⟩

/-! ## The normal form -/

/-- **Wrapping computes a normal form**: neither among the siblings nor under a flow container
below them is phrasing content left, validation reports none, and wrapping again changes nothing. -/
theorem normalForm_wrapInlineRuns (ns : List Node) :
    (∀ c ∈ wrapInlineRuns ns, c.isPhrasing = false) ∧
    (∀ m ∈ preorders (wrapInlineRuns ns), m.isFlowContainer = true →
      ∀ c ∈ m.children, c.isPhrasing = false) ∧
    (∀ problem ∈ (root (wrapInlineRuns ns)).problems, ¬ ReportsPhrasing problem) ∧
    wrapInlineRuns (wrapInlineRuns ns) = wrapInlineRuns ns := by
  have hnormal := isNormal_root_wrapInlineRuns ns
  have hcontainers := (isNormal_iff _).1 hnormal
  refine ⟨hnormal.1, allNormal_iff_preorders _ |>.1 hnormal.2, ?_,
    wrapInlineRuns_eq_self_iff.2 hnormal⟩
  intro problem hproblem hreports
  obtain ⟨m, hm, hcontainer, -, c, hc, hphrasing⟩ :=
    exists_reportsPhrasing_iff.1 ⟨problem, hproblem, hreports⟩
  rw [hcontainers m hm hcontainer c hc] at hphrasing
  cases hphrasing

end MdxPages.Node
