import MdxPages.Proofs.Tree.Reference

/-!
# Proofs/Tree/Normal — what wrapping runs of phrasing changes, and what it keeps

Wrapping leaves no phrasing under a flow container (`isNormal_root_wrapInlineRuns`), and leaves a
tree as it is where there is none (`wrapInlineRuns_eq_self_iff`).  All it adds is paragraphs around
what is there: the text stays (`plainTexts_wrapInlineRuns`), and what holds of each node by its own
fields, and of paragraphs, holds of the wrapped nodes (`OfFields.wrapInlineRuns`).
-/

namespace MdxPages.Node

variable {joiner : String} {n : Node} {run ns xs ys xs' ys' : List Node}

/-! ## Text

The text of siblings is joined with something between them, and a paragraph joins its children the
same way only without it. -/

theorem plainTexts_cons (joiner : String) (n : Node) (h : ns ≠ []) :
    plainTexts joiner (n :: ns) = plainText joiner n ++ joiner ++ plainTexts joiner ns := by
  cases ns with
  | nil => exact absurd rfl h
  | cons m ns => rw [plainTexts]; simp

/-- The texts of siblings are joined, and so are those of two parts. -/
theorem plainTexts_append (joiner : String) (hx : xs ≠ []) (hy : ys ≠ []) :
    plainTexts joiner (xs ++ ys) = plainTexts joiner xs ++ joiner ++ plainTexts joiner ys := by
  induction xs with
  | nil => exact absurd rfl hx
  | cons x xs ih =>
    cases xs with
    | nil => rw [List.singleton_append, plainTexts_cons joiner x hy, plainTexts]
    | cons x' xs =>
      rw [List.cons_append, plainTexts_cons joiner x (by simp), ih (by simp),
        plainTexts_cons joiner x (by simp)]
      simp only [String.append_assoc]

/-- Without a joiner, the text of siblings is that of one after the other. -/
theorem plainTexts_empty_append (xs ys : List Node) :
    plainTexts "" (xs ++ ys) = plainTexts "" xs ++ plainTexts "" ys := by
  cases xs with
  | nil => simp [plainTexts]
  | cons x xs =>
    cases ys with
    | nil => simp [plainTexts]
    | cons y ys => rw [plainTexts_append "" (by simp) (by simp), String.append_empty]

/-- The text of siblings depends on the texts of their parts, and on which of these are empty. -/
theorem plainTexts_append_congr (hx : plainTexts joiner xs = plainTexts joiner xs')
    (hxnil : xs = [] ↔ xs' = []) (hy : plainTexts joiner ys = plainTexts joiner ys')
    (hynil : ys = [] ↔ ys' = []) :
    plainTexts joiner (xs ++ ys) = plainTexts joiner (xs' ++ ys') := by
  by_cases hxs : xs = []
  · simpa [hxs, hxnil.1 hxs] using hy
  · by_cases hys : ys = []
    · simpa [hys, hynil.1 hys] using hx
    · rw [plainTexts_append joiner hxs hys,
        plainTexts_append joiner (mt hxnil.2 hxs) (mt hynil.2 hys), hx, hy]

theorem plainTexts_cons_congr {m : Node} (hn : plainText joiner n = plainText joiner m)
    (hy : plainTexts joiner ys = plainTexts joiner ys') (hynil : ys = [] ↔ ys' = []) :
    plainTexts joiner (n :: ys) = plainTexts joiner (m :: ys') := by
  by_cases hys : ys = []
  · rw [hys, hynil.1 hys]
    exact hn
  · rw [plainTexts_cons joiner n hys, plainTexts_cons joiner m (mt hynil.2 hys), hn, hy]

/-- A paragraph around a run has the text of the run. -/
theorem plainTexts_wrapRun (joiner : String) (run : List Node) :
    plainTexts joiner (wrapRun run) = plainTexts joiner run := by
  cases run <;> rfl

/-- Wrapping siblings changes no text. -/
theorem plainTexts_wrapFrom (joiner : String) (run ns : List Node) :
    plainTexts joiner (wrapFrom run ns) = plainTexts joiner (run ++ ns) := by
  induction ns generalizing run with
  | nil => rw [wrapFrom, plainTexts_wrapRun, List.append_nil]
  | cons n ns ih =>
    rw [wrapFrom]
    split
    · rw [ih, List.append_assoc, List.singleton_append]
    · have hnil : wrapRun run = [] ↔ run = [] := by
        cases run <;> simp [wrapRun]
      refine plainTexts_append_congr (plainTexts_wrapRun joiner run) hnil ?_ (by simp)
      exact plainTexts_cons_congr rfl (ih []) (by simp [wrapFrom_eq_nil_iff])

mutual

/-- Nor does wrapping at every depth. -/
theorem plainText_normalize (joiner : String) (n : Node) :
    plainText joiner n.normalize = plainText joiner n := by
  match n with
  | root cs | blockquote cs | list _ _ cs | listItem cs | footnoteDefinition _ _ cs
  | flowComponent _ _ cs =>
    simp only [normalize, plainText, wrapRuns, plainTexts_wrapFrom, List.nil_append]
    exact plainTexts_normalizeEach joiner cs
  | heading _ cs | paragraph cs | emphasis cs | strong cs | link _ cs | textComponent _ _ cs =>
    simp only [normalize, plainText]
    exact plainTexts_normalizeEach joiner cs
  | code .. | thematicBreak | html _ | yaml _ | imports _ | text _ | inlineCode _ | lineBreak
  | footnoteReference .. => rfl

theorem plainTexts_normalizeEach (joiner : String) (ns : List Node) :
    plainTexts joiner (normalizeEach ns) = plainTexts joiner ns := by
  match ns with
  | [] => rfl
  | n :: ns =>
    exact plainTexts_cons_congr (plainText_normalize joiner n) (plainTexts_normalizeEach joiner ns)
      (by cases ns <;> simp [normalizeEach])

end

/-- **Wrapping runs of phrasing changes no text**, whatever stands between siblings. -/
theorem plainTexts_wrapInlineRuns (joiner : String) (ns : List Node) :
    plainTexts joiner (wrapInlineRuns ns) = plainTexts joiner ns := by
  rw [wrapInlineRuns, wrapRuns, plainTexts_wrapFrom, List.nil_append, plainTexts_normalizeEach]

/-! ## Normal forms

Only some containers wrap their children.  In the others phrasing may stay. -/

/-- What is left after wrapping is a paragraph, or was there before and is no phrasing. -/
theorem mem_of_mem_wrapFrom (h : n ∈ wrapFrom run ns) :
    (∃ r, n = paragraph r ∧ r ⊆ run ++ ns) ∨ (n ∈ ns ∧ n.isPhrasing = false) := by
  have hrun {run' : List Node} (hn : n ∈ wrapRun run') : n = paragraph run' := by
    cases run' with
    | nil => cases hn
    | cons m run' => exact List.mem_singleton.1 hn
  induction ns generalizing run with
  | nil => exact .inl ⟨run, hrun h, by simp⟩
  | cons m ns ih =>
    rw [wrapFrom] at h
    split at h
    · obtain ⟨r, rfl, hr⟩ | ⟨hn, hphrasing⟩ := ih h
      · exact .inl ⟨r, rfl, by simpa using hr⟩
      · exact .inr ⟨List.mem_cons_of_mem _ hn, hphrasing⟩
    · next hm =>
      obtain h | h := List.mem_append.1 h
      · exact .inl ⟨run, hrun h, List.subset_append_left _ _⟩
      · obtain rfl | h := List.mem_cons.1 h
        · exact .inr ⟨List.mem_cons_self, Bool.eq_false_iff.2 hm⟩
        · obtain ⟨r, rfl, hr⟩ | ⟨hn, hphrasing⟩ := ih h
          · refine .inl ⟨r, rfl, fun x hx => ?_⟩
            exact List.mem_append_right _ (List.mem_cons_of_mem _ (hr hx))
          · exact .inr ⟨List.mem_cons_of_mem _ hn, hphrasing⟩

/-- No phrasing is left among siblings. -/
theorem isPhrasing_of_mem_wrapFrom (h : n ∈ wrapFrom run ns) : n.isPhrasing = false := by
  obtain ⟨r, rfl, -⟩ | ⟨-, h⟩ := mem_of_mem_wrapFrom h
  · rfl
  · exact h

theorem allNormal_iff : AllNormal ns ↔ ∀ n ∈ ns, n.IsNormal := by
  induction ns with
  | nil => simp [AllNormal]
  | cons n ns ih => rw [AllNormal, ih, List.forall_mem_cons]

/-- Siblings in normal form stay so when their runs are wrapped. -/
theorem allNormal_wrapFrom (hrun : AllNormal run) (hns : AllNormal ns) :
    AllNormal (wrapFrom run ns) := by
  rw [allNormal_iff] at *
  intro n hn
  obtain ⟨r, rfl, hr⟩ | ⟨hn, -⟩ := mem_of_mem_wrapFrom hn
  · rw [IsNormal, allNormal_iff]
    intro m hm
    exact (List.mem_append.1 (hr hm)).elim (hrun m) (hns m)
  · exact hns n hn

mutual

/-- A tree is in normal form once its runs are wrapped, by induction on the tree. -/
theorem isNormal_normalize (n : Node) : n.normalize.IsNormal := by
  match n with
  | root cs | blockquote cs | list _ _ cs | listItem cs | footnoteDefinition _ _ cs
  | flowComponent _ _ cs =>
    rw [normalize, IsNormal]
    exact ⟨fun _ hc => isPhrasing_of_mem_wrapFrom hc,
      allNormal_wrapFrom trivial (allNormal_normalizeEach cs)⟩
  | heading _ cs | paragraph cs | emphasis cs | strong cs | link _ cs | textComponent _ _ cs =>
    rw [normalize, IsNormal]
    exact allNormal_normalizeEach cs
  | code .. | thematicBreak | html _ | yaml _ | imports _ | text _ | inlineCode _ | lineBreak
  | footnoteReference .. => trivial

theorem allNormal_normalizeEach (ns : List Node) : AllNormal (normalizeEach ns) := by
  match ns with
  | [] => trivial
  | n :: ns => exact ⟨isNormal_normalize n, allNormal_normalizeEach ns⟩

end

/-- **Wrapping leaves no phrasing under a flow container**, nor among the siblings themselves. -/
theorem isNormal_root_wrapInlineRuns (ns : List Node) : (root (wrapInlineRuns ns)).IsNormal :=
  ⟨fun _ hc => isPhrasing_of_mem_wrapFrom hc,
    allNormal_wrapFrom trivial (allNormal_normalizeEach ns)⟩

/-! ## Fixed points -/

/-- Siblings without phrasing stay as they are. -/
theorem wrapFrom_eq_self (hns : ∀ n ∈ ns, n.isPhrasing = false) : wrapFrom [] ns = ns := by
  induction ns with
  | nil => rfl
  | cons n ns ih =>
    rw [List.forall_mem_cons] at hns
    rw [wrapFrom, hns.1, ih hns.2]
    rfl

mutual

/-- A tree in normal form stays as it is. -/
theorem normalize_eq_self (n : Node) (h : n.IsNormal) : n.normalize = n := by
  match n with
  | root cs | blockquote cs | list _ _ cs | listItem cs | footnoteDefinition _ _ cs
  | flowComponent _ _ cs =>
    rw [IsNormal] at h
    rw [normalize, wrapRuns, normalizeEach_eq_self cs h.2, wrapFrom_eq_self h.1]
  | heading _ cs | paragraph cs | emphasis cs | strong cs | link _ cs | textComponent _ _ cs =>
    rw [normalize, normalizeEach_eq_self cs h]
  | code .. | thematicBreak | html _ | yaml _ | imports _ | text _ | inlineCode _ | lineBreak
  | footnoteReference .. => rfl

theorem normalizeEach_eq_self (ns : List Node) (h : AllNormal ns) : normalizeEach ns = ns := by
  match ns with
  | [] => rfl
  | n :: ns => rw [normalizeEach, normalize_eq_self n h.1, normalizeEach_eq_self ns h.2]

end

/-- **Wrapping changes nothing exactly where nothing is left to wrap.** -/
theorem wrapInlineRuns_eq_self_iff : wrapInlineRuns ns = ns ↔ (root ns).IsNormal := by
  constructor
  · intro h
    exact h ▸ isNormal_root_wrapInlineRuns ns
  · rintro ⟨hphrasing, hnormal⟩
    rw [wrapInlineRuns, wrapRuns, normalizeEach_eq_self ns hnormal, wrapFrom_eq_self hphrasing]

/-! ## Own fields

What depends on the fields of a node does not see how its children are grouped. -/

/-- Every one of the nodes of sibling trees has a property. -/
theorem forall_preorders_iff {p : Node → Prop} :
    (∀ m ∈ preorders ns, p m) ↔ ∀ n ∈ ns, ∀ m ∈ n.preorder, p m := by
  induction ns with
  | nil => simp [preorders]
  | cons n ns ih => rw [preorders, List.forall_mem_append, ih, List.forall_mem_cons]

/-- A property of all nodes is one of the node and of all below. -/
theorem forall_preorder_iff {p : Node → Prop} :
    (∀ m ∈ n.preorder, p m) ↔ p n ∧ ∀ m ∈ preorders n.children, p m := by
  rw [preorder_eq, List.forall_mem_cons]

/-- A property of a node that its own fields decide, and that paragraphs have. -/
structure OfFields (p : Node → Prop) : Prop where
  withChildren : ∀ n cs, p n → p (n.withChildren cs)
  ofParagraph : ∀ cs, p (paragraph cs)

namespace OfFields

variable {p : Node → Prop}

theorem wrapFrom (hp : OfFields p) (hrun : ∀ m ∈ preorders run, p m)
    (hns : ∀ m ∈ preorders ns, p m) : ∀ m ∈ preorders (wrapFrom run ns), p m := by
  rw [forall_preorders_iff] at *
  intro n hn
  obtain ⟨r, rfl, hr⟩ | ⟨hn, -⟩ := mem_of_mem_wrapFrom hn
  · rw [forall_preorder_iff]
    refine ⟨hp.ofParagraph r, forall_preorders_iff.2 fun m hm => ?_⟩
    exact (List.mem_append.1 (hr hm)).elim (hrun m) (hns m)
  · exact hns n hn

mutual

/-- A property that the fields of a node decide is kept at every depth. -/
theorem normalize (hp : OfFields p) (n : Node) (h : ∀ m ∈ n.preorder, p m) :
    ∀ m ∈ n.normalize.preorder, p m := by
  rw [forall_preorder_iff] at *
  match n with
  | root cs | blockquote cs | list _ _ cs | listItem cs | footnoteDefinition _ _ cs
  | flowComponent _ _ cs =>
    exact ⟨hp.withChildren _ _ h.1,
      hp.wrapFrom (by simp [preorders]) (normalizeEach hp cs h.2)⟩
  | heading _ cs | paragraph cs | emphasis cs | strong cs | link _ cs | textComponent _ _ cs =>
    exact ⟨hp.withChildren _ _ h.1, normalizeEach hp cs h.2⟩
  | code .. | thematicBreak | html _ | yaml _ | imports _ | text _ | inlineCode _ | lineBreak
  | footnoteReference .. => exact h

theorem normalizeEach (hp : OfFields p) (ns : List Node) (h : ∀ m ∈ preorders ns, p m) :
    ∀ m ∈ preorders (normalizeEach ns), p m := by
  match ns with
  | [] => exact h
  | n :: ns =>
    rw [preorders, List.forall_mem_append] at h
    rw [Node.normalizeEach, preorders, List.forall_mem_append]
    exact ⟨normalize hp n h.1, normalizeEach hp ns h.2⟩

end

/-- **Wrapping keeps the fields of all nodes**, and adds nothing but paragraphs. -/
theorem wrapInlineRuns (hp : OfFields p) (h : ∀ m ∈ preorders ns, p m) :
    ∀ m ∈ preorders (wrapInlineRuns ns), p m :=
  hp.wrapFrom (by simp [preorders]) (hp.normalizeEach ns h)

end OfFields

end MdxPages.Node
