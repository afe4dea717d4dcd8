import MdxPages.Proofs.Convert.Account

/-!
# Proofs/Convert/Shared — one stack of fragments for all conversions

The pass hands the place where it stands down to every conversion.  The same pass can be run on a
place that is part of the state: one stack of enclosing fragments that all conversions share, on
which a fragment is put when it is entered and from which it is taken when it is left, whether its
conversion succeeds or not.

**Main statement** (`convertNode_shares`): both do the same.  So a conversion on the shared stack
leaves the stack and the path as it has found them, and if cycles are cut, no fragment is ever on
the stack twice.
-/

namespace MdxPages.Convert

open MdxPages.Source

variable {σ α β : Type}

/-! ## The shared stack

The pass is written once more, on a session that knows the place.  The handlers are the same
functions, applied to a run that carries the place along. -/

/-- What the emitter keeps, the place where a conversion stands, and every stack of enclosing
fragments that there has been since the start, in order. -/
structure Standing (σ : Type) where
  kept : σ
  place : Place
  reached : List (List String)

/-- Stand at another place. -/
def Standing.moveTo (place : Place) (st : Standing σ) : Standing σ :=
  { st with place, reached := st.reached ++ [place.chain] }

/-- A session without the shared place. -/
def Session.alone (s : Session (Standing σ)) : Session σ :=
  ⟨s.file, s.emitter.kept, s.log⟩

/-- A session with a shared place. -/
def Session.sharing (place : Place) (reached : List (List String)) (s : Session σ) :
    Session (Standing σ) :=
  ⟨s.file, ⟨s.emitter, place, reached⟩, s.log⟩

/-- The emitter of a run neither sees nor moves the shared place. -/
def Run.shared (run : Run σ) : Run (Standing σ) where
  options := run.options
  emitter := run.emitter.map fun emitter path tree st =>
    ((emitter path tree st.kept).1, { st with kept := (emitter path tree st.kept).2 })

@[simp] theorem Run.shared_options (run : Run σ) : run.shared.options = run.options := rfl

namespace Shared

/-- Convert inside a fragment: its path is put on the stack before, and taken from it after the
conversion, also if that stops with a fault.  The path of the enclosing file stays its own. -/
def within (fragment : String) (x : Conversion (Standing σ) α) : Conversion (Standing σ) α :=
  fun s =>
    let path := s.emitter.place.path
    let (result, s') := x { s with
      emitter := s.emitter.moveTo ⟨fragment, s.emitter.place.chain ++ [fragment]⟩ }
    (result, { s' with emitter := s'.emitter.moveTo ⟨path, s'.emitter.place.chain.dropLast⟩ })

mutual

/-- Convert a node at a section depth, at the shared place. -/
def convertNode (run : Run σ) (depth : Int) : Source → Conversion (Standing σ) Converted
  | .stray v => do
    record .debug ("Skipping non-object node: " ++ v.inspect)
    return .nothing
  | .node fields children term argument => do
    handle run.shared (← get).emitter.place depth (kindOf fields) fields children
      { children := convertAll run depth children
        term := convertAll run depth term
        argument := convertAll run depth argument
        title := convertTitle run depth children
        body := convertBody run (depth + 1) false children
        lines := convertLines run depth children
        content := fun inside => within inside.path (convertContent run children) }

/-- Convert siblings. -/
def convertAll (run : Run σ) (depth : Int) :
    List Source → Conversion (Standing σ) (List Node)
  | [] => return []
  | s :: ss => do
    let first ← convertNode run depth s
    return first.toList ++ (← convertAll run depth ss)

/-- Convert what is in the first title among siblings. -/
def convertTitle (run : Run σ) (depth : Int) :
    List Source → Conversion (Standing σ) (List Node)
  | [] => return []
  | .stray _ :: ss => convertTitle run depth ss
  | .node fields children _ _ :: ss =>
    if isTitle fields then convertAll run depth children else convertTitle run depth ss

/-- Convert siblings without the first title among them. -/
def convertBody (run : Run σ) (depth : Int) (passed : Bool) :
    List Source → Conversion (Standing σ) (List Node)
  | [] => return []
  | s :: ss =>
    if !passed && isTitle s.fields then convertBody run depth true ss
    else do
      let first ← convertNode run depth s
      return first.toList ++ (← convertBody run depth passed ss)

/-- Convert siblings as lines. -/
def convertLines (run : Run σ) (depth : Int) :
    List Source → Conversion (Standing σ) (List Node)
  | [] => return []
  | [s] => do
    let line ← convertNode run depth s
    return line.toList
  | s :: ss => do
    let line ← convertNode run depth s
    return line.toList ++ Node.lineBreak :: (← convertLines run depth ss)

/-- Convert the content of a fragment. -/
def convertContent (run : Run σ) : List Source → Conversion (Standing σ) (List Node)
  | [] => return []
  | [.stray v] => do
    let only ← convertNode run 1 (.stray v)
    return only.toList
  | [.node fields children term argument] =>
    if isExtract fields then convertAll run 1 children
    else do
      let only ← convertNode run 1 (.node fields children term argument)
      return only.toList
  | s :: ss => do
    let first ← convertNode run 1 s
    return first.toList ++ (← convertAll run 1 ss)

end

end Shared

/-! ## Doing the same

Two conversions are compared from related sessions: same file, same emitter, same log, and the
shared one stands at the place.  They must answer alike and end in related sessions. -/

/-- A conversion at the shared place does what another does at that place: it ends there, and if
cycles are cut, no stack on the way holds a fragment twice. -/
def Shares (o : ConversionOptions) (place : Place) (x : Conversion (Standing σ) α)
    (y : Conversion σ α) : Prop :=
  ∀ s : Session (Standing σ), s.emitter.place = place → ∃ reached,
    x s = ((y s.alone).1, (y s.alone).2.sharing place (s.emitter.reached ++ reached)) ∧
      (o.detectIncludeCycles.isGiven → place.chain.Nodup → ∀ chain ∈ reached, chain.Nodup)

namespace Shares

variable {o : ConversionOptions} {place : Place}

/-- A step that leaves the emitter alone. -/
theorem step {x : Conversion (Standing σ) α} {y : Conversion σ α}
    (h : ∀ s, x s = ((y s.alone).1, (y s.alone).2.sharing s.emitter.place s.emitter.reached)) :
    Shares o place x y := by
  rintro s rfl
  exact ⟨[], by rw [List.append_nil, h s], fun _ _ chain hchain => absurd hchain List.not_mem_nil⟩

/-- A value moves neither place. -/
theorem pure (v : α) :
    Shares o place (Pure.pure v : Conversion (Standing σ) α) (Pure.pure v) :=
  step fun _ => rfl

theorem lift (e : Except Fault α) :
    Shares o place (liftM e : Conversion (Standing σ) α) (liftM e) :=
  step fun _ => rfl

theorem record (level : Level) (message : String) :
    Shares o place (Convert.record level message : Conversion (Standing σ) Unit)
      (Convert.record level message) :=
  step fun _ => rfl

theorem addMetadata (fields : Entries Value) :
    Shares o place (Convert.addMetadata fields : Conversion (Standing σ) Unit)
      (Convert.addMetadata fields) :=
  step fun _ => rfl

theorem registerImport (name path : String) :
    Shares o place (Convert.registerImport name path : Conversion (Standing σ) Unit)
      (Convert.registerImport name path) := by
  refine step fun s => ?_
  rw [registerImport_apply, registerImport_apply]
  rfl

/-- An emission reaches the same emitter, which does not see the place. -/
theorem emit (run : Run σ) (path : String) (tree : Node) :
    Shares o place (Convert.emit run.shared path tree) (Convert.emit run path tree) := by
  refine step fun s => ?_
  simp only [Convert.emit, Run.shared]
  cases run.emitter with
  | none => rfl
  | some emitter =>
    simp only [Option.map_some, bind_apply, get_apply, Session.alone]
    rcases emitter path tree s.emitter.kept with ⟨emitted, kept⟩
    simp only [bind_apply, set_apply]
    cases emitted.refusal <;> rfl

/-- What two sequences share they share step by step. -/
theorem bind {x : Conversion (Standing σ) α} {y : Conversion σ α}
    {f : α → Conversion (Standing σ) β} {g : α → Conversion σ β} (hx : Shares o place x y)
    (hf : ∀ v, Shares o place (f v) (g v)) : Shares o place (x >>= f) (y >>= g) := by
  intro s hs
  obtain ⟨reached, hxs, hnodup⟩ := hx s hs
  rw [bind_apply, bind_apply, hxs]
  generalize y s.alone = p at hxs
  obtain ⟨_ | v, s'⟩ := p
  · exact ⟨reached, rfl, hnodup⟩
  · obtain ⟨more, hfs, hmore⟩ := hf v (s'.sharing place (s.emitter.reached ++ reached)) rfl
    refine ⟨reached ++ more, ?_, fun hcut hplace chain hchain => ?_⟩
    · rw [← List.append_assoc]
      exact hfs
    · exact (List.mem_append.1 hchain).elim (hnodup hcut hplace chain) (hmore hcut hplace chain)

theorem ite {c : Prop} [Decidable c] {x x' : Conversion (Standing σ) α} {y y' : Conversion σ α}
    (h : c → Shares o place x y) (h' : ¬ c → Shares o place x' y') :
    Shares o place (if c then x else x') (if c then y else y') := by
  by_cases hc : c
  · simpa only [if_pos hc] using h hc
  · simpa only [if_neg hc] using h' hc

/-- What is put on the stack is taken from it again. -/
theorem within_apply {fragment : String} {x : Conversion (Standing σ) α} {y : Conversion σ α}
    (hx : Shares o (place.enter fragment) x y) {s : Session (Standing σ)}
    (hs : s.emitter.place = place) : ∃ reached,
      Shared.within fragment x s =
        ((y s.alone).1, (y s.alone).2.sharing place
          (s.emitter.reached ++ (place.enter fragment).chain :: reached ++ [place.chain])) ∧
        (o.detectIncludeCycles.isGiven → (place.enter fragment).chain.Nodup →
          ∀ chain ∈ reached, chain.Nodup) := by
  subst hs
  obtain ⟨reached, hxs, hnodup⟩ :=
    hx { s with emitter := s.emitter.moveTo (s.emitter.place.enter fragment) } rfl
  refine ⟨reached, ?_, hnodup⟩
  simp only [Place.enter, Session.alone, Standing.moveTo] at hxs
  simp only [Shared.within, Standing.moveTo, hxs, Session.sharing, Session.alone,
    List.dropLast_concat, Place.enter, List.append_assoc, List.cons_append, List.nil_append]

/-- **A fragment leaves the stack as it was**, and is put on it only if it is not yet there. -/
theorem fragmentTree {fragment : String} {x : Conversion (Standing σ) (List Node)}
    {content : Place → Conversion σ (List Node)} (hfresh : closesCycle o place fragment = false)
    (hx : Shares o (place.enter fragment) x (content (place.enter fragment))) :
    Shares o place
      (Convert.fragmentTree place fragment fun inside => Shared.within inside.path x)
      (Convert.fragmentTree place fragment content) := by
  intro s hs
  obtain ⟨reached, hwithin, hnodup⟩ := within_apply hx (s := { s with file := {} }) hs
  refine ⟨(place.enter fragment).chain :: reached ++ [place.chain], ?_,
    fun hcut hplace chain hchain => ?_⟩
  · simp only [Convert.fragmentTree, inNewFile, bind_apply, get_apply, pure_apply]
    rw [Place.enter] at hwithin ⊢
    rw [hwithin]
    simp only [Session.alone]
    generalize content ⟨fragment, place.chain ++ [fragment]⟩ ⟨{}, s.emitter.kept, s.log⟩ = p
    obtain ⟨_ | _, _⟩ := p <;> simp [Session.sharing]
  · have hnew : (place.enter fragment).chain.Nodup := by
      have hmem : fragment ∉ place.chain := by
        simpa [closesCycle, hcut] using hfresh
      have hne : ∀ a ∈ place.chain, a ≠ fragment := fun a ha heq => hmem (heq ▸ ha)
      simpa [Place.enter, List.nodup_append, hplace] using hne
    simp only [List.cons_append, List.mem_cons, List.mem_append, List.not_mem_nil,
      or_false] at hchain
    obtain rfl | hchain | rfl := hchain
    · exact hnew
    · exact hnodup hcut hnew chain hchain
    · exact hplace

end Shares

/-! ## Handlers -/

/-- The conversions of the lists of a node at the shared place do what those at a place do, and so
does its content as a fragment. -/
structure Parts.Share (o : ConversionOptions) (place : Place) (P : Parts (Standing σ))
    (Q : Parts σ) : Prop where
  children : Shares o place P.children Q.children
  term : Shares o place P.term Q.term
  argument : Shares o place P.argument Q.argument
  title : Shares o place P.title Q.title
  body : Shares o place P.body Q.body
  lines : Shares o place P.lines Q.lines
  fragment (fragment : String) : closesCycle o place fragment = false →
    Shares o place (fragmentTree place fragment P.content) (fragmentTree place fragment Q.content)

variable {place : Place} {depth : Int} {fields : Entries Value} {children : List Source}
  {P : Parts (Standing σ)} {Q : Parts σ}

namespace Parts.Share

variable {o : ConversionOptions}

/-- The children of a node put into new nodes, or in its own place. -/
theorem kept (h : P.Share o place Q) (g : List Node → Converted) :
    Shares o place (P.children >>= fun ns => pure (g ns)) (Q.children >>= fun ns => pure (g ns)) :=
  h.children.bind fun ns => .pure (g ns)

end Parts.Share

/-- **An include does the same on the shared stack**, where its fragment is pushed and popped. -/
theorem handleInclusion_shares (run : Run σ) (h : P.Share run.options place Q) :
    Shares run.options place (handleInclusion run.shared place fields P)
      (handleInclusion run place fields Q) := by
  simp only [handleInclusion, Run.shared_options]
  refine Shares.ite (fun _ => (Shares.record _ _).bind fun _ => .pure _) fun _ =>
    Shares.ite (fun _ => ?_) fun hcycle => ?_
  · exact (Shares.lift _).bind fun _ => (Shares.record _ _).bind fun _ => .pure _
  · exact (h.fragment _ (Bool.eq_false_iff.2 hcycle)).bind fun tree =>
      (Shares.emit run _ tree).bind fun _ => (Shares.lift _).bind fun _ =>
        (Shares.registerImport _ _).bind fun _ => .pure _

theorem handleFigure_shares (run : Run σ) :
    Shares run.options place (handleFigure run.shared place fields children)
      (handleFigure run place fields children) := by
  simp only [handleFigure, Run.shared_options]
  refine Shares.ite (fun _ => (Shares.record _ _).bind fun _ => .pure _) fun _ => ?_
  exact (Shares.lift _).bind fun _ => (Shares.registerImport _ _).bind fun _ =>
    (Shares.lift _).bind fun _ => .pure _

/-- The other directives only convert their lists. -/
theorem handleDirective_shares (run : Run σ) (h : P.Share run.options place Q) :
    Shares run.options place (handleDirective run.shared fields P)
      (handleDirective run fields Q) := by
  have hlead : Shares run.options place (directiveLead fields P) (directiveLead fields Q) := by
    simp only [directiveLead]
    cases hasCondition fields with
    | true => exact .pure _
    | false =>
      cases Value.field "argument" fields with
      | arr items => exact h.argument
      | _ => exact .pure _
  exact hlead.bind fun lead => h.children.bind fun ns => .pure _

/-- A section converts its title and then its body at the same place. -/
theorem sectionNodes_shares (run : Run σ) (h : P.Share run.options place Q) :
    Shares run.options place (sectionNodes run.shared depth children P)
      (sectionNodes run depth children Q) := by
  simp only [sectionNodes, Run.shared_options]
  refine Shares.ite (fun _ => ?_) fun _ => ?_
  · exact h.title.bind fun ns => (Shares.pure _).bind fun _ => h.body.bind fun _ => .pure _
  · exact (Shares.pure _).bind fun _ => h.body.bind fun _ => .pure _

/-- Every handler does the same at the shared place, if the conversions of its lists do. -/
theorem handle_shares (run : Run σ) (h : P.Share run.options place Q) (kind : Kind) :
    Shares run.options place (handle run.shared place depth kind fields children P)
      (handle run place depth kind fields children Q) := by
  cases kind with
  | text | line | literal | code | footnoteReference | transition | target | inlineTarget
  | dropped => exact .pure _
  | paragraph | emphasis | titleReference | strong | bulletList | listItem | fieldList | field
  | superscript | subscript | definitionList | substitution | cardGroup | ctaBanner | tabs | only
  | methodSelector | blockQuote | admonition | tablePart | transparent | role => exact h.kept _
  | enumeratedList => exact (Shares.lift _).bind fun _ => h.kept _
  | heading => exact (Shares.lift _).bind fun _ => h.kept _
  | list =>
    simp only [handle]
    split
    · exact (Shares.lift _).bind fun _ => h.kept _
    · exact h.kept _
  | reference =>
    simp only [handle]
    split <;> exact h.kept _
  | refRole =>
    simp only [handle]
    split <;> exact h.kept _
  | footnote =>
    simp only [handle, handleFootnote]
    split <;> exact h.kept _
  | sectionBlock =>
    exact (sectionNodes_shares run h).bind fun _ => .pure _
  | definitionListItem => exact h.term.bind fun _ => h.kept _
  | lineBlock => exact h.lines.bind fun _ => .pure _
  | unknown =>
    simp only [handle, handleUnknown]
    split
    · exact (Shares.record _ _).bind fun _ => .pure _
    · exact h.kept _
  | directive =>
    simp only [handle]
    cases directiveOf fields with
    | metadata => exact (Shares.addMetadata _).bind fun _ => .pure _
    | figure => exact handleFigure_shares run
    | literalInclude => exact .pure _
    | inclusion => exact handleInclusion_shares run h
    | generic => exact handleDirective_shares run h

/-! ## The pass -/

/-- The converted nodes of a sibling, and of those after it. -/
theorem cons_shares {o : ConversionOptions} {x : Conversion (Standing σ) Converted}
    {y : Conversion σ Converted} {xs : Conversion (Standing σ) (List Node)}
    {ys : Conversion σ (List Node)} (hx : Shares o place x y) (hxs : Shares o place xs ys) :
    Shares o place (x >>= fun first => xs >>= fun ns => pure (first.toList ++ ns))
      (y >>= fun first => ys >>= fun ns => pure (first.toList ++ ns)) :=
  hx.bind fun _ => hxs.bind fun _ => .pure _

mutual

/-- **The pass on a shared stack does what the pass does.** -/
theorem convertNode_shares (run : Run σ) (place : Place) (depth : Int) (s : Source) :
    Shares run.options place (Shared.convertNode run depth s) (convertNode run place depth s) := by
  match s with
  | .stray v =>
    rw [Shared.convertNode, convertNode]
    exact (Shares.record _ _).bind fun _ => .pure _
  | .node fields children term argument =>
    rw [convertNode]
    rintro s rfl
    rw [Shared.convertNode, bind_apply, get_apply]
    exact handle_shares run
      { children := convertAll_shares run _ depth children
        term := convertAll_shares run _ depth term
        argument := convertAll_shares run _ depth argument
        title := convertTitle_shares run _ depth children
        body := convertBody_shares run _ (depth + 1) false children
        lines := convertLines_shares run _ depth children
        fragment := fun _ hfresh =>
          .fragmentTree hfresh (convertContent_shares run _ children) } (kindOf fields) s rfl

/-- …for siblings. -/
theorem convertAll_shares (run : Run σ) (place : Place) (depth : Int) (ss : List Source) :
    Shares run.options place (Shared.convertAll run depth ss) (convertAll run place depth ss) := by
  match ss with
  | [] =>
    rw [Shared.convertAll, convertAll]
    exact .pure _
  | s :: ss =>
    rw [Shared.convertAll, convertAll]
    exact cons_shares (convertNode_shares run place depth s) (convertAll_shares run place depth ss)

/-- …for the first title among siblings. -/
theorem convertTitle_shares (run : Run σ) (place : Place) (depth : Int) (ss : List Source) :
    Shares run.options place (Shared.convertTitle run depth ss)
      (convertTitle run place depth ss) := by
  match ss with
  | [] =>
    rw [Shared.convertTitle, convertTitle]
    exact .pure _
  | .stray _ :: ss =>
    rw [Shared.convertTitle, convertTitle]
    exact convertTitle_shares run place depth ss
  | .node fields children _ _ :: ss =>
    rw [Shared.convertTitle, convertTitle]
    exact Shares.ite (fun _ => convertAll_shares run place depth children)
      fun _ => convertTitle_shares run place depth ss

/-- …for siblings without it. -/
theorem convertBody_shares (run : Run σ) (place : Place) (depth : Int) (passed : Bool)
    (ss : List Source) :
    Shares run.options place (Shared.convertBody run depth passed ss)
      (convertBody run place depth passed ss) := by
  match ss with
  | [] =>
    rw [Shared.convertBody, convertBody]
    exact .pure _
  | s :: ss =>
    rw [Shared.convertBody, convertBody]
    exact Shares.ite (fun _ => convertBody_shares run place depth true ss)
      fun _ => cons_shares (convertNode_shares run place depth s)
        (convertBody_shares run place depth passed ss)

/-- …for siblings as lines. -/
theorem convertLines_shares (run : Run σ) (place : Place) (depth : Int) (ss : List Source) :
    Shares run.options place (Shared.convertLines run depth ss)
      (convertLines run place depth ss) := by
  match ss with
  | [] =>
    rw [Shared.convertLines, convertLines]
    exact .pure _
  | [s] =>
    rw [Shared.convertLines, convertLines]
    exact (convertNode_shares run place depth s).bind fun _ => .pure _
  | s :: t :: ss =>
    rw [Shared.convertLines, convertLines]
    · exact (convertNode_shares run place depth s).bind fun _ =>
        (convertLines_shares run place depth (t :: ss)).bind fun _ => .pure _
    all_goals simp

/-- …for the content of a fragment. -/
theorem convertContent_shares (run : Run σ) (place : Place) (ss : List Source) :
    Shares run.options place (Shared.convertContent run ss) (convertContent run place ss) := by
  match ss with
  | [] =>
    rw [Shared.convertContent, convertContent]
    exact .pure _
  | [.stray v] =>
    rw [Shared.convertContent, convertContent]
    exact (convertNode_shares run place 1 (.stray v)).bind fun _ => .pure _
  | [.node fields children term argument] =>
    rw [Shared.convertContent, convertContent]
    exact Shares.ite (fun _ => convertAll_shares run place 1 children)
      fun _ => (convertNode_shares run place 1 (.node fields children term argument)).bind
        fun _ => .pure _
  | s :: t :: ss =>
    rw [Shared.convertContent, convertContent]
    · exact cons_shares (convertNode_shares run place 1 s) (convertAll_shares run place 1 (t :: ss))
    all_goals simp

end

end MdxPages.Convert
