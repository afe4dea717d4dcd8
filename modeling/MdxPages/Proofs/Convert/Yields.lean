import MdxPages.Proofs.Convert.Meets
import MdxPages.Proofs.Tree.Normal

/-!
# Proofs/Convert/Yields — what holds of every node of a converted tree

A property of nodes holds throughout converted trees if each handler gives it to the node that it
makes of parts which have it (`convertAll_yields`).  It may lean on what the fields of all source
nodes are like (`Source.Every`), and on what the emitter keeps.
-/

namespace MdxPages

namespace Source

mutual

/-- The fields of every node of a tree have a property. -/
def Every (good : Entries Value → Prop) : Source → Prop
  | .stray _ => True
  | .node fields children term argument =>
    good fields ∧ EveryIn good children ∧ EveryIn good term ∧ EveryIn good argument

/-- The same of sibling trees. -/
def EveryIn (good : Entries Value → Prop) : List Source → Prop
  | [] => True
  | s :: ss => Every good s ∧ EveryIn good ss

end

mutual

/-- What holds of any fields holds throughout a source. -/
theorem every_of_forall {good : Entries Value → Prop} (h : ∀ fields, good fields) (s : Source) :
    s.Every good := by
  match s with
  | .stray _ => trivial
  | .node fields children term argument =>
    exact ⟨h fields, everyIn_of_forall h children, everyIn_of_forall h term,
      everyIn_of_forall h argument⟩

theorem everyIn_of_forall {good : Entries Value → Prop} (h : ∀ fields, good fields)
    (ss : List Source) : EveryIn good ss := by
  match ss with
  | [] => trivial
  | s :: ss => exact ⟨every_of_forall h s, everyIn_of_forall h ss⟩

end

end Source

/-- A property holds of all nodes of sibling trees. -/
def Node.Throughout (p : Node → Prop) (ns : List Node) : Prop :=
  ∀ n ∈ preorders ns, p n

namespace Node

variable {p : Node → Prop} {n : Node} {ns ms : List Node}

theorem throughout_nil (p : Node → Prop) : Throughout p [] := by
  simp [Throughout, preorders]

/-- A property holds throughout siblings if it holds throughout both parts. -/
theorem throughout_append : Throughout p (ns ++ ms) ↔ Throughout p ns ∧ Throughout p ms := by
  rw [Throughout, preorders_append, List.forall_mem_append]
  rfl

/-- It holds throughout a tree if it holds of its node and throughout its children. -/
theorem throughout_singleton : Throughout p [n] ↔ p n ∧ Throughout p n.children := by
  rw [Throughout, forall_preorders_iff, List.forall_mem_singleton, forall_preorder_iff]
  rfl

theorem throughout_cons : Throughout p (n :: ns) ↔ Throughout p [n] ∧ Throughout p ns := by
  rw [← List.singleton_append, throughout_append]

/-- A node without children has a property throughout if it has it. -/
theorem throughout_leaf (h : p n) (hn : n.children = []) : Throughout p [n] :=
  throughout_singleton.2 ⟨h, hn ▸ throughout_nil p⟩

end Node

namespace Convert

open MdxPages.Source Node

variable {σ : Type} {run : Run σ} {I : σ → Prop} {p : Node → Prop} {good : Entries Value → Prop}

/-! ## Conversions

`Yields` is a promise about a conversion, so it is kept by the steps that conversions are made of.
-/

/-- All nodes of what a conversion gives have a property, if it gives anything. -/
def Yields (I : σ → Prop) (p : Node → Prop) (x : Conversion σ (List Node)) : Prop :=
  Meets I (fun _ => True) (Throughout p) x

/-- The same of what a node converts to. -/
def YieldsOnce (I : σ → Prop) (p : Node → Prop) (x : Conversion σ Converted) : Prop :=
  Meets I (fun _ => True) (fun c => Throughout p c.toList) x

theorem promised_trivial {α : Type} (e : Except Fault α) :
    Promised (fun _ => True) (fun _ => True) e := by
  cases e <;> trivial

/-- Nodes put into one more node, which has the property. -/
theorem Yields.one {x : Conversion σ (List Node)} (h : Yields I p x) {g : List Node → Node}
    (hg : ∀ ns, p (g ns) ∧ (g ns).children = ns) :
    YieldsOnce I p (x >>= fun ns => pure (.one (g ns))) :=
  h.map fun ns hns => throughout_singleton.2 ⟨(hg ns).1, (hg ns).2.symm ▸ hns⟩

/-- Nodes left in their own place keep the property. -/
theorem Yields.several {x : Conversion σ (List Node)} (h : Yields I p x) :
    YieldsOnce I p (x >>= fun ns => pure (.several ns)) :=
  h.map fun _ hns => hns

/-- A leaf that has the property. -/
theorem YieldsOnce.leaf {n : Node} (h : p n) (hn : n.children = []) :
    YieldsOnce I p (pure (.one n) : Conversion σ Converted) :=
  .pure (throughout_leaf h hn)

theorem YieldsOnce.nothing : YieldsOnce I p (pure .nothing : Conversion σ Converted) :=
  .pure (throughout_nil p)

/-- A node without children, with a record about it. -/
theorem YieldsOnce.recorded {n : Node} (level : Level) (message : String) (h : p n)
    (hn : n.children = []) :
    YieldsOnce I p (record level message >>= fun _ => pure (.one n) : Conversion σ Converted) :=
  (Meets.record (P := fun _ => True) level message trivial).bind fun _ _ => leaf h hn

/-- What a sibling converts to, and then what those after it convert to. -/
theorem YieldsOnce.cons {x : Conversion σ Converted} {y : Conversion σ (List Node)}
    {g : List Node → List Node} (hx : YieldsOnce I p x) (hy : Yields I p y)
    (hg : ∀ ns, Throughout p ns → Throughout p (g ns)) :
    Yields I p (x >>= fun first => y >>= fun ns => pure (first.toList ++ g ns)) :=
  hx.bind fun _ hfirst => hy.map fun _ hns => throughout_append.2 ⟨hfirst, hg _ hns⟩

/-- One node, or none, as a list. -/
theorem YieldsOnce.toList {x : Conversion σ Converted} (h : YieldsOnce I p x) :
    Yields I p (x >>= fun only => pure only.toList) :=
  h.map fun _ honly => honly

/-! ## The pass

The handlers are given by what they are to do, as a structure.  The induction over the source is
made once, for all properties. -/

/-- The conversions of the lists of a node give nodes with a property. -/
structure Parts.Yield (I : σ → Prop) (p : Node → Prop) (parts : Parts σ) : Prop where
  children : Yields I p parts.children
  term : Yields I p parts.term
  argument : Yields I p parts.argument
  title : Yields I p parts.title
  body : Yields I p parts.body
  lines : Yields I p parts.lines
  content : ∀ place, Yields I p (parts.content place)

/-- The steps of a pass over nodes with good fields give nodes with a property. -/
structure Run.Gives (run : Run σ) (I : σ → Prop) (p : Node → Prop) (good : Entries Value → Prop) :
    Prop where
  lineBreak : p .lineBreak
  handle : ∀ (place : Place) (depth : Int) (fields : Entries Value) (children : List Source)
    (parts : Parts σ), good fields → parts.Yield I p →
      YieldsOnce I p (handle run place depth (kindOf fields) fields children parts)

mutual

/-- What holds of every node that a handler makes holds throughout what a node converts to. -/
theorem convertNode_yields (h : run.Gives I p good) (place : Place) (depth : Int) (s : Source)
    (hs : s.Every good) : YieldsOnce I p (convertNode run place depth s) := by
  match s with
  | .stray v =>
    rw [convertNode]
    exact (Meets.record (P := fun _ => True) _ _ trivial).bind fun _ _ => YieldsOnce.nothing
  | .node fields children term argument =>
    obtain ⟨hfields, hchildren, hterm, hargument⟩ := hs
    rw [convertNode]
    exact h.handle place depth fields children _ hfields
      { children := convertAll_yields h place depth children hchildren
        term := convertAll_yields h place depth term hterm
        argument := convertAll_yields h place depth argument hargument
        title := convertTitle_yields h place depth children hchildren
        body := convertBody_yields h place (depth + 1) false children hchildren
        lines := convertLines_yields h place depth children hchildren
        content := fun place => convertContent_yields h place children hchildren }

/-- **What holds of every node that a handler makes holds throughout what siblings convert to.** -/
theorem convertAll_yields (h : run.Gives I p good) (place : Place) (depth : Int)
    (ss : List Source) (hss : EveryIn good ss) : Yields I p (convertAll run place depth ss) := by
  match ss with
  | [] =>
    rw [convertAll]
    exact .pure (throughout_nil p)
  | s :: ss =>
    rw [convertAll]
    exact (convertNode_yields h place depth s hss.1).cons
      (convertAll_yields h place depth ss hss.2) fun _ hns => hns

/-- …of what the first title among siblings converts to. -/
theorem convertTitle_yields (h : run.Gives I p good) (place : Place) (depth : Int)
    (ss : List Source) (hss : EveryIn good ss) : Yields I p (convertTitle run place depth ss) := by
  match ss with
  | [] =>
    rw [convertTitle]
    exact .pure (throughout_nil p)
  | .stray v :: ss =>
    rw [convertTitle]
    exact convertTitle_yields h place depth ss hss.2
  | .node fields children term argument :: ss =>
    rw [convertTitle]
    exact Meets.ite (fun _ => convertAll_yields h place depth children hss.1.2.1)
      fun _ => convertTitle_yields h place depth ss hss.2

/-- …of what siblings convert to without it. -/
theorem convertBody_yields (h : run.Gives I p good) (place : Place) (depth : Int) (passed : Bool)
    (ss : List Source) (hss : EveryIn good ss) :
    Yields I p (convertBody run place depth passed ss) := by
  match ss with
  | [] =>
    rw [convertBody]
    exact .pure (throughout_nil p)
  | s :: ss =>
    rw [convertBody]
    refine Meets.ite (fun _ => convertBody_yields h place depth true ss hss.2) fun _ => ?_
    exact (convertNode_yields h place depth s hss.1).cons
      (convertBody_yields h place depth passed ss hss.2) fun _ hns => hns

/-- …of what lines convert to, the breaks between them included. -/
theorem convertLines_yields (h : run.Gives I p good) (place : Place) (depth : Int)
    (ss : List Source) (hss : EveryIn good ss) : Yields I p (convertLines run place depth ss) := by
  match ss with
  | [] =>
    rw [convertLines]
    exact .pure (throughout_nil p)
  | [s] =>
    rw [convertLines]
    exact (convertNode_yields h place depth s hss.1).toList
  | s :: s' :: ss =>
    rw [convertLines]
    · exact (convertNode_yields h place depth s hss.1).cons
        (convertLines_yields h place depth (s' :: ss) hss.2)
        fun _ hns => throughout_cons.2 ⟨throughout_leaf h.lineBreak rfl, hns⟩
    · simp

/-- …of what the content of a fragment converts to. -/
theorem convertContent_yields (h : run.Gives I p good) (place : Place) (ss : List Source)
    (hss : EveryIn good ss) : Yields I p (convertContent run place ss) := by
  match ss with
  | [] =>
    rw [convertContent]
    exact .pure (throughout_nil p)
  | [.stray v] =>
    rw [convertContent]
    exact (convertNode_yields h place 1 (.stray v) hss.1).toList
  | [.node fields children term argument] =>
    rw [convertContent]
    exact Meets.ite (fun _ => convertAll_yields h place 1 children hss.1.2.1)
      fun _ => (convertNode_yields h place 1 (.node fields children term argument) hss.1).toList
  | s :: s' :: ss =>
    rw [convertContent]
    · exact (convertNode_yields h place 1 s hss.1).cons
        (convertAll_yields h place 1 (s' :: ss) hss.2) fun _ hns => hns
    all_goals simp

end

end Convert

end MdxPages
