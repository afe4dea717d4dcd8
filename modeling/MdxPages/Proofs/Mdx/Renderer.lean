import MdxPages.Mdx.Renderer
import MdxPages.Proofs.Mdx.Document
import MdxPages.Proofs.Mdx.Render
import MdxPages.Proofs.Results

/-!
# Proofs/Mdx/Renderer — what a renderer puts out depends on the tree alone

A visit does what the text of the node says: it puts the text out, or stops with the fault there is
instead of it (`visit_agrees`).  Whatever the renderer held before, the output before it stays, and
so does what the next list item is led by.  So **a used renderer gives the document that a new one
gives, and the text of no block depends on its siblings** (`renderToString_usedFor`).
-/

namespace MdxPages.Mdx.Renderer

variable {α β γ δ : Type}

/-! ## Visits beside results

A visit changes the renderer, and a result is a value.  `Agreed` compares what they end with, and
leaves open what becomes of the renderer. -/

/-- What a visit ended with is what a result says: the same fault, or a value and a renderer that
are related to the value of the result. -/
inductive Agreed (post : α → β → Renderer → Prop) :
    Except Fault α × Renderer → Except Fault β → Prop
  | ok {a : α} {b : β} {r : Renderer} (h : post a b r) : Agreed post (.ok a, r) (.ok b)
  | error (fault : Fault) (r : Renderer) : Agreed post (.error fault, r) (.error fault)

/-- From a renderer, a visit does what a result says. -/
def Agrees (x : Visit α) (r : Renderer) (e : Except Fault β) (post : α → β → Renderer → Prop) :
    Prop :=
  Agreed post (x r) e

namespace Agrees

variable {x : Visit α} {r : Renderer} {e : Except Fault β} {P : α → β → Renderer → Prop}

/-- A value agrees with a value. -/
theorem pure {a : α} {b : β} (h : P a b r) : Agrees (Pure.pure a) r (.ok b) P :=
  .ok h

/-- A result without a renderer is taken over. -/
theorem lift (e : Except Fault α) (r : Renderer) :
    Agrees (liftM e) r e fun a b r' => a = b ∧ e = .ok b ∧ r' = r := by
  cases e with
  | ok a => exact .ok ⟨rfl, rfl, rfl⟩
  | error fault => exact .error fault r

/-- What two sequences agree on they agree on step by step. -/
theorem bind {f : α → Visit γ} {g : β → Except Fault δ} {Q : γ → δ → Renderer → Prop}
    (hx : Agrees x r e P) (hf : ∀ a b r', P a b r' → Agrees (f a) r' (g b) Q) :
    Agrees (x >>= f) r (e >>= g) Q := by
  unfold Agrees at hx ⊢
  rw [bind_apply]
  generalize x r = ended at hx
  cases hx with
  | ok h => exact hf _ _ _ h
  | error fault r' => exact .error fault r'

/-- A step without a counterpart in the result. -/
theorem step {f : α → Visit γ} {e : Except Fault δ} {Q : γ → δ → Renderer → Prop} {a : α}
    {r' : Renderer} (hx : x r = (.ok a, r')) (hf : Agrees (f a) r' e Q) :
    Agrees (x >>= f) r e Q := by
  unfold Agrees
  rw [bind_apply, hx]
  exact hf

end Agrees

/-! ## Renderers between visits

What a renderer holds between two visits is its output and the marker for the next item. -/

/-- A renderer that has put out some texts, and leads the next list item by a marker. -/
def Holds (o : RenderOptions) (marker : String) (output : List String) (r : Renderer) : Prop :=
  r.output = output ∧ r.lead o = marker

variable {o : RenderOptions} {marker : String} {output : List String} {r : Renderer}

/-- A bullet is not empty. -/
theorem bullet_ne_empty (o : RenderOptions) : o.bullet.text ≠ "" := by
  cases o.bullet <;> decide

/-- Nor is what a renderer leads the next item by. -/
theorem lead_ne_empty (o : RenderOptions) (r : Renderer) : r.lead o ≠ "" := by
  unfold lead
  cases h : r.marker.filter (!·.isEmpty) with
  | none => exact bullet_ne_empty o
  | some marker => simpa using (Option.filter_eq_some_iff.1 h).2

theorem lead_some (h : marker ≠ "") : lead o { r with marker := some marker } = marker := by
  have hfilter : (some marker).filter (!·.isEmpty) = some marker :=
    Option.filter_eq_some_iff.2 ⟨rfl, by simpa using h⟩
  rw [lead, hfilter]
  rfl

/-- What a visit puts out is set apart. -/
theorem Holds.capture {x : Visit Unit} {e : Except Fault β} {texts : β → List String}
    (h : Holds o marker output r)
    (hx : ∀ r', Holds o marker [] r' → Agrees x r' e fun _ b => Holds o marker (texts b)) :
    Agrees (Renderer.capture x) r e fun text b r' =>
      text = String.join (texts b) ∧ Holds o marker output r' := by
  have hvisit := hx { r with output := [] } ⟨rfl, h.2⟩
  rw [← bind_pure e]
  refine .step rfl (.step rfl (hvisit.bind fun _ b r' hr' => ?_))
  exact .step rfl (.step rfl (.pure ⟨by rw [← hr'.1], h.1, hr'.2⟩))

/-- A text that is put out comes behind the others. -/
theorem Holds.put (h : Holds o marker output r) (text : String) :
    Agrees (put text) r (.ok text) fun _ text => Holds o marker (output ++ [text]) :=
  .ok ⟨congrArg (· ++ [text]) h.1, h.2⟩

/-- What a visit gives is put out in a text. -/
theorem Agrees.thenPut {x : Visit α} {e : Except Fault β} {g : β → α}
    (hx : Agrees x r e fun a b r' => a = g b ∧ Holds o marker output r') (f : α → String) :
    Agrees (x >>= fun a => put (f a)) r (e >>= fun b => Pure.pure (f (g b)))
      fun _ text => Holds o marker (output ++ [text]) := by
  refine hx.bind fun a b r' ⟨heq, h⟩ => ?_
  rw [heq]
  exact h.put _

/-- A number is set apart from what follows it. -/
theorem exists_of_orderedMarker {start : Value} {index : Nat}
    (h : orderedMarker start index = .ok marker) : ∃ number, marker = number ++ "." := by
  have hwhole {i : Int} (h : wholeMarker i = .ok marker) : ∃ number, marker = number ++ "." := by
    unfold wholeMarker at h
    split at h
    · exact ⟨_, (Except.ok.inj h).symm⟩
    · cases h
  unfold orderedMarker at h
  split at h
  · exact hwhole h
  · exact ⟨_, (Except.ok.inj h).symm⟩
  · split at h
    · exact hwhole h
    · cases h

/-! ## Visits

The induction is on the node, with any output before it. -/

mutual

/-- **A visit does what the text of the node says.** -/
theorem visit_agrees {o : RenderOptions} {marker : String} {output : List String} {r : Renderer}
    (n : Node) (h : Holds o marker output r) :
    Agrees (visit o n) r (nodeText o marker n) fun _ text => Holds o marker (output ++ [text]) := by
  match n with
  | .root cs =>
    rw [visit, nodeText]
    exact (visitBlocks_agrees cs h).thenPut joinBlocks
  | .blockquote cs =>
    rw [visit, nodeText]
    exact (visitBlocks_agrees cs h).thenPut fun texts => quoteText (joinBlocks texts)
  | .footnoteDefinition identifier _ cs =>
    rw [visit, nodeText]
    exact (visitBlocks_agrees cs h).thenPut fun texts => footnoteText identifier (joinBlocks texts)
  | .flowComponent name attributes cs =>
    rw [visit, nodeText]
    refine (Agrees.lift (attributesText attributes) r).bind fun tag _ _ ⟨heq, _, hr⟩ => ?_
    subst heq hr
    exact (visitBlocks_agrees cs h).thenPut fun texts => componentText name _ (joinBlocks texts)
  | .heading depth cs =>
    rw [visit, nodeText]
    refine (h.capture fun _ => visitAll_agrees cs).bind fun content _ r' ⟨heq, h⟩ => ?_
    rw [heq]
    refine (Agrees.lift (headingMarks depth) r').bind fun marks _ _ ⟨heq, _, hr⟩ => ?_
    subst heq hr
    exact h.put _
  | .paragraph cs =>
    rw [visit, nodeText]
    exact (h.capture fun _ => visitAll_agrees cs).thenPut fun text => text
  | .emphasis cs =>
    rw [visit, nodeText]
    exact (h.capture fun _ => visitAll_agrees cs).thenPut fun text =>
      o.emphasis.emphasis ++ text ++ o.emphasis.emphasis
  | .strong cs =>
    rw [visit, nodeText]
    exact (h.capture fun _ => visitAll_agrees cs).thenPut fun text =>
      o.strong.strong ++ text ++ o.strong.strong
  | .link url cs =>
    rw [visit, nodeText]
    exact (h.capture fun _ => visitAll_agrees cs).thenPut fun text =>
      "[" ++ text ++ "](" ++ destinationText url ++ ")"
  | .textComponent name attributes cs =>
    rw [visit, nodeText]
    refine (Agrees.lift (attributesText attributes) r).bind fun tag _ _ ⟨heq, _, hr⟩ => ?_
    subst heq hr
    exact (h.capture fun _ => visitAll_agrees cs).thenPut fun text =>
      inlineComponentText name _ text
  | .list ordered start cs =>
    rw [visit, nodeText]
    refine .step rfl ((visitItems_agrees ordered start 0 cs h.1).bind
      fun texts _ r' ⟨heq, hout⟩ => .step rfl ?_)
    -- the marker that was left before the list is left again behind it
    have hr : Holds o marker output { r' with marker := r.marker } := ⟨hout, h.2⟩
    rw [heq]
    exact hr.put _
  | .listItem cs =>
    rw [visit, nodeText]
    have hinner : Holds o o.bullet.text output { r with marker := none } := ⟨h.1, rfl⟩
    refine .step rfl (.step rfl ((visitBlocks_agrees cs hinner).bind
      fun texts _ r' ⟨heq, h'⟩ => .step rfl ?_))
    have hr : Holds o marker output { r' with marker := some marker } :=
      ⟨h'.1, lead_some (h.2 ▸ lead_ne_empty o r)⟩
    rw [heq, h.2]
    exact hr.put _
  | .code .. | .thematicBreak | .html _ | .yaml _ | .imports _ | .text _ | .inlineCode _
  | .lineBreak | .footnoteReference .. =>
    rw [visit, nodeText]
    exact h.put _

/-- …for siblings. -/
theorem visitAll_agrees {o : RenderOptions} {marker : String} {output : List String} {r : Renderer}
    (ns : List Node) (h : Holds o marker output r) :
    Agrees (visitAll o ns) r (nodeTexts o marker ns)
      fun _ texts => Holds o marker (output ++ texts) := by
  match ns with
  | [] => exact .ok (by rwa [List.append_nil])
  | n :: ns =>
    rw [visitAll, nodeTexts]
    refine (visit_agrees n h).bind fun _ first r' h => ?_
    rw [← bind_pure (visitAll o ns)]
    refine (visitAll_agrees ns h).bind fun _ texts r' h => .pure ?_
    rwa [List.append_assoc] at h

/-- …for blocks, whose texts are set apart from the output. -/
theorem visitBlocks_agrees {o : RenderOptions} {marker : String} {output : List String}
    {r : Renderer} (ns : List Node) (h : Holds o marker output r) :
    Agrees (visitBlocks o ns) r (nodeTexts o marker ns) fun texts texts' r' =>
      texts = texts' ∧ Holds o marker output r' := by
  match ns with
  | [] => exact .ok ⟨rfl, h⟩
  | n :: ns =>
    rw [visitBlocks, nodeTexts]
    refine (h.capture fun _ => visit_agrees n).bind fun first text r' ⟨hfirst, h⟩ => ?_
    refine (visitBlocks_agrees ns h).bind fun texts texts' r' ⟨htexts, h⟩ => .pure ⟨?_, h⟩
    rw [hfirst, htexts]
    simp

/-- …for the items of a list, which leave the marker of the last one behind. -/
theorem visitItems_agrees {o : RenderOptions} {output : List String} {r : Renderer}
    (ordered : Bool) (start : Value) (index : Nat) (ns : List Node) (h : r.output = output) :
    Agrees (visitItems o ordered start index ns) r (itemTexts o ordered start index ns)
      fun texts texts' r' => texts = texts' ∧ r'.output = output := by
  match ns with
  | [] => exact .ok ⟨rfl, h⟩
  | n :: ns =>
    rw [visitItems, itemTexts]
    have hrest {first : String} {r : Renderer} (hfirst : first ≠ "") (h : r.output = output) :
        Agrees (do
            setMarker (some first)
            let text ← capture (visit o n)
            return text :: (← visitItems o ordered start (index + 1) ns)) r
          (do
            let text ← nodeText o first n
            return text :: (← itemTexts o ordered start (index + 1) ns))
          fun texts texts' r' => texts = texts' ∧ r'.output = output := by
      have hr : Holds o first output { r with marker := some first } := ⟨h, lead_some hfirst⟩
      refine .step rfl ((hr.capture fun _ => visit_agrees n).bind fun text _ r' ⟨htext, h⟩ => ?_)
      refine (visitItems_agrees ordered start (index + 1) ns h.1).bind
        fun texts texts' r' ⟨htexts, h⟩ => .pure ⟨?_, h⟩
      rw [htext, htexts]
      simp
    cases ordered with
    | false => exact .step rfl (hrest (bullet_ne_empty o) h)
    | true =>
      refine (Agrees.lift (orderedMarker start index) r).bind fun first _ _ ⟨heq, hok, hr⟩ => ?_
      subst heq hr
      obtain ⟨number, hnumber⟩ := exists_of_orderedMarker hok
      exact hrest (by simp [hnumber]) h

end

/-! ## Documents

A document is made in a renderer of its own output, so what the renderer has put out before does not
count. -/

/-- A visit that agrees with a result gives it. -/
theorem Agrees.fst_eq {x : Visit α} {e : Except Fault α}
    (h : Agrees x r e fun a b _ => a = b) : (x r).1 = e := by
  unfold Agrees at h
  generalize x r = ended at h
  cases h with
  | ok h => rw [h]
  | error fault r' => rfl

/-- A block rendered by itself has the text of its node, behind a bullet if it is an item. -/
theorem textAlone_eq (o : RenderOptions) (n : Node) :
    textAlone o n = nodeText o o.bullet.text n := by
  have hnew : Holds o o.bullet.text [] {} := ⟨rfl, rfl⟩
  rw [← bind_pure (nodeText o o.bullet.text n), textAlone, ← bind_pure (capture (visit o n))]
  refine Agrees.fst_eq ((hnew.capture fun _ => visit_agrees n).bind fun text text' r' h => .pure ?_)
  rw [h.1]
  simp

/-- Blocks are rendered one by one. -/
theorem mapM_textAlone (o : RenderOptions) (ns : List Node) :
    ns.mapM (textAlone o) = nodeTexts o o.bullet.text ns := by
  have hblocks : textAlone o = nodeText o o.bullet.text := funext (textAlone_eq o)
  rw [hblocks, nodeTexts_eq_mapM]

/-- A renderer gives the document of a tree, whatever it holds. -/
theorem renderToString_eq (o : RenderOptions) (tree : Node) (r : Renderer) :
    (renderToString o tree r).1 = render o tree := by
  have hnew : Holds o o.bullet.text [] {} := ⟨rfl, rfl⟩
  refine Agrees.fst_eq (.step rfl ((visit_agrees tree hnew).bind fun _ text r' h => ?_))
  refine .step rfl (.step rfl (.pure ?_))
  rw [h.1]
  simp

/-- A document of blocks is made of the texts of the blocks, if they have texts. -/
theorem renderToString_root (o : RenderOptions) (blocks : List Node) (r : Renderer) :
    (renderToString o (.root blocks) r).1 = do
      return closeDocument (joinBlocks (← blocks.mapM (textAlone o))) := by
  rw [renderToString_eq, render, nodeText, mapM_textAlone, bind_assoc]
  rfl

/-- **A renderer gives the document that a new one gives**, whatever it holds and whichever trees it
has been used for, with or without a fault.  **The text of no block depends on its siblings**: the
document of some blocks is made of the texts that new renderers give for each of them, those that
are not empty with a blank line between them, and closed then; and there is a fault instead of it
only where there is one instead of such a text. -/
theorem renderToString_usedFor (o : RenderOptions) (r : Renderer) (earlier : List Node) :
    (∀ tree, (renderToString o tree (usedFor o earlier r)).1 = (renderToString o tree {}).1 ∧
      (renderToString o tree {}).1 = render o tree) ∧
    ∀ blocks,
      (∀ document, (renderToString o (.root blocks) (usedFor o earlier r)).1 = .ok document ↔
        ∃ texts, blocks.mapM (textAlone o) = .ok texts ∧
          Closes ("\n\n".intercalate (texts.filter (· ≠ ""))) document) ∧
      ∀ fault, (renderToString o (.root blocks) (usedFor o earlier r)).1 = .error fault ↔
        blocks.mapM (textAlone o) = .error fault := by
  refine ⟨fun tree => ⟨?_, renderToString_eq o tree {}⟩, fun blocks => ?_⟩
  · rw [renderToString_eq, renderToString_eq]
  · rw [renderToString_root]
    cases blocks.mapM (textAlone o) with
    | ok texts =>
      simp only [closes_iff, ← joinBlocks_eq]
      simp [eq_comm]
    | error fault => simp

/-- A fault leaves the marker that a list has set. -/
example : usedFor {} [.root [.list false .null [.heading (.float .nan) []]]] {} =
    ⟨[], some "-"⟩ := by
  decide

/-- A list item that stands by itself, a paragraph without a text and a text that ends in line ends,
once a list has left the marker of its seventh item. -/
theorem renderToString_usedFor_stray :
    [.listItem [.paragraph [.text "a"]], .paragraph [], .html "b\r\nc\n\n\n"].mapM
        (textAlone {}) = .ok ["- a", "", "b\r\nc\n\n\n"] ∧
      (renderToString {}
        (.root [.listItem [.paragraph [.text "a"]], .paragraph [], .html "b\r\nc\n\n\n"])
        (usedFor {} [.root [.list true (.int 7) [.heading (.float .nan) []]]] {})).1 =
          .ok "- a\n\nb\nc\n" := by
  have htexts : [.listItem [.paragraph [.text "a"]], .paragraph [], .html "b\r\nc\n\n\n"].mapM
      (textAlone {}) = .ok ["- a", "", "b\r\nc\n\n\n"] := by
    decide
  have hunifies : Text.Unifies "- a\n\nb\r\nc\n\n\n" "- a\n\nb\nc\n\n\n" :=
    ⟨["- a\n\nb", "c\n\n\n"], by decide, by decide, by decide⟩
  have hends : EndsClosed ("- a\n\nb\nc" ++ "\n\n\n") ("- a\n\nb\nc" ++ "\n") :=
    .content (by decide) (by decide) (by simp)
  exact ⟨htexts, (((renderToString_usedFor _ _ _).2 _).1 _).2 ⟨_, htexts, _, hunifies, hends⟩⟩

end MdxPages.Mdx.Renderer
