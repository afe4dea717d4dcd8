import MdxPages.Proofs.Convert.Account

/-!
# Proofs/Convert/Meets — what a conversion promises

A conversion meets a promise if, from every state whose emitter keeps what it may keep, it ends in
such a state, with a result that satisfies one condition or a fault that satisfies another.  The
rules follow the steps that conversions are made of.
-/

namespace MdxPages.Convert

variable {σ α β : Type}

/-- A result is as promised, or else its fault is. -/
def Promised (E : Fault → Prop) (P : α → Prop) : Except Fault α → Prop
  | .ok v => P v
  | .error f => E f

/-- A sequence keeps its promise if its second step keeps it after every promised value. -/
theorem Promised.bind {E : Fault → Prop} {P : α → Prop} {Q : β → Prop} {e : Except Fault α}
    {f : α → Except Fault β} (he : Promised E P e) (hf : ∀ v, P v → Promised E Q (f v)) :
    Promised E Q (e >>= f) := by
  cases e with
  | ok v => exact hf v he
  | error _ => exact he

/-- From states whose emitter keeps `I`, a conversion ends in one, with a result that satisfies `P`
or a fault that satisfies `E`. -/
def Meets (I : σ → Prop) (E : Fault → Prop) (P : α → Prop) (x : Conversion σ α) : Prop :=
  ∀ s : Session σ, I s.emitter → I (x s).2.emitter ∧ Promised E P (x s).1

/-- Whatever satisfies `T` can be handed to the emitter. -/
def Accepts (emitter : Option (Emitter σ)) (I : σ → Prop) (T : Node → Prop) : Prop :=
  ∀ path tree kept, T tree → I kept → I (deliver emitter kept (path, tree))

namespace Meets

variable {I : σ → Prop} {E : Fault → Prop} {P P' : α → Prop} {Q : β → Prop} {x y : Conversion σ α}

/-- A value that is as promised. -/
theorem pure {v : α} (h : P v) : Meets I E P (Pure.pure v) :=
  fun _ hs => ⟨hs, h⟩

/-- An operation that keeps a promise of its own. -/
theorem lift {e : Except Fault α} (h : Promised E P e) : Meets I E P (liftM e) :=
  fun _ hs => ⟨hs, by cases e <;> exact h⟩

theorem record {P : Unit → Prop} (level : Level) (message : String) (h : P ()) :
    Meets I E P (Convert.record level message) :=
  fun _ hs => ⟨hs, h⟩

theorem addMetadata {P : Unit → Prop} (fields : Entries Value) (h : P ()) :
    Meets I E P (Convert.addMetadata fields) :=
  fun _ hs => ⟨hs, h⟩

/-- Registering an import always succeeds, and leaves the emitter alone. -/
theorem registerImport {P : Unit → Prop} (name path : String) (h : P ()) :
    Meets I E P (Convert.registerImport name path) := by
  intro s hs
  rw [registerImport_apply]
  exact ⟨hs, h⟩

/-- A tree that the emitter may be handed. -/
theorem emitting {P : Unit → Prop} {run : Run σ} {path : String} {tree : Node}
    (hI : ∀ kept, I kept → I (deliver run.emitter kept (path, tree))) (h : P ()) :
    Meets I E P (Convert.emit run path tree) := by
  intro s hs
  obtain ⟨log, hemit⟩ := emit_apply run path tree s
  rw [hemit]
  exact ⟨hI s.emitter hs, h⟩

/-- An emission keeps what the emitter may keep, if the tree may be handed to it. -/
theorem emit {P : Unit → Prop} {T : Node → Prop} {run : Run σ} {tree : Node} (path : String)
    (hI : Accepts run.emitter I T) (htree : T tree) (h : P ()) :
    Meets I E P (Convert.emit run path tree) :=
  emitting (fun kept => hI path tree kept htree) h

/-- A sequence meets what its second step meets after every promised value. -/
theorem bind {f : α → Conversion σ β} (hx : Meets I E P x) (hf : ∀ v, P v → Meets I E Q (f v)) :
    Meets I E Q (x >>= f) := by
  intro s hs
  have hxs := hx s hs
  rw [bind_apply]
  generalize x s = p at hxs
  obtain ⟨f | v, s'⟩ := p
  · exact hxs
  · exact hf v hxs.2 s' hxs.1

/-- A promise about an answer carries over to what is made of it. -/
theorem map {g : α → β} (hx : Meets I E P x) (hg : ∀ v, P v → Q (g v)) :
    Meets I E Q (x >>= fun v => Pure.pure (g v)) :=
  hx.bind fun v hv => .pure (hg v hv)

theorem ite {c : Prop} [Decidable c] (h : c → Meets I E P x) (h' : ¬ c → Meets I E P y) :
    Meets I E P (if c then x else y) := by
  split
  · next hc => exact h hc
  · next hc => exact h' hc

/-- The tree of a fragment is made of what its content converts to. -/
theorem fragmentTree {place : Place} {fragment : String} {P : List Node → Prop} {T : Node → Prop}
    {content : Place → Conversion σ (List Node)} (hx : Meets I E P (content (place.enter fragment)))
    (hT : ∀ file ns, P ns → T (assemble [] file ns)) :
    Meets I E T (Convert.fragmentTree place fragment content) := by
  intro s hs
  have hxs := hx { s with file := {} } hs
  simp only [Convert.fragmentTree, inNewFile, bind_apply, get_apply, pure_apply]
  generalize content (place.enter fragment) { s with file := {} } = p at hxs
  obtain ⟨f | ns, s'⟩ := p
  · exact hxs
  · exact ⟨hxs.1, hT _ _ hxs.2⟩

end Meets

end MdxPages.Convert
