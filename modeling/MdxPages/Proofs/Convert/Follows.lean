import MdxPages.Proofs.Convert.Account

/-!
# Proofs/Convert/Follows — a conversion follows an outline

A conversion follows an outline if it performs an account that tells of the outline: it stops at
the first fault that a visit has, and if there is none, it notes the mentions, emits the fragments,
and returns nodes that refer to every name mentioned, in order.  The account is the same for every
run with the given options, so it does not depend on the emitter.
-/

namespace MdxPages.Convert

open MdxPages.Source

variable {α β γ : Type}

/-! ## Faults and names of an outline -/

/-- The fault of an operation, if it has one. -/
def faultIn : Except Fault α → Option Fault
  | .ok _ => none
  | .error f => some f

/-- An operation without a fault has a value. -/
theorem exists_ok_of_faultIn {e : Except Fault α} (h : faultIn e = none) : ∃ v, e = .ok v := by
  cases e with
  | ok v => exact ⟨v, rfl⟩
  | error f => cases h

/-- The sizes that a figure asks for. -/
def figureSizes (fields : Entries Value) : Except Fault (List Attribute) :=
  sizeAttributes (Value.field "options" fields).fields

/-- The fault that a directive meets by itself. -/
def directiveFault (o : ConversionOptions) (place : Place) (fields : Entries Value)
    (children : List Source) : Option Fault :=
  match directiveOf fields with
  | .figure =>
    if (figureAsset fields children).isEmpty then none
    else (faultIn (importerPath o place)).or (faultIn (figureSizes fields))
  | .inclusion =>
    if (inclusionArgument fields).isEmpty then none else faultIn (importerPath o place)
  | .metadata | .literalInclude | .generic => none

/-- The fault that a node meets by itself. -/
def ownFault (o : ConversionOptions) (place : Place) (kind : Kind) (fields : Entries Value)
    (children : List Source) : Option Fault :=
  match kind with
  | .enumeratedList => faultIn (startField fields)
  | .list => if isOrdered fields then faultIn (startField fields) else none
  | .heading => faultIn (headingDepth 1 (Value.field "depth" fields))
  | .directive => directiveFault o place fields children
  | _ => none

/-- The fault that a visit meets. -/
def Visit.fault? (o : ConversionOptions) (v : Visit) : Option Fault :=
  ownFault o v.place (kindOf v.fields) v.fields v.children

/-- The name under which a file uses what a mention imports. -/
def Mention.name? (o : ConversionOptions) : Mention → Option String
  | metadata _ => none
  | figure target => some (Path.imageIdentifier target)
  | inclusion fragment => some (Path.fragmentComponent fragment.place.path o.fragmentExtension)

namespace Outline

/-- The faults that the visits of an outline meet. -/
def faults (o : ConversionOptions) (out : Outline) : List Fault :=
  out.visits.filterMap (Visit.fault? o)

/-- The names that the mentions of an outline import. -/
def names (o : ConversionOptions) (out : Outline) : List String :=
  out.mentions.filterMap (Mention.name? o)

variable (o : ConversionOptions)

/-- One outline after the other has the faults of both. -/
@[simp] theorem faults_append (a b : Outline) : (a ++ b).faults o = a.faults o ++ b.faults o :=
  List.filterMap_append

@[simp] theorem names_append (a b : Outline) : (a ++ b).names o = a.names o ++ b.names o :=
  List.filterMap_append

end Outline

/-! ## Following

The account that a conversion performs is left open, but must tell of the outline.  So conversions
with different answers can follow the same outline. -/

/-- An account tells of an outline: of all of it, or of its first fault. -/
inductive Account.Tells (o : ConversionOptions) (nodes : α → List Node) (out : Outline)
    (a : Account α) : Prop
  | completed (v : α) (answer : a.answer = .ok v) (faults : out.faults o = [])
      (mentions : a.mentions = out.mentions)
      (emissions : a.emissions = out.fragments.map (Draft.emission o))
      (references : (out.names o).Sublist (Node.references (nodes v)))
  | stopped (f : Fault) (answer : a.answer = .error f) (first : (out.faults o).head? = some f)

/-- A conversion, for every run with the given options, performs an account of an outline. -/
def Follows (o : ConversionOptions) (place : Place) (x : ∀ σ : Type, Run σ → Conversion σ α)
    (nodes : α → List Node) (out : Outline) : Prop :=
  ∃ a : Account α, a.Tells o nodes out ∧
    ∀ (σ : Type) (run : Run σ), run.options = o → Performs run place (x σ run) a

namespace Follows

variable {o : ConversionOptions} {place : Place} {x : ∀ σ : Type, Run σ → Conversion σ α}
  {y : ∀ σ : Type, Run σ → Conversion σ β} {nx : α → List Node} {ny : β → List Node}
  {nz : γ → List Node} {out out₁ out₂ : Outline}

/-- A value without nodes follows the empty outline. -/
theorem pure (v : α) : Follows o place (fun _ _ => Pure.pure v) nx {} :=
  ⟨⟨.ok v, [], []⟩, .completed v rfl rfl rfl rfl (List.nil_sublist _),
    fun _ _ _ => .pure v⟩

/-- What is mentioned may be put into larger nodes. -/
theorem map (hx : Follows o place x nx out) (g : α → γ)
    (hg : ∀ v, (Node.references (nx v)).Sublist (Node.references (nz (g v)))) :
    Follows o place (fun σ run => x σ run >>= fun v => Pure.pure (g v)) nz out := by
  obtain ⟨a, ha, hperf⟩ := hx
  refine ⟨_, ?_, fun σ run h => (hperf σ run h).map g⟩
  cases ha with
  | completed v answer faults mentions emissions references =>
    refine .completed (g v) ?_ faults ?_ ?_ (references.trans (hg v)) <;>
      simp [Account.bind, answer, mentions, emissions]
  | stopped f answer first => exact .stopped f (by simp [Account.bind, answer]) first

/-- One conversion after the other follows one outline after the other. -/
theorem seq (hx : Follows o place x nx out₁) (hy : Follows o place y ny out₂) (g : α → β → γ)
    (hg : ∀ v w, (Node.references (nx v ++ ny w)).Sublist (Node.references (nz (g v w)))) :
    Follows o place (fun σ run => x σ run >>= fun v => y σ run >>= fun w => Pure.pure (g v w)) nz
      (out₁ ++ out₂) := by
  obtain ⟨a, ha, hxa⟩ := hx
  obtain ⟨b, hb, hyb⟩ := hy
  refine ⟨_, ?_, fun σ run h => (hxa σ run h).bind fun v _ => (hyb σ run h).map (g v)⟩
  cases ha with
  | stopped f answer first =>
    refine .stopped f (by simp [Account.bind, answer]) ?_
    rw [Outline.faults_append, List.head?_append, first, Option.some_or]
  | completed v vanswer vfaults vmentions vemissions vreferences =>
    cases hb with
    | stopped f answer first =>
      refine .stopped f (by simp [Account.bind, answer, vanswer]) ?_
      rw [Outline.faults_append, vfaults, List.nil_append, first]
    | completed w wanswer wfaults wmentions wemissions wreferences =>
      refine .completed (g v w) ?_ ?_ ?_ ?_ (List.Sublist.trans ?_ (hg v w))
      · simp [Account.bind, vanswer, wanswer]
      · rw [Outline.faults_append, vfaults, wfaults, List.nil_append]
      · simp [Account.bind, vanswer, wanswer, vmentions, wmentions]
      · simp [Account.bind, vanswer, wanswer, vemissions, wemissions]
      · rw [Outline.names_append, Node.references_append]
        exact vreferences.append wreferences

/-- A visit without a fault changes nothing. -/
theorem visiting {v : Visit} (hv : v.fault? o = none) (hx : Follows o place x nx out) :
    Follows o place x nx ({ visits := [v] } ++ out) := by
  obtain ⟨a, ha, hperf⟩ := hx
  have hfaults : ({ visits := [v] } ++ out : Outline).faults o = out.faults o := by
    rw [Outline.faults_append, Outline.faults, List.filterMap_cons, hv]
    rfl
  refine ⟨a, ?_, hperf⟩
  cases ha with
  | completed v answer faults mentions emissions references =>
    exact .completed v answer (hfaults.trans faults) mentions emissions references
  | stopped f answer first => exact .stopped f answer ((congrArg _ hfaults).trans first)

/-- A visit with an operation that may fault: the conversion stops there if it does. -/
theorem checking {v : Visit} {e : Except Fault β} {z : β → ∀ σ : Type, Run σ → Conversion σ α}
    (hv : v.fault? o = faultIn e) (hz : ∀ w, e = .ok w → Follows o place (z w) nx out) :
    Follows o place (fun σ run => liftM e >>= fun w => z w σ run) nx
      ({ visits := [v] } ++ out) := by
  cases e with
  | ok w => exact (hz w rfl).visiting hv
  | error f =>
    refine ⟨⟨.error f, [], []⟩, .stopped f rfl ?_, fun _ _ _ _ => ⟨rfl, rfl, rfl⟩⟩
    rw [Outline.faults_append, Outline.faults, List.filterMap_cons, hv]
    rfl

end Follows

end MdxPages.Convert
