import MdxPages.Proofs.Convert.Pass

/-!
# Proofs/Convert/Inclusion — what an include does, apart from where it stands

An include with a path does one of two things.  If it would close a cycle, it leaves a marker and
does nothing else (`uninclusion_performs`).  Otherwise its content is converted as a fragment, of
which the enclosing file sees one import, and the emitter what the content emits and then the
fragment itself (`inclusion_performs`).
-/

namespace MdxPages.Convert

open MdxPages.Source

variable {σ : Type} {o : ConversionOptions} {place : Place} {depth : Int} {fields : Entries Value}
  {children content : List Source} {fragment : String} {node : Source}

/-- The node is an include of the content under the path of a fragment. -/
def Includes (o : ConversionOptions) (fragment : String) (content : List Source) : Source → Prop
  | .stray _ => False
  | .node fields children _ _ =>
    kindOf fields = .directive ∧ directiveOf fields = .inclusion ∧ inclusionArgument fields ≠ "" ∧
      Path.fragmentPath (inclusionArgument fields) o.fragmentExtension = fragment ∧
      includedContent children = content

/-! ## Includes that are cut

The warning about a cycle names the place of the include, and so even a cut include can fail. -/

/-- What an include that would close a cycle leaves; it fails only if its warning cannot name the
importer. -/
def cutAnswer (o : ConversionOptions) (place : Place) (fragment : String) :
    Except Fault Converted :=
  (importerPath o place).map fun _ => .one (cycleMarker fragment)

/-- What an include leaves that does not enter its fragment. -/
def uninclusionAnswer (o : ConversionOptions) (place : Place) (fields : Entries Value) :
    Except Fault Converted :=
  if (inclusionArgument fields).isEmpty then .ok (.one (.html "<!-- include missing path -->"))
  else cutAnswer o place (Path.fragmentPath (inclusionArgument fields) o.fragmentExtension)

/-- An operation, and then something that has no effect. -/
theorem Performs.lift_map {α β : Type} {run : Run σ} {e : Except Fault α}
    {x : α → Conversion σ β} {g : α → β}
    (hx : ∀ v, Performs run place (x v) ⟨.ok (g v), [], []⟩) :
    Performs run place (liftM e >>= x) ⟨e.map g, [], []⟩ := by
  have hperf : Performs run place (liftM e >>= x) _ := (Performs.lift e).bind fun v _ => hx v
  cases e with
  | ok v => exact hperf
  | error f => exact hperf

/-- **An include that does not enter its fragment leaves a marker**, and does nothing else. -/
theorem uninclusion_performs {run : Run σ} {parts : Parts σ}
    (h : fragmentOf run.options place fields = none) :
    Performs run place (handleInclusion run place fields parts)
      ⟨uninclusionAnswer run.options place fields, [], []⟩ := by
  simp only [fragmentOf] at h
  split at h
  · next hc =>
    rw [Bool.or_eq_true] at hc
    simp only [handleInclusion, uninclusionAnswer]
    cases hempty : (inclusionArgument fields).isEmpty with
    | true => exact (Performs.record _ _).bind fun _ _ => .pure _
    | false =>
      simp only [hempty, Bool.false_eq_true, false_or] at hc
      simp only [hc, if_true, Bool.false_eq_true, if_false]
      exact Performs.lift_map fun importer => (Performs.record _ _).bind fun _ _ => .pure _
  · cases h

/-- With cycles cut, an include closes one if its fragment is already on the stack. -/
theorem closesCycle_eq_true_iff (hcut : o.detectIncludeCycles.isGiven) :
    closesCycle o place fragment = true ↔ fragment ∈ place.chain := by
  simp [closesCycle, hcut]

variable {term argument : List Source}

/-- An include enters its fragment unless that would close a cycle. -/
theorem fragmentOf_of_includes
    (h : Includes o fragment content (.node fields children term argument)) :
    fragmentOf o place fields = if closesCycle o place fragment then none else some fragment := by
  obtain ⟨-, -, hnamed, rfl, -⟩ := h
  simp [fragmentOf, hnamed]

/-- An include is handled as one. -/
theorem handle_of_includes {run : Run σ} {parts : Parts σ}
    (h : Includes o fragment content (.node fields children term argument)) :
    handle run place depth (kindOf fields) fields children parts =
      handleInclusion run place fields parts := by
  simp only [handle, h.1, h.2.1]

/-- **An include that would close a cycle leaves a marker**, whatever its lists convert to. -/
theorem handle_performs_of_cycle {run : Run σ} {parts : Parts σ}
    (h : Includes run.options fragment content (.node fields children term argument))
    (hcycle : closesCycle run.options place fragment = true) :
    Performs run place (handle run place depth (kindOf fields) fields children parts)
      ⟨cutAnswer run.options place fragment, [], []⟩ := by
  have hnone : fragmentOf run.options place fields = none := by
    rw [fragmentOf_of_includes h, if_pos hcycle]
  have hperf : Performs run place (handleInclusion run place fields parts) _ :=
    uninclusion_performs hnone
  rw [handle_of_includes h]
  simpa [uninclusionAnswer, h.2.2.1, h.2.2.2.1] using hperf

/-! ## Includes that are not cut

The account of the content is used as it is, for a fragment starts with a state of its own. -/

/-- What is emitted for a fragment, given what its conversion gave. -/
def delivery (fragment : String) : Except Fault Node → List (String × Node)
  | .ok tree => [(fragment, tree)]
  | .error _ => []

/-- The tree of a fragment, given what the conversion of its content does. -/
def Account.fragmentTree (o : ConversionOptions) (inside : Place) (a : Account (List Node)) :
    Except Fault Node :=
  a.answer.map (assemble [] (a.mentions.foldl (FileState.note o inside) {}))

/-- What the content of a fragment emits comes first, and then the fragment itself, whatever the
path of the importer. -/
theorem emissions_inclusionAccount (a : Account (List Node)) :
    (inclusionAccount o place fragment children a).emissions =
      a.emissions ++ delivery fragment (a.fragmentTree o (place.enter fragment)) := by
  simp only [inclusionAccount, Account.bind, Account.fragmentTree]
  cases a.answer with
  | error f => simp [Except.map, delivery]
  | ok ns => cases importerPath o place <;> simp [Except.map, delivery]

/-- The enclosing file sees nothing of a fragment but its import. -/
theorem mentions_inclusionAccount (a : Account (List Node)) :
    (inclusionAccount o place fragment children a).mentions = [] ∨
      (inclusionAccount o place fragment children a).mentions =
        [.inclusion (draftOf place fragment children)] := by
  simp only [inclusionAccount, Account.bind]
  cases a.answer with
  | error f => exact .inl rfl
  | ok ns =>
    cases importerPath o place with
    | error f => exact .inl rfl
    | ok importer => exact .inr rfl

/-- **An include that is not cut does what its content does**, emits its fragment, and imports
it. -/
theorem convertNode_performs_of_includes {run : Run σ} {a : Account (List Node)}
    (h : Includes run.options fragment content (.node fields children term argument))
    (hfresh : closesCycle run.options place fragment = false)
    (ha : Performs run (place.enter fragment) (convertAll run (place.enter fragment) 1 content) a) :
    Performs run place (convertNode run place depth (.node fields children term argument))
      (inclusionAccount run.options place fragment children a) := by
  rw [convertNode, handle_of_includes h]
  refine inclusion_performs rfl ?_ ?_
  · rw [fragmentOf_of_includes h, hfresh]
    rfl
  · obtain ⟨-, -, -, -, rfl⟩ := h
    simpa only [convertContent_eq] using ha

end MdxPages.Convert
