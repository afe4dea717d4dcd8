import MdxPages.Proofs.Convert.Imports

/-!
# Proofs/Convert/Stumbling — which pages come out

A page comes out as a root exactly if none of the nodes that are converted stumbles, whatever the
emitter answers (`convertPage_root_iff`).  A node can stumble over four things: a start at infinity,
a depth that is no integer, a size that looks like a number but cannot be read as one, and a default
importer path that is not a text.
-/

namespace MdxPages.Convert

open MdxPages.Source

variable {o : ConversionOptions} {place : Place} {fields : Entries Value}

/-! ## What a node can stumble over -/

/-- The value is an infinite number. -/
def IsInfinite (v : Value) : Prop :=
  ∃ negative, v = .num (.float (.infinite negative))

/-- The first of the start values of a list that gives a number, or fails to, is infinite. -/
def StartsAtInfinity (fields : Entries Value) : Prop :=
  IsInfinite (Value.field "startat" fields) ∨
    startOf (Value.field "startat" fields) = .ok none ∧ IsInfinite (Value.field "start" fields)

/-- The depth of a heading is a number, but no finite one. -/
def LacksDepth (fields : Entries Value) : Prop :=
  IsInfinite (Value.field "depth" fields) ∨ Value.field "depth" fields = .num (.float .nan)

/-- A size that is not given as a number looks like one, but cannot be read as one. -/
def Misread (v : Value) : Prop :=
  v.num? = none ∧ Number.isDecimalText v.text ∧ Number.double? v.text = none

/-- One of the sizes of a figure is misread. -/
def HasMisreadSize (fields : Entries Value) : Prop :=
  Misread (Value.field "width" (Value.field "options" fields).fields) ∨
    Misread (Value.field "height" (Value.field "options" fields).fields)

/-- The produced file has no path, and the default one is not a text. -/
def LacksImporter (o : ConversionOptions) (place : Place) : Prop :=
  place.path = "" ∧ ∀ path, o.defaultImporterPath ≠ .str path

/-- A node that stops the conversion of its page. -/
def Visit.Stumbles (o : ConversionOptions) (v : Visit) : Prop :=
  match kindOf v.fields, directiveOf v.fields with
  | .enumeratedList, _ => StartsAtInfinity v.fields
  | .list, _ => isOrdered v.fields ∧ StartsAtInfinity v.fields
  | .heading, _ => LacksDepth v.fields
  | .directive, .figure =>
    figureAsset v.fields v.children ≠ "" ∧ (LacksImporter o v.place ∨ HasMisreadSize v.fields)
  | .directive, .inclusion => inclusionArgument v.fields ≠ "" ∧ LacksImporter o v.place
  | _, _ => False

/-! ## Faults

Each operation that a node asks for is taken by itself, and its fault is put in terms of the field
that it reads. -/

/-- A sequence has a fault if its first step has, or its second one after it. -/
theorem faultIn_bind {α β : Type} (e : Except Fault α) (g : α → Except Fault β) :
    faultIn (e >>= g) ≠ none ↔ faultIn e ≠ none ∨ ∃ a, e = .ok a ∧ faultIn (g a) ≠ none := by
  cases e with
  | ok a => simp [bind, Except.bind, faultIn]
  | error f => simp [bind, Except.bind, faultIn]

theorem faultIn_seq {α β γ : Type} (e : Except Fault α) (e' : Except Fault β) (g : α → β → γ) :
    faultIn (e >>= fun a => e' >>= fun b => pure (g a b)) ≠ none ↔
      faultIn e ≠ none ∨ faultIn e' ≠ none := by
  cases e <;> cases e' <;> simp [bind, Except.bind, pure, Except.pure, faultIn]

/-- Only an infinite number is a start value with a fault. -/
theorem faultIn_startOf (v : Value) : faultIn (startOf v) ≠ none ↔ IsInfinite v := by
  unfold startOf IsInfinite
  split <;> simp_all [faultIn]

/-- The start of a list has a fault if it is infinite. -/
theorem faultIn_startField : faultIn (startField fields) ≠ none ↔ StartsAtInfinity fields := by
  have hlast (v : Value) : faultIn (listStart [v]) ≠ none ↔ IsInfinite v := by
    rw [listStart, faultIn_bind, faultIn_startOf]
    refine or_iff_left ?_
    rintro ⟨_ | _, -, h⟩ <;> exact h rfl
  rw [startField, listStart, faultIn_bind, faultIn_startOf, StartsAtInfinity]
  refine or_congr_right ⟨?_, fun ⟨hnone, h⟩ => ⟨none, hnone, (hlast _).2 h⟩⟩
  rintro ⟨_ | _, hstart, h⟩
  · exact ⟨hstart, (hlast _).1 h⟩
  · exact absurd rfl h

/-- The depth of a heading has a fault if it is a number, but no finite one. -/
theorem faultIn_headingDepth_field :
    faultIn (headingDepth 1 (Value.field "depth" fields)) ≠ none ↔ LacksDepth fields := by
  unfold headingDepth LacksDepth IsInfinite
  split <;> simp_all [faultIn]

/-- A size has a fault if it is misread. -/
theorem faultIn_sizeAttribute (name : String) (v : Value) :
    faultIn (sizeAttribute name v) ≠ none ↔ Misread v := by
  have hnull : Number.isDecimalText (Value.text .null) = false := by decide +kernel
  have hbool (b : Bool) : Number.isDecimalText (Value.text (.bool b)) = false := by
    cases b <;> decide +kernel
  have hempty : Number.isDecimalText "" = false := by decide +kernel
  unfold sizeAttribute Misread
  split
  · simp [faultIn, hnull]
  · simp [faultIn, hbool]
  · simp [faultIn, hempty]
  · split
    · next hnum => simp [faultIn, hnum]
    · next hnum =>
      cases hdecimal : Number.isDecimalText v.text with
      | false => simp [faultIn, hdecimal]
      | true => cases hdouble : Number.double? v.text <;> simp [faultIn, hnum, hdecimal, hdouble]

theorem faultIn_figureSizes : faultIn (figureSizes fields) ≠ none ↔ HasMisreadSize fields := by
  rw [figureSizes, sizeAttributes, faultIn_seq, faultIn_sizeAttribute, faultIn_sizeAttribute,
    HasMisreadSize]

/-- The importer has a fault if there is no path to take it from. -/
theorem faultIn_importerPath : faultIn (importerPath o place) ≠ none ↔ LacksImporter o place := by
  unfold importerPath LacksImporter
  split
  · next h =>
    rw [String.isEmpty_iff] at h
    split
    · next path hpath => simp [faultIn, hpath]
    · next hpath => simp_all [faultIn]
  · next h =>
    rw [String.isEmpty_iff] at h
    simp [faultIn, h]

/-- **A visit meets a fault exactly if its node stumbles.** -/
theorem Visit.fault?_ne_none_iff (v : Visit) : v.fault? o ≠ none ↔ v.Stumbles o := by
  unfold Visit.fault? Visit.Stumbles ownFault
  cases kindOf v.fields with
  | enumeratedList => exact faultIn_startField
  | list =>
    simp only
    split
    · next h => simp [h, faultIn_startField]
    · next h => simp [h]
  | heading => exact faultIn_headingDepth_field
  | directive =>
    unfold directiveFault
    cases directiveOf v.fields with
    | figure =>
      simp only
      split
      · next h => simp [String.isEmpty_iff.1 h]
      · next h =>
        rw [String.isEmpty_iff] at h
        rw [ne_eq, Option.or_eq_none_iff, Classical.not_and_iff_not_or_not, ← ne_eq, ← ne_eq,
          faultIn_importerPath, faultIn_figureSizes]
        simp [h]
    | inclusion =>
      simp only
      split
      · next h => simp [String.isEmpty_iff.1 h]
      · next h =>
        rw [String.isEmpty_iff] at h
        simp [h, faultIn_importerPath]
    | _ => simp
  | _ => simp

/-! ## Pages

A page stops at the first node that stumbles, and no emitter can keep it from that. -/

/-- **Which pages come out.**  Whatever the emitter answers, a page comes out as a root exactly if
no node that is converted in it or in one of its fragments stumbles. -/
theorem convertPage_root_iff {σ : Type} (run : Run σ) (path : String) (root : Entries Value)
    (emitter : σ) :
    (∃ children, (convertPage run path root emitter).1 = .ok (.root children)) ↔
      ∀ v ∈ ((Draft.page path root).outline run.options).visits, ¬ v.Stumbles run.options := by
  have hfaultless : (Draft.page path root).Faultless run.options ↔
      ∀ v ∈ ((Draft.page path root).outline run.options).visits, ¬ v.Stumbles run.options := by
    simp only [Draft.Faultless, Outline.faults, List.filterMap_eq_nil_iff,
      ← Visit.fault?_ne_none_iff, ne_eq, Classical.not_not]
  rw [← hfaultless]
  constructor
  · rintro ⟨children, h⟩
    exact (faultless_iff_convertPage_ok run path root emitter).2 ⟨_, h⟩
  · intro h
    obtain ⟨s, hs, -⟩ := convertPage_of_faultless run h emitter
    exact ⟨_, congrArg Prod.fst hs⟩

/-- A page with a list that starts at infinity. -/
def endlessListRoot : Entries Value :=
  rootOf [.obj [("type", .str "enumerated_list"), ("startat", .num (.float (.infinite false)))]]

/-- **Not every page comes out**: a list that starts at infinity stops the conversion. -/
theorem exists_page_that_stops :
    (convertPage ⟨{}, none⟩ "index.mdx" endlessListRoot ()).1 = .error .infiniteInteger := by
  rfl

end MdxPages.Convert
