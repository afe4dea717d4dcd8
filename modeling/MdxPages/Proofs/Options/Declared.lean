import Mathlib.Data.List.Nodup
import MdxPages.Proofs.Cli.Settings
import MdxPages.Proofs.Entries
import MdxPages.Proofs.Json.Writable

/-!
# Proofs/Options/Declared — settings whose fields are declared

The fields of settings are declared with a kind and a range.  A call that changes settings checks
all ranges and no kinds: a check takes it that its value is of the declared kind, stumbles over some
values that are not and lets others pass.  So **accepted settings can be used exactly if they are of
their kinds** (`Lawful.usable_iff`), and calls with values of the declared kinds never stumble, in
however long a chain (`Lawful.sound`), as long as the values can be shown, as all can that are read
from JSON (`ReadCall.typedCall`).
-/

namespace MdxPages

open ConversionOptions (directiveNames)

/-! ## Known names -/

/-- A call that is accepted has no unknown name. -/
theorem exists_of_refuseUnknown {β : Type} {settings : String} {known : List String}
    {updates : Entries Value} {f : Unit → Except Failure β} {b : β}
    (h : (refuseUnknown settings known updates >>= f) = .ok b) : f () = .ok b := by
  obtain ⟨⟨⟩, -, h⟩ := exists_of_bind h
  exact h

/-- A known name that is given alone is not refused. -/
theorem refuseUnknown_single {settings : String} {known : List String} {name : String} {v : Value}
    (hname : name ∈ known) (hown : name ≠ ownName) :
    refuseUnknown settings known [(name, v)] = .ok () := by
  simp [refuseUnknown, unknownNames, Entries.has, Entries.get?, Entries.keys, hname, hown]

/-! ## Declared fields

A declaration says the kind and the range of a field.  A check tests the range only. -/

/-- The kinds of values that fields are declared with. -/
inductive DeclaredKind
  | text
  | whole
  | number
  | flag
  | texts

namespace DeclaredKind

/-- The values of a kind. -/
def Admits : DeclaredKind → Value → Prop
  | text, v => ∃ s, v = .str s
  | whole, v => ∃ i, v = .int i
  | number, v => ∃ n, v = .num n ∧ n ≠ .float .nan
  | flag, v => ∃ b, v = .bool b
  | texts, v => ∃ ss : List String, v = .arr (ss.map .str)

/-- What a field holds when it is given a value: a list of texts is listed once more. -/
def Stores : DeclaredKind → Value → Value → Prop
  | texts, given, held => ∃ items, directiveNames given = .ok items ∧ held = .arr items
  | _, given, held => held = given

/-- What an accepted call makes of what a field of a kind holds. -/
def Moves (kind : DeclaredKind) (given : Option Value) (present held : Value) : Prop :=
  match given with
  | none => held = present
  | some given => kind.Stores given held

/-- The values of a kind that can be shown. -/
def Shows (kind : DeclaredKind) (v : Value) : Prop :=
  kind.Admits v ∧ v.isWritable = true

/-- What is stored of a value of a kind is of that kind, and is shown as the value is. -/
theorem shows_of_stores {kind : DeclaredKind} {given held : Value} (h : kind.Shows given)
    (hstores : kind.Stores given held) : kind.Shows held := by
  cases kind with
  | texts =>
    obtain ⟨⟨ss, rfl⟩, hwritable⟩ := h
    obtain ⟨items, hitems, rfl⟩ := hstores
    obtain rfl := Except.ok.inj hitems
    exact ⟨⟨ss, rfl⟩, hwritable⟩
  | text | whole | number | flag =>
    obtain rfl : held = given := hstores
    exact h

/-- A field that is stored as it is given moves as its kind says. -/
theorem moves_of_updated {kind : DeclaredKind} {updates : Entries Value} {name : String}
    {present held : Value} (hkind : ∀ given held, held = given → kind.Stores given held)
    (h : held = updated updates name present) : kind.Moves (updates.get? name) present held := by
  rw [updated] at h
  cases hgiven : updates.get? name with
  | none =>
    rw [hgiven] at h
    exact h
  | some given =>
    rw [hgiven] at h
    exact hkind given held h

end DeclaredKind

/-- A declared field: its name, its kind, and what is asked of its values besides. -/
structure DeclaredField where
  name : String
  kind : DeclaredKind
  range : Value → Prop

/-- A class of settings: what its objects are by default, how a call changes one, what the fields of
one hold, how these are declared, and the calls in which a check stumbles over a value. -/
structure SettingsClass (ω : Type) where
  defaults : ω
  update : ω → Entries Value → Except Failure ω
  held : ω → Value
  fields : List DeclaredField
  Stumbles : ω → Entries Value → Prop

namespace SettingsClass

variable {ω : Type} {c : SettingsClass ω} {o o' : ω} {updates : Entries Value}

/-- What a field of an object holds. -/
def get? (c : SettingsClass ω) (name : String) (o : ω) : Option Value :=
  (c.held o).fields.get? name

/-- Objects whose fields hold values of the declared kinds. -/
def Typed (c : SettingsClass ω) (o : ω) : Prop :=
  ∀ f ∈ c.fields, ∃ v, c.get? f.name o = some v ∧ f.kind.Admits v

/-- Objects whose fields hold values of the declared kinds and ranges. -/
def Usable (c : SettingsClass ω) (o : ω) : Prop :=
  ∀ f ∈ c.fields, ∃ v, c.get? f.name o = some v ∧ f.kind.Admits v ∧ f.range v

/-- Objects whose fields hold values of the declared kinds that can be shown. -/
def Shows (c : SettingsClass ω) (o : ω) : Prop :=
  ∀ f ∈ c.fields, ∃ v, c.get? f.name o = some v ∧ f.kind.Shows v

/-- Calls that give values of the declared kinds, which can be shown. -/
def TypedCall (c : SettingsClass ω) (updates : Entries Value) : Prop :=
  updates.has ownName = false ∧
    ∀ f ∈ c.fields, ∀ v, updates.get? f.name = some v → f.kind.Shows v

/-- Calls that give values of the declared kinds, which have been read from JSON. -/
structure ReadCall (c : SettingsClass ω) (updates : Entries Value) : Prop where
  own : updates.has ownName = false
  read : ∃ s, Json.read s = .ok (.obj updates)
  admits : ∀ f ∈ c.fields, ∀ v, updates.get? f.name = some v → f.kind.Admits v

/-- Whatever is read from JSON can be shown. -/
theorem ReadCall.typedCall {c : SettingsClass ω} {updates : Entries Value}
    (h : c.ReadCall updates) : c.TypedCall updates := by
  obtain ⟨s, hread⟩ := h.read
  refine ⟨h.own, fun f hf v hv => ⟨h.admits f hf v hv, ?_⟩⟩
  have hwritable : Value.fieldsAreWritable updates = true := Json.isWritable_of_read hread
  exact Value.fieldsAreWritable_iff.1 hwritable _ (Entries.mem_of_get? hv)

/-- What is there after a call: a call that fails leaves the object as it was. -/
def call (c : SettingsClass ω) (o : ω) (updates : Entries Value) : ω :=
  match c.update o updates with
  | .ok o' => o'
  | .error _ => o

/-- What a chain of calls makes of the defaults. -/
def after (c : SettingsClass ω) (calls : List (Entries Value)) : ω :=
  calls.foldl c.call c.defaults

/-- A call that gives one field a value of its kind. -/
theorem typedCall_single {f : DeclaredField} {v : Value}
    (hnames : (c.fields.map DeclaredField.name).Nodup) (hf : f ∈ c.fields)
    (hown : f.name ≠ ownName) (hv : f.kind.Shows v) : c.TypedCall [(f.name, v)] := by
  refine ⟨by simp [Entries.has, Entries.get?, hown], fun g hg given hgiven => ?_⟩
  rw [Entries.get?] at hgiven
  split at hgiven
  · next hname =>
    obtain rfl := List.inj_on_of_nodup_map hnames hf hg hname
    obtain rfl := Option.some.inj hgiven
    exact hv
  · cases hgiven

/-! ## One call

The laws are asked of a class of settings once.  They say of a single call what it keeps, what it
stores, and what it makes sure of. -/

/-- What one call does, on whatever object. -/
structure Lawful (c : SettingsClass ω) : Prop where
  defaults : c.Usable c.defaults
  shows : c.Shows c.defaults
  names (o : ω) : (c.held o).fields.keys = c.fields.map DeclaredField.name
  invalid (o : ω) (updates : Entries Value) : FailsOnly IsInvalid (c.update o updates)
  stumbles (o : ω) (updates : Entries Value) : Faulty (c.update o updates) ↔ c.Stumbles o updates
  steady {o : ω} {updates : Entries Value} (ho : c.Shows o) (hcall : c.TypedCall updates) :
    ¬c.Stumbles o updates
  moves {o o' : ω} {updates : Entries Value} (h : c.update o updates = .ok o') {f : DeclaredField}
    (hf : f ∈ c.fields) : ∃ present held, c.get? f.name o = some present ∧
      c.get? f.name o' = some held ∧ f.kind.Moves (updates.get? f.name) present held
  range {o o' : ω} {updates : Entries Value} (h : c.update o updates = .ok o') {f : DeclaredField}
    (hf : f ∈ c.fields) {v : Value} (hv : c.get? f.name o' = some v) (hkind : f.kind.Admits v) :
    f.range v

/-- Objects whose fields hold such values are of their kinds. -/
theorem Shows.typed (h : c.Shows o) : c.Typed o := by
  intro f hf
  obtain ⟨v, hv, hkind, -⟩ := h f hf
  exact ⟨v, hv, hkind⟩

/-- A field that is to hold a value of its kind, whether it is named or not. -/
theorem shows_updated (ho : c.Shows o) (hcall : c.TypedCall updates) {f : DeclaredField}
    (hf : f ∈ c.fields) {present : Value} (hpresent : c.get? f.name o = some present) :
    f.kind.Shows (updated updates f.name present) := by
  rw [updated]
  cases hget : updates.get? f.name with
  | some v => exact hcall.2 f hf v hget
  | none =>
    obtain ⟨v, hv, hshows⟩ := ho f hf
    rw [hpresent] at hv
    obtain rfl := Option.some.inj hv
    exact hshows

namespace Lawful

/-- A field that a call does not name holds what it has held. -/
theorem keeps (hc : c.Lawful) (h : c.update o updates = .ok o') {name : String}
    (hname : updates.get? name = none) : c.get? name o' = c.get? name o := by
  by_cases hfield : name ∈ c.fields.map DeclaredField.name
  · obtain ⟨f, hf, rfl⟩ := List.mem_map.1 hfield
    obtain ⟨present, held, hpresent, hheld, hmoves⟩ := hc.moves h hf
    rw [hname] at hmoves
    obtain rfl : held = present := hmoves
    rw [hpresent, hheld]
  · have hnone (o : ω) : c.get? name o = none :=
      Entries.get?_eq_none_of_notMem (by rwa [hc.names])
    rw [hnone, hnone]

/-- A field that a call names holds what is stored of the value. -/
theorem stores (hc : c.Lawful) (h : c.update o updates = .ok o') {f : DeclaredField}
    (hf : f ∈ c.fields) {given : Value} (hgiven : updates.get? f.name = some given) :
    ∃ v, c.get? f.name o' = some v ∧ f.kind.Stores given v := by
  obtain ⟨present, held, -, hheld, hmoves⟩ := hc.moves h hf
  rw [hgiven] at hmoves
  exact ⟨held, hheld, hmoves⟩

/-- **Accepted settings can be used exactly if they are of their kinds**, since all ranges have been
checked. -/
theorem usable_iff (hc : c.Lawful) (h : c.update o updates = .ok o') :
    c.Usable o' ↔ c.Typed o' := by
  constructor
  · intro husable f hf
    obtain ⟨v, hv, hkind, -⟩ := husable f hf
    exact ⟨v, hv, hkind⟩
  · intro htyped f hf
    obtain ⟨v, hv, hkind⟩ := htyped f hf
    exact ⟨v, hv, hkind, hc.range h hf hv hkind⟩

/-- A call keeps settings of their kinds if its values are of these kinds. -/
theorem shows_of_update (hc : c.Lawful) (ho : c.Shows o) (hcall : c.TypedCall updates)
    (h : c.update o updates = .ok o') : c.Shows o' := by
  intro f hf
  cases hget : updates.get? f.name with
  | none =>
    rw [hc.keeps h hget]
    exact ho f hf
  | some given =>
    obtain ⟨v, hv, hstores⟩ := hc.stores h hf hget
    exact ⟨v, hv, DeclaredKind.shows_of_stores (hcall.2 f hf given hget) hstores⟩

/-- A call with values of the declared kinds keeps settings of their kinds, whether it is accepted
or not. -/
theorem shows_call (hc : c.Lawful) (ho : c.Shows o) (hcall : c.TypedCall updates) :
    c.Shows (c.call o updates) := by
  rw [call]
  split
  · next o' h => exact hc.shows_of_update ho hcall h
  · exact ho

/-! ## Chains of calls

A refused call leaves the object as it was, so a chain is an induction over its calls. -/

/-- **Calls with values of the declared kinds keep settings of their kinds**, in however long a
chain. -/
theorem shows_after (hc : c.Lawful) {calls : List (Entries Value)}
    (hcalls : ∀ updates ∈ calls, c.TypedCall updates) : c.Shows (c.after calls) := by
  have hrun (o : ω) (ho : c.Shows o) : c.Shows (calls.foldl c.call o) := by
    induction calls generalizing o with
    | nil => exact ho
    | cons updates calls ih =>
      rw [List.forall_mem_cons] at hcalls
      exact ih hcalls.2 _ (hc.shows_call ho hcalls.1)
  exact hrun c.defaults hc.shows

end Lawful

/-- **Behind calls with values of the declared kinds another such call does not stumble**, and what
it gives can be used. -/
theorem Lawful.usable_of_typedCall (hc : c.Lawful) {calls : List (Entries Value)}
    (hcalls : ∀ call ∈ calls, c.TypedCall call) (hcall : c.TypedCall updates) :
    (∀ e, c.update (c.after calls) updates = .error e → e.category = .validation) ∧
      ∀ o, c.update (c.after calls) updates = .ok o → c.Usable o := by
  have ho := hc.shows_after hcalls
  constructor
  · intro e h
    rcases hc.invalid _ _ e h with ⟨f, rfl⟩ | hvalid
    · exact absurd ((hc.stumbles _ _).1 ⟨f, h⟩) (hc.steady ho hcall)
    · exact hvalid
  · intro o h
    exact (hc.usable_iff h).2 (hc.shows_of_update ho hcall h).typed

/-- What holds of a call behind a chain of calls. -/
structure Sound (c : SettingsClass ω) (calls : List (Entries Value)) (updates : Entries Value) :
    Prop where
  /-- A call that fails says what is invalid, unless a check has stumbled. -/
  fails {e : Failure} (h : c.update (c.after calls) updates = .error e) :
    (e.category = .validation ↔ ¬c.Stumbles (c.after calls) updates) ∧
      c.after (calls ++ [updates]) = c.after calls
  stumbles (h : c.Stumbles (c.after calls) updates) :
    ∃ f, c.update (c.after calls) updates = .error (.fault f)
  /-- A call that is accepted changes the fields that it names, and no others. -/
  changes {o : ω} (h : c.update (c.after calls) updates = .ok o) :
    (∀ name, updates.get? name = none → c.get? name o = c.get? name (c.after calls)) ∧
      ∀ f ∈ c.fields, ∀ given, updates.get? f.name = some given →
        ∃ v, c.get? f.name o = some v ∧ f.kind.Stores given v
  /-- What it gives is in its range wherever it is of its kind. -/
  ranges {o : ω} (h : c.update (c.after calls) updates = .ok o) :
    ∀ f ∈ c.fields, ∀ v, c.get? f.name o = some v → f.kind.Admits v → f.range v
  /-- What it gives can be used exactly if all is of its kind. -/
  usable_iff {o : ω} (h : c.update (c.after calls) updates = .ok o) : c.Usable o ↔ c.Typed o
  /-- Where all calls give values of the declared kinds, the call fails only because something is
  invalid, and what it gives can be used. -/
  typed (hcalls : ∀ call ∈ calls, c.TypedCall call) (hcall : c.TypedCall updates) :
    (∀ e, c.update (c.after calls) updates = .error e → e.category = .validation) ∧
      ∀ o, c.update (c.after calls) updates = .ok o → c.Usable o
  /-- So it is where the values have been read from JSON. -/
  read (hcalls : ∀ call ∈ calls, c.ReadCall call) (hcall : c.ReadCall updates) :
    (∀ e, c.update (c.after calls) updates = .error e → e.category = .validation) ∧
      ∀ o, c.update (c.after calls) updates = .ok o → c.Usable o

/-- **What one call does, a chain of calls does.** -/
theorem Lawful.sound (hc : c.Lawful) (calls : List (Entries Value)) (updates : Entries Value) :
    c.Sound calls updates where
  fails {e} h := by
    constructor
    · rw [← hc.stumbles]
      constructor
      · rintro hvalid ⟨f, hf⟩
        obtain rfl := Except.error.inj (h.symm.trans hf)
        cases hvalid
      · intro hsteady
        rcases hc.invalid _ _ e h with ⟨f, rfl⟩ | hvalid
        · exact absurd ⟨f, h⟩ hsteady
        · exact hvalid
    · have hcall : c.call (c.after calls) updates = c.after calls := by rw [call, h]
      rw [after, List.foldl_append]
      exact hcall
  stumbles h := (hc.stumbles _ _).2 h
  changes h := ⟨fun _ => hc.keeps h, fun _ hf _ => hc.stores h hf⟩
  ranges h _ hf _ := hc.range h hf
  usable_iff h := hc.usable_iff h
  typed := hc.usable_of_typedCall
  read hcalls hcall :=
    hc.usable_of_typedCall (fun call h => (hcalls call h).typedCall) hcall.typedCall

end SettingsClass

end MdxPages
