import MdxPages.Cli.Settings
import MdxPages.Proofs.Results
import MdxPages.Proofs.Value

/-!
# Proofs/Cli/Settings — settings that a check cannot be made on

An update of settings is refused where a check finds a value that is no valid setting, but a check
also stumbles where a value is of a kind that it cannot be made on, and where the refusal is to show
a whole number of more digits than can be written.  Which comes first decides
(`ConversionOptions.faulty_update_iff`, `RenderOptions.faulty_update_iff`,
`ArchiveOptions.faulty_update_iff`); over all stages it is the first one that is not accepted
(`faulty_settings_iff`).
-/

namespace MdxPages

variable {updates : Entries Value} {v : Value}

/-- What is said about invalid settings. -/
def IsInvalid (e : Failure) : Prop :=
  (∃ f, e = .fault f) ∨ e.category = .validation

/-! ## Names -/

/-- Updates of nothing but known names. -/
def OnlyKnown (known : List String) (updates : Entries Value) : Prop :=
  updates.has ownName = false ∧ unknownNames known updates = []

/-- Names are accepted if all of them are known. -/
theorem refuseUnknown_eq_ok_iff {settings : String} {known : List String} :
    refuseUnknown settings known updates = .ok () ↔ OnlyKnown known updates := by
  unfold refuseUnknown OnlyKnown
  cases updates.has ownName with
  | true => simp
  | false => cases unknownNames known updates <;> simp

/-- An update of the settings under their own name is not refused but a fault. -/
theorem faulty_refuseUnknown {settings : String} {known : List String} :
    Faulty (refuseUnknown settings known updates) ↔ updates.has ownName = true := by
  unfold refuseUnknown
  cases updates.has ownName with
  | true => simp [Faulty]
  | false => cases unknownNames known updates <;> simp [Faulty]

theorem invalid_refuseUnknown {settings : String} {known : List String} :
    FailsOnly IsInvalid (refuseUnknown settings known updates) := by
  unfold refuseUnknown
  refine .ite (.error (.inl ⟨_, rfl⟩)) ?_
  split
  · exact .ok _
  · exact .error (.inr rfl)

/-! ## Refusals

A refusal shows the value that is refused.  Where that has no text, because a whole number in it has
too many digits, there is a fault instead. -/

/-- A value that can be shown is refused as it should be. -/
theorem refusing_eq {refusal : Failure} (h : v.isWritable = true) : refusing v refusal = refusal :=
  if_pos h

/-- A refusal is a fault where the value cannot be shown. -/
theorem faulty_refusing {α : Type} {refusal : Failure} (h : refusal.category = .validation) :
    Faulty (.error (refusing v refusal) : Except Failure α) ↔ v.isWritable = false := by
  rw [faulty_error, refusing]
  cases v.isWritable with
  | true => simpa using fun f hf => nomatch h.symm.trans (congrArg Failure.category hf)
  | false => simp

theorem invalid_refusing {refusal : Failure} (h : refusal.category = .validation) :
    IsInvalid (refusing v refusal) := by
  unfold refusing
  split
  · exact .inr h
  · exact .inl ⟨_, rfl⟩

/-- The numbers that cannot be shown are whole ones. -/
theorem isWritable_eq_false_of_number? {n : Number} (hn : v.number? = some n) :
    v.isWritable = false ↔ ∃ i, v = .int i ∧ ¬Number.Writable i := by
  cases v with
  | num n =>
    cases n with
    | int i => simp [Value.isWritable, Number.isWritable, Number.Writable]
    | float x => simp [Value.isWritable, Number.isWritable]
  | bool b => simp [Value.isWritable]
  | foreign x =>
    cases x with
    | long i => simp [Value.isWritable, Foreign.isWritable]
    | other | bytes | code | collection => cases hn
  | null | str | arr | obj => cases hn

/-! ## Conversion

The checks come in a fixed order, and the first one that does not pass decides.  So `Stumbles` has a
constructor for each check, which asks for the checks before it to be passed. -/

namespace ConversionOptions

/-- A value that cannot be taken for a depth or refused as one: it is no number, or a whole number
that cannot be shown, which is out of bounds. -/
def NotADepth (v : Value) : Prop :=
  v.number? = none ∨ ∃ i, v = .int i ∧ ¬Number.Writable i

theorem faulty_checkHeadingDepth : Faulty (checkHeadingDepth v) ↔ NotADepth v := by
  unfold checkHeadingDepth NotADepth
  cases hn : v.number? with
  | none => simp [Faulty]
  | some n =>
    rw [← isWritable_eq_false_of_number? hn]
    dsimp only
    split
    · next hbounds =>
      refine iff_of_false (not_faulty_ok _) fun h => ?_
      obtain h | h := h
      · cases h
      · obtain ⟨i, rfl, hi⟩ := (isWritable_eq_false_of_number? hn).1 h
        obtain rfl := Option.some.inj hn
        rw [Number.le_int, Number.le_int, Bool.and_eq_true, decide_eq_true_iff,
          decide_eq_true_iff] at hbounds
        exact hi (Number.writable_of_lt (by omega))
    · rw [faulty_refusing rfl]
      simp

/-- The check of an extension looks into a text, and stumbles over all else. -/
theorem faulty_checkExtension : Faulty (checkExtension v) ↔ ∀ s, v ≠ .str s := by
  unfold checkExtension
  split
  · split <;> simp [Faulty]
  · simp [Faulty]
  · next h _ => simpa [Faulty] using h

/-- A value whose members can be asked for. -/
def HasMembers (v : Value) : Prop :=
  (∃ s, v = .str s) ∨ (∃ items, v = .arr items) ∨ (∃ fields, v = .obj fields) ∨
    ∃ kind texts isEmpty shown?, v = .foreign (.collection kind texts isEmpty shown?)

/-- The folder of images is looked into for members, unless it is left out. -/
theorem faulty_checkImagesDirectory :
    Faulty (checkImagesDirectory v) ↔ v.isGiven = true ∧ ¬HasMembers v := by
  unfold checkImagesDirectory HasMembers
  cases h : v.isGiven with
  | false => simp [Faulty]
  | true =>
    dsimp only
    rw [if_neg (by decide)]
    split
    · split <;> simp [Faulty]
    · split <;> simp [Faulty]
    · split <;> simp [Faulty]
    · split <;> simp [Faulty]
    · next hs hi hf hc =>
      refine iff_of_true ⟨_, rfl⟩ ⟨rfl, ?_⟩
      rintro (⟨_, h⟩ | ⟨_, h⟩ | ⟨_, h⟩ | ⟨_, _, _, _, h⟩)
      · exact hs _ h
      · exact hi _ h
      · exact hf _ h
      · exact hc _ _ _ _ h

/-- A value whose items can be listed. -/
def HasItems (v : Value) : Prop :=
  HasMembers v ∨ ∃ data, v = .foreign (.bytes 0 data)

/-- Names of directives are listed from a value with items. -/
theorem faulty_directiveNames : Faulty (directiveNames v) ↔ ¬HasItems v := by
  unfold directiveNames HasItems HasMembers
  split
  · simp [Faulty]
  · simp [Faulty]
  · simp [Faulty]
  · simp [Faulty]
  · simp [Faulty]
  · next hi hs hf hb hc =>
    refine iff_of_true ⟨_, rfl⟩ ?_
    rintro ((⟨_, h⟩ | ⟨_, h⟩ | ⟨_, h⟩ | ⟨_, _, _, _, h⟩) | ⟨_, h⟩)
    · exact hs _ h
    · exact hi _ h
    · exact hf _ h
    · exact hc _ _ _ _ h
    · exact hb _ h

variable {o : ConversionOptions}

/-- Updates that a check cannot be made on, all checks before it having been passed. -/
inductive Stumbles (o : ConversionOptions) (updates : Entries Value) : Prop
  | self (h : updates.has ownName = true)
  | depth (hknown : OnlyKnown names updates)
      (h : NotADepth (updated updates "max_heading_depth" o.maxHeadingDepth))
  | extension (hknown : OnlyKnown names updates)
      (hdepth : checkHeadingDepth (updated updates "max_heading_depth" o.maxHeadingDepth) = .ok ())
      (h : ∀ s, updated updates "fragment_extension" (.str o.fragmentExtension) ≠ .str s)
  | images {extension : String} (hknown : OnlyKnown names updates)
      (hdepth : checkHeadingDepth (updated updates "max_heading_depth" o.maxHeadingDepth) = .ok ())
      (hextension : checkExtension
        (updated updates "fragment_extension" (.str o.fragmentExtension)) = .ok extension)
      (hgiven : (updated updates "images_dir_name" o.imagesDirName).isGiven = true)
      (h : ¬HasMembers (updated updates "images_dir_name" o.imagesDirName))
  | directives {extension : String} {v : Value} (hknown : OnlyKnown names updates)
      (hdepth : checkHeadingDepth (updated updates "max_heading_depth" o.maxHeadingDepth) = .ok ())
      (hextension : checkExtension
        (updated updates "fragment_extension" (.str o.fragmentExtension)) = .ok extension)
      (himages : checkImagesDirectory (updated updates "images_dir_name" o.imagesDirName) = .ok ())
      (hget : updates.get? "dropped_empty_directives" = some v) (h : ¬HasItems v)

/-- **An update stumbles where a check cannot be made**, and nowhere else. -/
theorem faulty_update_iff : Faulty (o.update updates) ↔ o.Stumbles updates := by
  simp only [update, faulty_bind, faulty_refuseUnknown, faulty_checkHeadingDepth,
    faulty_checkExtension, faulty_checkImagesDirectory]
  constructor
  · rintro (h | ⟨⟨⟩, hknown, h | ⟨⟨⟩, hdepth, h | ⟨extension, hextension, ⟨hgiven, h⟩ |
      ⟨⟨⟩, himages, h⟩⟩⟩⟩)
    · exact .self h
    · exact .depth (refuseUnknown_eq_ok_iff.1 hknown) h
    · exact .extension (refuseUnknown_eq_ok_iff.1 hknown) hdepth h
    · exact .images (refuseUnknown_eq_ok_iff.1 hknown) hdepth hextension hgiven h
    · split at h
      · exact absurd h (not_faulty_ok _)
      · next v hget =>
        obtain h | ⟨directives, -, h⟩ := faulty_bind.1 h
        · exact .directives (refuseUnknown_eq_ok_iff.1 hknown) hdepth hextension himages hget
            (faulty_directiveNames.1 h)
        · exact absurd h (not_faulty_ok _)
  · intro h
    cases h with
    | self h => exact .inl h
    | depth hknown h => exact .inr ⟨(), refuseUnknown_eq_ok_iff.2 hknown, .inl h⟩
    | extension hknown hdepth h =>
      exact .inr ⟨(), refuseUnknown_eq_ok_iff.2 hknown, .inr ⟨(), hdepth, .inl h⟩⟩
    | images hknown hdepth hextension hgiven h =>
      exact .inr ⟨(), refuseUnknown_eq_ok_iff.2 hknown, .inr ⟨(), hdepth,
        .inr ⟨_, hextension, .inl ⟨hgiven, h⟩⟩⟩⟩
    | directives hknown hdepth hextension himages hget h =>
      refine .inr ⟨(), refuseUnknown_eq_ok_iff.2 hknown, .inr ⟨(), hdepth,
        .inr ⟨_, hextension, .inr ⟨(), himages, ?_⟩⟩⟩⟩
      rw [hget]
      exact faulty_bind.2 (.inl (faulty_directiveNames.2 h))

/-- An update fails in no other way than by a fault or an invalid setting. -/
theorem invalid_update : FailsOnly IsInvalid (o.update updates) := by
  refine invalid_refuseUnknown.bind fun _ => FailsOnly.bind ?_ fun _ => FailsOnly.bind ?_ fun _ =>
    FailsOnly.bind ?_ fun _ => ?_
  · unfold checkHeadingDepth
    split
    · exact .error (.inl ⟨_, rfl⟩)
    · exact .ite (.ok _) (.error (invalid_refusing rfl))
  · unfold checkExtension
    split
    · exact .ite (.ok _) (.error (.inr rfl))
    · exact .error (.inl ⟨_, rfl⟩)
    · exact .error (.inl ⟨_, rfl⟩)
  · unfold checkImagesDirectory
    refine .ite (.error (.inr rfl)) ?_
    split
    · exact .ite (.error (.inr rfl)) (.ok _)
    · exact .ite (.error (.inr rfl)) (.ok _)
    · exact .ite (.error (.inr rfl)) (.ok _)
    · exact .ite (.error (.inr rfl)) (.ok _)
    · exact .error (.inl ⟨_, rfl⟩)
  · split
    · exact .ok _
    · refine FailsOnly.bind ?_ fun _ => .ok _
      unfold directiveNames
      split
      · exact .ok _
      · exact .ok _
      · exact .ok _
      · exact .ok _
      · exact .ok _
      · exact .error (.inl ⟨_, rfl⟩)

end ConversionOptions

/-! ## Rendering -/

namespace RenderOptions

variable {o : RenderOptions} {updates : Entries Value}

/-! A marker is one of a few texts, and all else is refused.  So a check stumbles only over what its
refusal cannot show, which no text is. -/

/-- A bullet that is refused has to be shown in the refusal. -/
theorem faulty_bulletOf : Faulty (bulletOf v) ↔ v.isWritable = false := by
  unfold bulletOf
  split
  · simp [Faulty, Value.isWritable]
  · simp [Faulty, Value.isWritable]
  · simp [Faulty, Value.isWritable]
  · exact faulty_refusing rfl

theorem faulty_emphasisOf : Faulty (emphasisOf v) ↔ v.isWritable = false := by
  unfold emphasisOf
  split
  · simp [Faulty, Value.isWritable]
  · simp [Faulty, Value.isWritable]
  · exact faulty_refusing rfl

theorem faulty_strongOf : Faulty (strongOf v) ↔ v.isWritable = false := by
  unfold strongOf
  split
  · simp [Faulty, Value.isWritable]
  · simp [Faulty, Value.isWritable]
  · exact faulty_refusing rfl

theorem invalid_bulletOf : FailsOnly IsInvalid (bulletOf v) := by
  unfold bulletOf
  split
  · exact .ok _
  · exact .ok _
  · exact .ok _
  · exact .error (invalid_refusing rfl)

theorem invalid_emphasisOf : FailsOnly IsInvalid (emphasisOf v) := by
  unfold emphasisOf
  split
  · exact .ok _
  · exact .ok _
  · exact .error (invalid_refusing rfl)

theorem invalid_strongOf : FailsOnly IsInvalid (strongOf v) := by
  unfold strongOf
  split
  · exact .ok _
  · exact .ok _
  · exact .error (invalid_refusing rfl)

/-- Updates of which a marker is refused that cannot be shown, all markers before it having been
accepted. -/
inductive Stumbles (o : RenderOptions) (updates : Entries Value) : Prop
  | self (h : updates.has ownName = true)
  | bullet (hknown : OnlyKnown names updates)
      (h : (updated updates "bullet_marker" (.str o.bullet.text)).isWritable = false)
  | emphasis {bullet : BulletMarker} (hknown : OnlyKnown names updates)
      (hbullet : bulletOf (updated updates "bullet_marker" (.str o.bullet.text)) = .ok bullet)
      (h : (updated updates "emphasis_marker" (.str o.emphasis.emphasis)).isWritable = false)
  | strong {bullet : BulletMarker} {emphasis : Delimiter} (hknown : OnlyKnown names updates)
      (hbullet : bulletOf (updated updates "bullet_marker" (.str o.bullet.text)) = .ok bullet)
      (hemphasis : emphasisOf (updated updates "emphasis_marker" (.str o.emphasis.emphasis)) =
        .ok emphasis)
      (h : (updated updates "strong_marker" (.str o.strong.strong)).isWritable = false)

/-- **An update stumbles where a marker cannot be shown**, and nowhere else. -/
theorem faulty_update_iff : Faulty (o.update updates) ↔ o.Stumbles updates := by
  simp only [update, faulty_bind, faulty_refuseUnknown, faulty_bulletOf, faulty_emphasisOf,
    faulty_strongOf]
  constructor
  · rintro (h | ⟨⟨⟩, hknown, h | ⟨bullet, hbullet, h | ⟨emphasis, hemphasis, h | ⟨_, -, h⟩⟩⟩⟩)
    · exact .self h
    · exact .bullet (refuseUnknown_eq_ok_iff.1 hknown) h
    · exact .emphasis (refuseUnknown_eq_ok_iff.1 hknown) hbullet h
    · exact .strong (refuseUnknown_eq_ok_iff.1 hknown) hbullet hemphasis h
    · exact absurd h (not_faulty_ok _)
  · intro h
    cases h with
    | self h => exact .inl h
    | bullet hknown h => exact .inr ⟨(), refuseUnknown_eq_ok_iff.2 hknown, .inl h⟩
    | emphasis hknown hbullet h =>
      exact .inr ⟨(), refuseUnknown_eq_ok_iff.2 hknown, .inr ⟨_, hbullet, .inl h⟩⟩
    | strong hknown hbullet hemphasis h =>
      exact .inr ⟨(), refuseUnknown_eq_ok_iff.2 hknown, .inr ⟨_, hbullet,
        .inr ⟨_, hemphasis, .inl h⟩⟩⟩

theorem invalid_update : FailsOnly IsInvalid (o.update updates) :=
  invalid_refuseUnknown.bind fun _ => invalid_bulletOf.bind fun _ => invalid_emphasisOf.bind
    fun _ => invalid_strongOf.bind fun _ => .ok _

end RenderOptions

/-! ## Archives

The limits are checked one by one.  One that is not positive is refused with its value in the
message; a value that is no number is not refused but a fault. -/

namespace ArchiveOptions

variable {o : ArchiveOptions} {name : String}

/-- A value that cannot be taken for a limit or refused as one: it is no number, or a whole number
below zero that cannot be shown. -/
def NotALimit (v : Value) : Prop :=
  v.number? = none ∨ ∃ i ≤ 0, v = .int i ∧ ¬Number.Writable i

/-- A limit has to be a number, and can be refused only if it can be shown. -/
theorem faulty_checkLimit : Faulty (checkLimit name v) ↔ NotALimit v := by
  unfold checkLimit NotALimit
  cases hn : v.number? with
  | none => simp [Faulty]
  | some n =>
    dsimp only
    rw [or_iff_right (by simp)]
    split
    · next hle =>
      rw [faulty_refusing rfl, isWritable_eq_false_of_number? hn]
      constructor
      · rintro ⟨i, rfl, hi⟩
        obtain rfl := Option.some.inj hn
        exact ⟨i, by simpa [Number.le_int] using hle, rfl, hi⟩
      · rintro ⟨i, -, hi⟩
        exact ⟨i, hi⟩
    · next hle =>
      refine iff_of_false (not_faulty_ok _) ?_
      rintro ⟨i, hi, rfl, -⟩
      obtain rfl := Option.some.inj hn
      exact hle (by simpa [Number.le_int] using hi)

theorem invalid_checkLimit : FailsOnly IsInvalid (checkLimit name v) := by
  unfold checkLimit
  split
  · exact .error (.inl ⟨_, rfl⟩)
  · exact .ite (.error (invalid_refusing rfl)) (.ok _)

/-- Updates that a check cannot be made on, all checks before it having been passed. -/
inductive Stumbles (o : ArchiveOptions) (updates : Entries Value) : Prop
  | self (h : updates.has ownName = true)
  | entries (hknown : OnlyKnown names updates)
      (h : NotALimit (updated updates "max_entries" o.maxEntries))
  | ratio (hknown : OnlyKnown names updates)
      (hentries : checkLimit "max_entries" (updated updates "max_entries" o.maxEntries) = .ok ())
      (h : NotALimit (updated updates "max_compression_ratio" o.maxCompressionRatio))
  | size (hknown : OnlyKnown names updates)
      (hentries : checkLimit "max_entries" (updated updates "max_entries" o.maxEntries) = .ok ())
      (hratio : checkLimit "max_compression_ratio"
        (updated updates "max_compression_ratio" o.maxCompressionRatio) = .ok ())
      (h : NotALimit (updated updates "max_uncompressed_size" o.maxUncompressedSize))

/-- **An update stumbles where a limit is no number or cannot be refused**, and nowhere else. -/
theorem faulty_update_iff : Faulty (o.update updates) ↔ o.Stumbles updates := by
  simp only [update, faulty_bind, faulty_refuseUnknown, faulty_checkLimit]
  constructor
  · rintro (h | ⟨⟨⟩, hknown, h | ⟨⟨⟩, hentries, h | ⟨⟨⟩, hratio, h | ⟨⟨⟩, -, h⟩⟩⟩⟩)
    · exact .self h
    · exact .entries (refuseUnknown_eq_ok_iff.1 hknown) h
    · exact .ratio (refuseUnknown_eq_ok_iff.1 hknown) hentries h
    · exact .size (refuseUnknown_eq_ok_iff.1 hknown) hentries hratio h
    · exact absurd h (not_faulty_ok _)
  · intro h
    cases h with
    | self h => exact .inl h
    | entries hknown h => exact .inr ⟨(), refuseUnknown_eq_ok_iff.2 hknown, .inl h⟩
    | ratio hknown hentries h =>
      exact .inr ⟨(), refuseUnknown_eq_ok_iff.2 hknown, .inr ⟨(), hentries, .inl h⟩⟩
    | size hknown hentries hratio h =>
      exact .inr ⟨(), refuseUnknown_eq_ok_iff.2 hknown, .inr ⟨(), hentries,
        .inr ⟨(), hratio, .inl h⟩⟩⟩

theorem invalid_update : FailsOnly IsInvalid (o.update updates) :=
  invalid_refuseUnknown.bind fun _ => invalid_checkLimit.bind fun _ => invalid_checkLimit.bind
    fun _ => invalid_checkLimit.bind fun _ => .ok _

end ArchiveOptions

/-! ## All settings

The stages are made in turn, and the first one that is not accepted ends the work. -/

namespace Cli

variable {config : Configuration} {values : Entries Value} {name : String} {stage : Stage}

/-- A section that has a key which is no text. -/
def Misnamed (config : Configuration) (name : String) : Prop :=
  (∃ fields, config.table.get? name = some (.obj fields)) ∧ name ∈ config.misnamed

/-- A section stumbles over keys that are no texts. -/
theorem faulty_fieldsOf : Faulty (config.fieldsOf name) ↔ Misnamed config name := by
  unfold Configuration.fieldsOf Misnamed
  split
  · next h => simp [Faulty, h]
  · next fields h => split <;> simp_all [Faulty]
  · next v hv h => simp_all [Faulty]

theorem invalid_fieldsOf : FailsOnly IsInvalid (config.fieldsOf name) := by
  unfold Configuration.fieldsOf
  split
  · exact .ok _
  · exact .ite (.error (.inl ⟨_, rfl⟩)) (.ok _)
  · exact .error (.inr rfl)

/-- The updates of a stage stumble where its section does, whatever flags and variables give. -/
theorem faulty_updatesOf :
    Faulty (updatesOf stage config values) ↔ Misnamed config stage.name := by
  rw [updatesOf, faulty_bind, faulty_fieldsOf]
  exact or_iff_left fun ⟨_, _, h⟩ => not_faulty_ok _ h

theorem invalid_updatesOf : FailsOnly IsInvalid (updatesOf stage config values) :=
  invalid_fieldsOf.bind fun _ => .ok _

/-- A stage that is given something which a check of its settings cannot be made on. -/
def Stage.Stumbles (stage : Stage) (config : Configuration) (values : Entries Value) : Prop :=
  Misnamed config stage.name ∨ ∃ updates, updatesOf stage config values = .ok updates ∧
    match stage with
    | .snooty => ConversionOptions.Stumbles {} updates
    | .mdx => RenderOptions.Stumbles {} updates
    | .archive => ArchiveOptions.Stumbles {} updates

/-- A stage whose settings are all valid. -/
def Stage.Accepts (stage : Stage) (config : Configuration) (values : Entries Value) : Prop :=
  ∃ updates, updatesOf stage config values = .ok updates ∧
    match stage with
    | .snooty => ∃ o, ConversionOptions.update {} updates = .ok o
    | .mdx => ∃ o, RenderOptions.update {} updates = .ok o
    | .archive => ∃ o, ArchiveOptions.update {} updates = .ok o

/-- Settings of which a check cannot be made, all stages before it having been accepted. -/
def SettingsStumble (config : Configuration) (values : Entries Value) : Prop :=
  Stage.snooty.Stumbles config values ∨
    Stage.snooty.Accepts config values ∧ (Stage.mdx.Stumbles config values ∨
      Stage.mdx.Accepts config values ∧ Stage.archive.Stumbles config values)

/-- **Settings stumble at the first stage that is not accepted**, or do not stumble. -/
theorem faulty_settings_iff :
    Faulty (settings config values) ↔ SettingsStumble config values := by
  simp only [SettingsStumble, settings, faulty_bind, faulty_updatesOf,
    ConversionOptions.faulty_update_iff, RenderOptions.faulty_update_iff,
    ArchiveOptions.faulty_update_iff, Stage.Stumbles, Stage.Accepts]
  constructor
  · rintro (h | ⟨u, hu, h | ⟨o, ho, h | ⟨u', hu', h | ⟨o', ho', h | ⟨u₂, hu₂, h | ⟨o₂, -, h⟩⟩⟩⟩⟩⟩)
    · exact .inl (.inl h)
    · exact .inl (.inr ⟨u, hu, h⟩)
    · exact .inr ⟨⟨u, hu, o, ho⟩, .inl (.inl h)⟩
    · exact .inr ⟨⟨u, hu, o, ho⟩, .inl (.inr ⟨u', hu', h⟩)⟩
    · exact .inr ⟨⟨u, hu, o, ho⟩, .inr ⟨⟨u', hu', o', ho'⟩, .inl h⟩⟩
    · exact .inr ⟨⟨u, hu, o, ho⟩, .inr ⟨⟨u', hu', o', ho'⟩, .inr ⟨u₂, hu₂, h⟩⟩⟩
    · exact absurd h (not_faulty_ok _)
  · rintro ((h | ⟨u, hu, h⟩) | ⟨⟨u, hu, o, ho⟩, (h | ⟨u', hu', h⟩) |
      ⟨⟨u', hu', o', ho'⟩, h | ⟨u₂, hu₂, h⟩⟩⟩)
    · exact .inl h
    · exact .inr ⟨u, hu, .inl h⟩
    · exact .inr ⟨u, hu, .inr ⟨o, ho, .inl h⟩⟩
    · exact .inr ⟨u, hu, .inr ⟨o, ho, .inr ⟨u', hu', .inl h⟩⟩⟩
    · exact .inr ⟨u, hu, .inr ⟨o, ho, .inr ⟨u', hu', .inr ⟨o', ho', .inl h⟩⟩⟩⟩
    · exact .inr ⟨u, hu, .inr ⟨o, ho, .inr ⟨u', hu', .inr ⟨o', ho', .inr ⟨u₂, hu₂, .inl h⟩⟩⟩⟩⟩

/-- Settings that cannot be made are explained as invalid, or there is a fault. -/
theorem invalid_settings : FailsOnly IsInvalid (settings config values) := by
  refine invalid_updatesOf.bind fun _ => ConversionOptions.invalid_update.bind fun _ => ?_
  refine invalid_updatesOf.bind fun _ => RenderOptions.invalid_update.bind fun _ => ?_
  exact invalid_updatesOf.bind fun _ => ArchiveOptions.invalid_update.bind fun _ => .ok _

end Cli

end MdxPages
