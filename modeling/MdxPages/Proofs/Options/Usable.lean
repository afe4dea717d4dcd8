import MdxPages.Proofs.Options.Declared
import MdxPages.Proofs.Value

/-!
# Proofs/Options/Usable — which settings can be used once they have been accepted

The settings of the conversion, of the MDX text and of archives as they are declared.  Each class
checks the ranges of all its fields in every call (`lawful_settings`), so that **what it accepts can
be used exactly if it is of the declared kinds** (`settings_sound`).
-/

namespace MdxPages

/-! ## Settings of the conversion

Of the six fields all but the list of directives are stored as they are given. -/

namespace ConversionOptions

variable {o o' : ConversionOptions} {updates : Entries Value}

/-- The extension of fragments starts with a point. -/
def extensionField : DeclaredField :=
  ⟨"fragment_extension", .text, fun v => ∃ s, v = .str s ∧ Text.startsWith s "." = true⟩

/-- The path of a page whose path is unknown. -/
def importerField : DeclaredField :=
  ⟨"default_importer_path", .text, fun _ => True⟩

/-- The deepest heading is of a level from 1 to 6. -/
def depthField : DeclaredField :=
  ⟨"max_heading_depth", .whole, fun v => ∃ i, v = .int i ∧ 1 ≤ i ∧ i ≤ 6⟩

/-- The images directory is one segment of a path. -/
def imagesField : DeclaredField :=
  ⟨"images_dir_name", .text, fun v => ∃ s, v = .str s ∧ s ≠ "" ∧ '/' ∉ s.toList⟩

/-- The names of the directives that are dropped where they are empty. -/
def directivesField : DeclaredField :=
  ⟨"dropped_empty_directives", .texts, fun _ => True⟩

/-- Whether cycles of includes are looked for. -/
def cyclesField : DeclaredField :=
  ⟨"detect_include_cycles", .flag, fun _ => True⟩

/-- The settings of the conversion, as they are declared. -/
def settings : SettingsClass ConversionOptions where
  defaults := {}
  update := update
  held := toValue
  fields :=
    [extensionField, importerField, depthField, imagesField, directivesField, cyclesField]
  Stumbles := Stumbles

/-- What an accepted call makes of settings. -/
structure Accepted (o : ConversionOptions) (updates : Entries Value) (o' : ConversionOptions) :
    Prop where
  depth : o'.maxHeadingDepth = updated updates "max_heading_depth" o.maxHeadingDepth
  depthChecked : checkHeadingDepth o'.maxHeadingDepth = .ok ()
  extension :
    checkExtension (updated updates "fragment_extension" (.str o.fragmentExtension)) =
      .ok o'.fragmentExtension
  images : o'.imagesDirName = updated updates "images_dir_name" o.imagesDirName
  imagesChecked : checkImagesDirectory o'.imagesDirName = .ok ()
  directives :
    (updates.get? "dropped_empty_directives").elim (.ok o.droppedEmptyDirectives)
      directiveNames = .ok o'.droppedEmptyDirectives
  importer :
    o'.defaultImporterPath = updated updates "default_importer_path" o.defaultImporterPath
  cycles :
    o'.detectIncludeCycles = updated updates "detect_include_cycles" o.detectIncludeCycles

/-- An accepted call has passed all checks. -/
theorem accepted_of_update (h : o.update updates = .ok o') : Accepted o updates o' := by
  have h := exists_of_refuseUnknown h
  obtain ⟨⟨⟩, hdepth, h⟩ := exists_of_bind h
  obtain ⟨extension, hextension, h⟩ := exists_of_bind h
  obtain ⟨⟨⟩, himages, h⟩ := exists_of_bind h
  cases hget : updates.get? "dropped_empty_directives" with
  | none =>
    rw [hget] at h
    obtain rfl := Except.ok.inj h
    exact ⟨rfl, hdepth, hextension, rfl, himages, by rw [hget]; rfl, rfl, rfl⟩
  | some given =>
    rw [hget] at h
    obtain ⟨directives, hdirectives, h⟩ := exists_of_bind h
    obtain rfl := Except.ok.inj h
    exact ⟨rfl, hdepth, hextension, rfl, himages, by rw [hget]; exact hdirectives, rfl, rfl⟩

/-- An extension is kept as it is given. -/
theorem eq_of_checkExtension {v : Value} {s : String} (h : checkExtension v = .ok s) :
    v = .str s ∧ Text.startsWith s "." = true := by
  unfold checkExtension at h
  split at h
  · split at h
    · next hstart =>
      obtain rfl := Except.ok.inj h
      exact ⟨rfl, hstart⟩
    · cases h
  · cases h
  · cases h

/-- Each field moves as its kind says. -/
theorem moves_of_update (h : o.update updates = .ok o') {f : DeclaredField}
    (hf : f ∈ settings.fields) : ∃ present held, settings.get? f.name o = some present ∧
      settings.get? f.name o' = some held ∧ f.kind.Moves (updates.get? f.name) present held := by
  obtain ⟨hdepth, -, hextension, himages, -, hdirectives, himporter, hcycles⟩ :=
    accepted_of_update h
  simp only [settings, List.mem_cons, List.not_mem_nil, or_false] at hf
  rcases hf with rfl | rfl | rfl | rfl | rfl | rfl
  · exact ⟨_, _, rfl, rfl, DeclaredKind.moves_of_updated (fun _ _ => id)
      (eq_of_checkExtension hextension).1.symm⟩
  · exact ⟨_, _, rfl, rfl, DeclaredKind.moves_of_updated (fun _ _ => id) himporter⟩
  · exact ⟨_, _, rfl, rfl, DeclaredKind.moves_of_updated (fun _ _ => id) hdepth⟩
  · exact ⟨_, _, rfl, rfl, DeclaredKind.moves_of_updated (fun _ _ => id) himages⟩
  · refine ⟨_, _, rfl, rfl, ?_⟩
    rw [directivesField]
    cases hgiven : updates.get? "dropped_empty_directives" with
    | none =>
      rw [hgiven] at hdirectives
      exact congrArg Value.arr (Except.ok.inj hdirectives).symm
    | some given =>
      rw [hgiven] at hdirectives
      exact ⟨_, hdirectives, rfl⟩
  · exact ⟨_, _, rfl, rfl, DeclaredKind.moves_of_updated (fun _ _ => id) hcycles⟩

/-- A whole number is a depth from 1 to 6. -/
theorem checkHeadingDepth_int {i : Int} :
    checkHeadingDepth (.int i) = .ok () ↔ 1 ≤ i ∧ i ≤ 6 := by
  have hnumber : (Value.int i).number? = some (.int i) := rfl
  rw [checkHeadingDepth, hnumber]
  simp [Number.le_int]

/-- A text is an images directory if it is one segment. -/
theorem checkImagesDirectory_str {s : String} :
    checkImagesDirectory (.str s) = .ok () ↔ s ≠ "" ∧ '/' ∉ s.toList := by
  by_cases hempty : s = ""
  · simp [checkImagesDirectory, Value.isGiven, hempty]
  · by_cases hslash : '/' ∈ s.toList
    · simp [checkImagesDirectory, Value.isGiven, hempty, hslash]
    · simp [checkImagesDirectory, Value.isGiven, hempty, hslash]

/-- After an accepted call each field of its kind is in its range. -/
theorem range_of_update (h : o.update updates = .ok o') {f : DeclaredField}
    (hf : f ∈ settings.fields) {v : Value} (hv : settings.get? f.name o' = some v)
    (hkind : f.kind.Admits v) : f.range v := by
  obtain ⟨-, hdepth, hextension, -, himages, -, -, -⟩ := accepted_of_update h
  simp only [settings, List.mem_cons, List.not_mem_nil, or_false] at hf
  rcases hf with rfl | rfl | rfl | rfl | rfl | rfl
  · obtain rfl := Option.some.inj hv
    exact ⟨_, rfl, (eq_of_checkExtension hextension).2⟩
  · exact trivial
  · obtain rfl : o'.maxHeadingDepth = v := Option.some.inj hv
    obtain ⟨i, hi⟩ := hkind
    rw [hi] at hdepth ⊢
    exact ⟨i, rfl, checkHeadingDepth_int.1 hdepth⟩
  · obtain rfl : o'.imagesDirName = v := Option.some.inj hv
    obtain ⟨s, hs⟩ := hkind
    rw [hs] at himages ⊢
    exact ⟨s, rfl, checkImagesDirectory_str.1 himages⟩
  · exact trivial
  · exact trivial

/-- **A check stumbles over no value of the kind that is declared for it.** -/
theorem steady (ho : settings.Shows o) (hcall : settings.TypedCall updates) :
    ¬o.Stumbles updates := by
  intro h
  rcases h with h | ⟨-, h⟩ | ⟨-, -, h⟩ | ⟨-, -, -, -, h⟩ | ⟨-, -, -, -, hget, h⟩
  · rw [hcall.1] at h
    cases h
  · have hmem : depthField ∈ settings.fields := by simp [settings]
    obtain ⟨⟨i, hi⟩, hwritable⟩ := SettingsClass.shows_updated ho hcall hmem rfl
    rw [hi] at hwritable
    obtain h | ⟨j, hj, hlong⟩ := h
    · cases (congrArg Value.number? hi).symm.trans h
    · obtain rfl : i = j := by simpa using hi.symm.trans hj
      exact hlong (Value.isWritable_int.1 hwritable)
  · have hmem : extensionField ∈ settings.fields := by simp [settings]
    obtain ⟨⟨s, hs⟩, -⟩ := SettingsClass.shows_updated ho hcall hmem rfl
    exact h s hs
  · have hmem : imagesField ∈ settings.fields := by simp [settings]
    obtain ⟨⟨s, hs⟩, -⟩ := SettingsClass.shows_updated ho hcall hmem rfl
    exact h (.inl ⟨s, hs⟩)
  · have hmem : directivesField ∈ settings.fields := by simp [settings]
    obtain ⟨⟨ss, rfl⟩, -⟩ := hcall.2 _ hmem _ hget
    exact h (.inl (.inr (.inl ⟨_, rfl⟩)))

/-- The settings of the conversion are lawful. -/
theorem lawful_settings : settings.Lawful where
  defaults := by
    intro f hf
    simp only [settings, List.mem_cons, List.not_mem_nil, or_false] at hf
    rcases hf with rfl | rfl | rfl | rfl | rfl | rfl
    · exact ⟨_, rfl, ⟨_, rfl⟩, _, rfl, by decide⟩
    · exact ⟨_, rfl, ⟨_, rfl⟩, trivial⟩
    · exact ⟨_, rfl, ⟨_, rfl⟩, _, rfl, by decide⟩
    · exact ⟨_, rfl, ⟨_, rfl⟩, _, rfl, by decide⟩
    · exact ⟨_, rfl, ⟨["toctree", "index", "seealso"], rfl⟩, trivial⟩
    · exact ⟨_, rfl, ⟨_, rfl⟩, trivial⟩
  shows := by
    intro f hf
    simp only [settings, List.mem_cons, List.not_mem_nil, or_false] at hf
    rcases hf with rfl | rfl | rfl | rfl | rfl | rfl
    · exact ⟨_, rfl, ⟨_, rfl⟩, rfl⟩
    · exact ⟨_, rfl, ⟨_, rfl⟩, rfl⟩
    · exact ⟨_, rfl, ⟨_, rfl⟩, Value.isWritable_int.2 (Number.writable_of_lt (by decide))⟩
    · exact ⟨_, rfl, ⟨_, rfl⟩, rfl⟩
    · exact ⟨_, rfl, ⟨["toctree", "index", "seealso"], rfl⟩, rfl⟩
    · exact ⟨_, rfl, ⟨_, rfl⟩, rfl⟩
  names _ := rfl
  invalid _ _ := invalid_update
  stumbles _ _ := faulty_update_iff
  steady := steady
  moves h _ hf := moves_of_update h hf
  range h _ hf _ := range_of_update h hf

end ConversionOptions

/-! ## Settings of the MDX text

The markers are chosen from a few, and the checks accept nothing else.  So they are of their kinds
however they came there. -/

namespace RenderOptions

variable {o o' : RenderOptions} {updates : Entries Value}

/-- The marker of list items. -/
def bulletField : DeclaredField :=
  ⟨"bullet_marker", .text, fun v => v ∈ [.str "-", .str "*", .str "+"]⟩

/-- The marker of emphasis. -/
def emphasisField : DeclaredField :=
  ⟨"emphasis_marker", .text, fun v => v ∈ [.str "*", .str "_"]⟩

/-- The marker of strong emphasis. -/
def strongField : DeclaredField :=
  ⟨"strong_marker", .text, fun v => v ∈ [.str "**", .str "__"]⟩

/-- Whether texts are escaped. -/
def escapeField : DeclaredField :=
  ⟨"escape_text", .flag, fun _ => True⟩

/-- The settings of the MDX text, as they are declared. -/
def settings : SettingsClass RenderOptions where
  defaults := {}
  update := update
  held := toValue
  fields := [bulletField, emphasisField, strongField, escapeField]
  Stumbles := Stumbles

/-- A bullet is accepted for its text. -/
theorem eq_of_bulletOf {v : Value} {marker : BulletMarker} (h : bulletOf v = .ok marker) :
    v = .str marker.text := by
  unfold bulletOf at h
  split at h
  · rw [← Except.ok.inj h]
    rfl
  · rw [← Except.ok.inj h]
    rfl
  · rw [← Except.ok.inj h]
    rfl
  · cases h

theorem eq_of_emphasisOf {v : Value} {marker : Delimiter} (h : emphasisOf v = .ok marker) :
    v = .str marker.emphasis := by
  unfold emphasisOf at h
  split at h
  · rw [← Except.ok.inj h]
    rfl
  · rw [← Except.ok.inj h]
    rfl
  · cases h

theorem eq_of_strongOf {v : Value} {marker : Delimiter} (h : strongOf v = .ok marker) :
    v = .str marker.strong := by
  unfold strongOf at h
  split at h
  · rw [← Except.ok.inj h]
    rfl
  · rw [← Except.ok.inj h]
    rfl
  · cases h

/-- What an accepted call makes of settings. -/
structure Accepted (o : RenderOptions) (updates : Entries Value) (o' : RenderOptions) : Prop where
  bullet : updated updates "bullet_marker" (.str o.bullet.text) = .str o'.bullet.text
  emphasis : updated updates "emphasis_marker" (.str o.emphasis.emphasis) =
    .str o'.emphasis.emphasis
  strong : updated updates "strong_marker" (.str o.strong.strong) = .str o'.strong.strong
  escape : updated updates "escape_text" o.escapeText = o'.escapeText

theorem accepted_of_update (h : o.update updates = .ok o') : Accepted o updates o' := by
  have h := exists_of_refuseUnknown h
  obtain ⟨bullet, hbullet, h⟩ := exists_of_bind h
  obtain ⟨emphasis, hemphasis, h⟩ := exists_of_bind h
  obtain ⟨strong, hstrong, h⟩ := exists_of_bind h
  obtain rfl := Except.ok.inj h
  exact ⟨eq_of_bulletOf hbullet, eq_of_emphasisOf hemphasis, eq_of_strongOf hstrong, rfl⟩

theorem moves_of_update (h : o.update updates = .ok o') {f : DeclaredField}
    (hf : f ∈ settings.fields) : ∃ present held, settings.get? f.name o = some present ∧
      settings.get? f.name o' = some held ∧ f.kind.Moves (updates.get? f.name) present held := by
  obtain ⟨hbullet, hemphasis, hstrong, hescape⟩ := accepted_of_update h
  simp only [settings, List.mem_cons, List.not_mem_nil, or_false] at hf
  rcases hf with rfl | rfl | rfl | rfl
  · exact ⟨_, _, rfl, rfl, DeclaredKind.moves_of_updated (fun _ _ => id) hbullet.symm⟩
  · exact ⟨_, _, rfl, rfl, DeclaredKind.moves_of_updated (fun _ _ => id) hemphasis.symm⟩
  · exact ⟨_, _, rfl, rfl, DeclaredKind.moves_of_updated (fun _ _ => id) hstrong.symm⟩
  · exact ⟨_, _, rfl, rfl, DeclaredKind.moves_of_updated (fun _ _ => id) hescape.symm⟩

/-- The markers of settings are among their choices, whatever has been called. -/
theorem range_of_get? (o : RenderOptions) {f : DeclaredField} (hf : f ∈ settings.fields) {v : Value}
    (hv : settings.get? f.name o = some v) : f.range v := by
  simp only [settings, List.mem_cons, List.not_mem_nil, or_false] at hf
  rcases hf with rfl | rfl | rfl | rfl
  · obtain rfl : Value.str o.bullet.text = v := Option.some.inj hv
    cases o.bullet <;> simp [bulletField, BulletMarker.text]
  · obtain rfl : Value.str o.emphasis.emphasis = v := Option.some.inj hv
    cases o.emphasis <;> simp [emphasisField, Delimiter.emphasis]
  · obtain rfl : Value.str o.strong.strong = v := Option.some.inj hv
    cases o.strong <;> simp [strongField, Delimiter.strong]
  · exact trivial

/-- **A check stumbles over no marker of a call whose values can be shown.** -/
theorem steady (ho : settings.Shows o) (hcall : settings.TypedCall updates) :
    ¬o.Stumbles updates := by
  intro h
  rcases h with h | ⟨-, h⟩ | ⟨-, -, h⟩ | ⟨-, -, -, h⟩
  · exact Bool.false_ne_true (hcall.1.symm.trans h)
  · have hmem : bulletField ∈ settings.fields := by simp [settings]
    exact Bool.false_ne_true
      (h.symm.trans (SettingsClass.shows_updated ho hcall hmem rfl).2)
  · have hmem : emphasisField ∈ settings.fields := by simp [settings]
    exact Bool.false_ne_true
      (h.symm.trans (SettingsClass.shows_updated ho hcall hmem rfl).2)
  · have hmem : strongField ∈ settings.fields := by simp [settings]
    exact Bool.false_ne_true
      (h.symm.trans (SettingsClass.shows_updated ho hcall hmem rfl).2)

/-- The settings of the MDX text are lawful. -/
theorem lawful_settings : settings.Lawful where
  defaults := by
    intro f hf
    have hrange := fun v => @range_of_get? {} f hf v
    simp only [settings, List.mem_cons, List.not_mem_nil, or_false] at hf
    rcases hf with rfl | rfl | rfl | rfl
    · exact ⟨_, rfl, ⟨_, rfl⟩, hrange _ rfl⟩
    · exact ⟨_, rfl, ⟨_, rfl⟩, hrange _ rfl⟩
    · exact ⟨_, rfl, ⟨_, rfl⟩, hrange _ rfl⟩
    · exact ⟨_, rfl, ⟨_, rfl⟩, hrange _ rfl⟩
  shows := by
    intro f hf
    simp only [settings, List.mem_cons, List.not_mem_nil, or_false] at hf
    rcases hf with rfl | rfl | rfl | rfl
    · exact ⟨_, rfl, ⟨_, rfl⟩, rfl⟩
    · exact ⟨_, rfl, ⟨_, rfl⟩, rfl⟩
    · exact ⟨_, rfl, ⟨_, rfl⟩, rfl⟩
    · exact ⟨_, rfl, ⟨_, rfl⟩, rfl⟩
  names _ := rfl
  invalid _ _ := invalid_update
  stumbles _ _ := faulty_update_iff
  steady := steady
  moves h _ hf := moves_of_update h hf
  range _ _ hf _ hv _ := range_of_get? _ hf hv

end RenderOptions

/-! ## Limits of archives

A limit is compared with zero.  For a number that is none the comparison is false either way, so
not-a-number passes the check. -/

namespace Number

/-- A number that is a quotient compares with zero as its numerator does. -/
theorem compare_zero {n : Number} {a : Int} {b : Nat} (h : n.ratio? = some (a, b)) :
    n.compare (.int 0) = some (Ord.compare a 0) ∧ (int 0).compare n = some (Ord.compare 0 a) := by
  have hzero : (int 0).ratio? = some (0, 1) := rfl
  constructor
  · delta Number.compare
    rw [h, hzero]
    simp
  · delta Number.compare
    rw [h, hzero]
    simp

/-- A quotient that is not at most zero is greater. -/
theorem zero_lt_of_ratio? {n : Number} {a : Int} {b : Nat} (hratio : n.ratio? = some (a, b))
    (h : n.le (.int 0) = false) : (int 0).lt n = true := by
  obtain ⟨hle, hlt⟩ := compare_zero hratio
  rw [le, hle] at h
  have hpos : 0 < a := by
    rw [← Int.compare_eq_gt]
    cases hcompare : Ord.compare a 0 with
    | gt => rfl
    | lt | eq =>
      rw [hcompare] at h
      cases h
  rw [lt, hlt, Int.compare_eq_lt.2 hpos]
  rfl

/-- What is not at most zero is greater, but for not-a-number. -/
theorem zero_lt_of_not_le {n : Number} (hn : n ≠ .float .nan) (h : n.le (.int 0) = false) :
    (int 0).lt n = true := by
  rcases n with i | ⟨negative, mantissa, exponent⟩ | negative | _
  · exact zero_lt_of_ratio? rfl h
  · exact zero_lt_of_ratio? rfl h
  · cases negative with
    | false => rfl
    | true => cases h
  · exact absurd rfl hn

end Number

namespace ArchiveOptions

variable {o o' : ArchiveOptions} {updates : Entries Value}

/-- Positive numbers. -/
def Positive (v : Value) : Prop :=
  ∃ n, v = .num n ∧ (Number.int 0).lt n = true

/-- How many entries there may be. -/
def entriesField : DeclaredField :=
  ⟨"max_entries", .whole, Positive⟩

/-- How far the entries may have been compressed. -/
def ratioField : DeclaredField :=
  ⟨"max_compression_ratio", .number, Positive⟩

/-- How many bytes the entries may hold. -/
def sizeField : DeclaredField :=
  ⟨"max_uncompressed_size", .whole, Positive⟩

/-- Whether assets are extracted. -/
def assetsField : DeclaredField :=
  ⟨"extract_assets", .flag, fun _ => True⟩

/-- The limits of archives, as they are declared. -/
def settings : SettingsClass ArchiveOptions where
  defaults := {}
  update := update
  held := toValue
  fields := [entriesField, ratioField, sizeField, assetsField]
  Stumbles := Stumbles

/-- What an accepted call makes of limits. -/
structure Accepted (o : ArchiveOptions) (updates : Entries Value) (o' : ArchiveOptions) :
    Prop where
  entries : o'.maxEntries = updated updates "max_entries" o.maxEntries
  entriesChecked : checkLimit "max_entries" o'.maxEntries = .ok ()
  ratio : o'.maxCompressionRatio = updated updates "max_compression_ratio" o.maxCompressionRatio
  ratioChecked : checkLimit "max_compression_ratio" o'.maxCompressionRatio = .ok ()
  size : o'.maxUncompressedSize = updated updates "max_uncompressed_size" o.maxUncompressedSize
  sizeChecked : checkLimit "max_uncompressed_size" o'.maxUncompressedSize = .ok ()
  assets : o'.extractAssets = updated updates "extract_assets" o.extractAssets

theorem accepted_of_update (h : o.update updates = .ok o') : Accepted o updates o' := by
  have h := exists_of_refuseUnknown h
  obtain ⟨⟨⟩, hentries, h⟩ := exists_of_bind h
  obtain ⟨⟨⟩, hratio, h⟩ := exists_of_bind h
  obtain ⟨⟨⟩, hsize, h⟩ := exists_of_bind h
  obtain rfl := Except.ok.inj h
  exact ⟨rfl, hentries, rfl, hratio, rfl, hsize, rfl⟩

/-- A limit that has been checked is positive, if it is a number at all. -/
theorem positive_of_checkLimit {name : String} {n : Number} (hn : n ≠ .float .nan)
    (h : checkLimit name (.num n) = .ok ()) : Positive (.num n) := by
  have hnumber : (Value.num n).number? = some n := rfl
  rw [checkLimit, hnumber] at h
  dsimp only at h
  split at h
  · cases h
  · next hle => exact ⟨n, rfl, Number.zero_lt_of_not_le hn (Bool.not_eq_true _ ▸ hle)⟩

theorem moves_of_update (h : o.update updates = .ok o') {f : DeclaredField}
    (hf : f ∈ settings.fields) : ∃ present held, settings.get? f.name o = some present ∧
      settings.get? f.name o' = some held ∧ f.kind.Moves (updates.get? f.name) present held := by
  obtain ⟨hentries, -, hratio, -, hsize, -, hassets⟩ := accepted_of_update h
  simp only [settings, List.mem_cons, List.not_mem_nil, or_false] at hf
  rcases hf with rfl | rfl | rfl | rfl
  · exact ⟨_, _, rfl, rfl, DeclaredKind.moves_of_updated (fun _ _ => id) hentries⟩
  · exact ⟨_, _, rfl, rfl, DeclaredKind.moves_of_updated (fun _ _ => id) hratio⟩
  · exact ⟨_, _, rfl, rfl, DeclaredKind.moves_of_updated (fun _ _ => id) hsize⟩
  · exact ⟨_, _, rfl, rfl, DeclaredKind.moves_of_updated (fun _ _ => id) hassets⟩

theorem range_of_update (h : o.update updates = .ok o') {f : DeclaredField}
    (hf : f ∈ settings.fields) {v : Value} (hv : settings.get? f.name o' = some v)
    (hkind : f.kind.Admits v) : f.range v := by
  obtain ⟨-, hentries, -, hratio, -, hsize, -⟩ := accepted_of_update h
  have hwhole {name : String} (h : checkLimit name v = .ok ()) (hv : ∃ i, v = .int i) :
      Positive v := by
    obtain ⟨i, rfl⟩ := hv
    exact positive_of_checkLimit (fun heq => nomatch heq) h
  simp only [settings, List.mem_cons, List.not_mem_nil, or_false] at hf
  rcases hf with rfl | rfl | rfl | rfl
  · obtain rfl : o'.maxEntries = v := Option.some.inj hv
    exact hwhole hentries hkind
  · obtain rfl : o'.maxCompressionRatio = v := Option.some.inj hv
    obtain ⟨n, hnumber, hn⟩ := hkind
    rw [hnumber] at hratio ⊢
    exact positive_of_checkLimit hn hratio
  · obtain rfl : o'.maxUncompressedSize = v := Option.some.inj hv
    exact hwhole hsize hkind
  · exact trivial

/-- A number that can be shown is a limit, or refused as one. -/
theorem not_notALimit {kind : DeclaredKind} {v : Value} (h : kind.Shows v)
    (hkind : kind = .whole ∨ kind = .number) : ¬NotALimit v := by
  obtain ⟨hadmits, hwritable⟩ := h
  rintro (hnone | ⟨i, -, rfl, hlong⟩)
  · rcases hkind with rfl | rfl
    · obtain ⟨i, rfl⟩ := hadmits
      cases hnone
    · obtain ⟨n, rfl, -⟩ := hadmits
      cases hnone
  · exact hlong (Value.isWritable_int.1 hwritable)

/-- **A check stumbles over no limit that is a number and can be shown.** -/
theorem steady (ho : settings.Shows o) (hcall : settings.TypedCall updates) :
    ¬o.Stumbles updates := by
  intro h
  rcases h with h | ⟨-, h⟩ | ⟨-, -, h⟩ | ⟨-, -, -, h⟩
  · exact Bool.false_ne_true (hcall.1.symm.trans h)
  · have hmem : entriesField ∈ settings.fields := by simp [settings]
    exact not_notALimit (SettingsClass.shows_updated ho hcall hmem rfl) (.inl rfl) h
  · have hmem : ratioField ∈ settings.fields := by simp [settings]
    exact not_notALimit (SettingsClass.shows_updated ho hcall hmem rfl) (.inr rfl) h
  · have hmem : sizeField ∈ settings.fields := by simp [settings]
    exact not_notALimit (SettingsClass.shows_updated ho hcall hmem rfl) (.inl rfl) h

/-- The limits of archives are lawful. -/
theorem lawful_settings : settings.Lawful where
  defaults := by
    intro f hf
    simp only [settings, List.mem_cons, List.not_mem_nil, or_false] at hf
    rcases hf with rfl | rfl | rfl | rfl
    · exact ⟨_, rfl, ⟨_, rfl⟩, _, rfl, by decide⟩
    · exact ⟨_, rfl, ⟨_, rfl, by decide⟩, _, rfl, by decide⟩
    · exact ⟨_, rfl, ⟨_, rfl⟩, _, rfl, by decide⟩
    · exact ⟨_, rfl, ⟨_, rfl⟩, trivial⟩
  shows := by
    intro f hf
    simp only [settings, List.mem_cons, List.not_mem_nil, or_false] at hf
    rcases hf with rfl | rfl | rfl | rfl
    · exact ⟨_, rfl, ⟨_, rfl⟩, Value.isWritable_int.2 (Number.writable_of_lt (by decide))⟩
    · exact ⟨_, rfl, ⟨_, rfl, by decide⟩, rfl⟩
    · exact ⟨_, rfl, ⟨_, rfl⟩, Value.isWritable_int.2 (Number.writable_of_lt (by decide))⟩
    · exact ⟨_, rfl, ⟨_, rfl⟩, rfl⟩
  names _ := rfl
  invalid _ _ := invalid_update
  stumbles _ _ := faulty_update_iff
  steady := steady
  moves h _ hf := moves_of_update h hf
  range h _ hf _ := range_of_update h hf

end ArchiveOptions

/-! ## Calls with a depth

The depth of a heading is a whole number from one to six. -/

/-- A depth is of its declared kind if it is a whole number that is not too long. -/
theorem typedCall_depth {i : Int} (hi : i.natAbs < 10000000000) :
    ConversionOptions.settings.TypedCall [("max_heading_depth", .int i)] := by
  have hmem : ConversionOptions.depthField ∈ ConversionOptions.settings.fields := by
    simp [ConversionOptions.settings]
  exact SettingsClass.typedCall_single (by decide) hmem (by decide)
    ⟨⟨i, rfl⟩, Value.isWritable_int.2 (Number.writable_of_lt hi)⟩

/-- A depth of nine is refused, whatever the other settings are. -/
theorem update_depth_nine (o : ConversionOptions) :
    ConversionOptions.settings.update o [("max_heading_depth", .int 9)] =
      .error (.headingDepth "9") := by
  have hrefused : ConversionOptions.checkHeadingDepth (.int 9) = .error (.headingDepth "9") := by
    change Except.error (refusing (.int 9) (.headingDepth "9")) = _
    rw [refusing_eq (Value.isWritable_int.2 (Number.writable_of_lt (by decide)))]
  have hgiven : updated [("max_heading_depth", .int 9)] "max_heading_depth" o.maxHeadingDepth =
    .int 9 := rfl
  change ConversionOptions.update _ _ = _
  rw [ConversionOptions.update, refuseUnknown_single (by decide) (by decide)]
  simp only [bind, Except.bind]
  rw [hgiven, hrefused]

/-- The depth of the first of two calls stays if the second one is refused. -/
theorem after_depths :
    ConversionOptions.settings.after
        [[("max_heading_depth", .int 3)], [("max_heading_depth", .int 9)]] =
      { maxHeadingDepth := .int 3 } := by
  have hupdate : ConversionOptions.settings.update {} [("max_heading_depth", .int 3)] =
      .ok { maxHeadingDepth := .int 3 } := by
    change ConversionOptions.update _ _ = _
    rw [ConversionOptions.update, refuseUnknown_single (by decide) (by decide)]
    rfl
  have hfirst : ConversionOptions.settings.call {} [("max_heading_depth", .int 3)] =
      { maxHeadingDepth := .int 3 } := by
    rw [SettingsClass.call, hupdate]
  have hsecond : ConversionOptions.settings.call { maxHeadingDepth := .int 3 }
      [("max_heading_depth", .int 9)] = { maxHeadingDepth := .int 3 } := by
    rw [SettingsClass.call, update_depth_nine]
  rw [SettingsClass.after, List.foldl_cons, List.foldl_cons, List.foldl_nil]
  exact (congrArg (ConversionOptions.settings.call · _) hfirst).trans hsecond

/-! ## All classes -/

/-- **Accepted settings of every class can be used exactly if their values are of the declared
kinds**, after whatever calls; calls with values of these kinds fail only because something is
invalid. -/
theorem settings_sound (calls : List (Entries Value)) (updates : Entries Value) :
    ConversionOptions.settings.Sound calls updates ∧ RenderOptions.settings.Sound calls updates ∧
      ArchiveOptions.settings.Sound calls updates :=
  ⟨ConversionOptions.lawful_settings.sound calls updates,
    RenderOptions.lawful_settings.sound calls updates,
    ArchiveOptions.lawful_settings.sound calls updates⟩

/-- A depth, another one that is refused, and then a list of directives. -/
theorem settings_sound_chain :
    ∃ calls o, calls = [[("max_heading_depth", .int 3)], [("max_heading_depth", .int 9)]] ∧
      (∀ call ∈ calls, ConversionOptions.settings.TypedCall call) ∧
      ConversionOptions.settings.update (ConversionOptions.settings.after calls)
        [("dropped_empty_directives", .arr [.str "toctree"])] = .ok o ∧
      o.maxHeadingDepth = .int 3 ∧ ConversionOptions.settings.Usable o := by
  have hdirectives : ConversionOptions.settings.TypedCall
      [("dropped_empty_directives", .arr [.str "toctree"])] := by
    have hmem : ConversionOptions.directivesField ∈ ConversionOptions.settings.fields := by
      simp [ConversionOptions.settings]
    exact SettingsClass.typedCall_single (by decide) hmem (by decide) ⟨⟨["toctree"], rfl⟩, rfl⟩
  have hcalls : ∀ call ∈ [[("max_heading_depth", Value.int 3)], [("max_heading_depth", .int 9)]],
      ConversionOptions.settings.TypedCall call := by
    simp [typedCall_depth]
  have hupdate : ConversionOptions.settings.update { maxHeadingDepth := .int 3 }
      [("dropped_empty_directives", .arr [.str "toctree"])] =
        .ok { maxHeadingDepth := .int 3, droppedEmptyDirectives := [.str "toctree"] } := by
    change ConversionOptions.update _ _ = _
    rw [ConversionOptions.update, refuseUnknown_single (by decide) (by decide)]
    rfl
  rw [← after_depths] at hupdate
  exact ⟨_, _, rfl, hcalls, hupdate, rfl,
    ((settings_sound _ _).1.typed hcalls hdirectives).2 _ hupdate⟩

/-- **Values of other kinds**: a text for a depth makes the check stumble, and a list for the name
of a directory is accepted. -/
theorem mistyped_settings :
    (∃ e, ConversionOptions.settings.update {} [("max_heading_depth", .str "3")] = .error e ∧
      e.category ≠ .validation) ∧
    ∃ o, ConversionOptions.settings.update {} [("images_dir_name", .arr [.str "images"])] = .ok o ∧
      ¬ConversionOptions.settings.Usable o := by
  constructor
  · refine ⟨.fault (.notComparable "int" "str"), ?_, by decide⟩
    change ConversionOptions.update {} _ = _
    rw [ConversionOptions.update, refuseUnknown_single (by decide) (by decide)]
    rfl
  · refine ⟨{ imagesDirName := .arr [.str "images"] }, ?_, fun husable => ?_⟩
    · change ConversionOptions.update {} _ = _
      rw [ConversionOptions.update, refuseUnknown_single (by decide) (by decide)]
      rfl
    · have hmem : ConversionOptions.imagesField ∈ ConversionOptions.settings.fields := by
        simp [ConversionOptions.settings]
      obtain ⟨v, hv, ⟨s, rfl⟩, -⟩ := husable _ hmem
      cases hv

end MdxPages
