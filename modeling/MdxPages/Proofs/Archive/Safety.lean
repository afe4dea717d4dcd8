import MdxPages.Archive.Safety
import MdxPages.Proofs.Disk.Reach
import MdxPages.Proofs.Path.Segments
import MdxPages.Proofs.Results
import MdxPages.Text.Space

/-!
# Proofs/Archive/Safety — where the names of an archive and the keys of assets lead

A safe name leads into the folder that the location of the output stands for
(`exists_of_safePlace`).  The backslashes of a key count as slashes, a run of them as one.  A key
that is safe without more ado is safe when it is read so, and leads to the same place
(`safePlace_toPosix`): empty segments name nothing.
-/

namespace MdxPages.Archive

variable {d : Disk} {directory folder place : Place} {l : Location} {name : String}

/-- A place that lies in a folder starts with the names of the folder. -/
theorem prefix_of_liesIn (h : liesIn folder place = true) : folder <+: place := by
  simp only [liesIn, Bool.or_eq_true, beq_iff_eq, Bool.and_eq_true, List.isPrefixOf_iff_prefix] at h
  obtain rfl | ⟨-, h⟩ := h
  · exact List.prefix_refl _
  · exact h

/-- What makes a name safe. -/
theorem safePlace_eq_ok_iff :
    safePlace d directory l name = .ok place ↔
      namesDrive (slashed name) = false ∧
      (Location.ofString (slashed name)).isAbsolute = false ∧
      (Location.ofString (slashed name)).names.isEmpty = false ∧
      (Location.ofString (slashed name)).names.contains ".." = false ∧
      ∃ folder, d.resolve directory l = .ok folder ∧
        d.resolve folder ⟨0, (Location.ofString (slashed name)).names⟩ = .ok place ∧
        liesIn folder place = true := by
  unfold safePlace
  dsimp only
  constructor
  · intro h
    split at h
    · cases h
    next hdrive =>
    split at h
    · cases h
    next habsolute =>
    split at h
    · cases h
    next hnames =>
    split at h
    · cases h
    next hup =>
    obtain ⟨folder, hfolder, h⟩ := exists_of_bind_mapError h
    obtain ⟨place', hplace, h⟩ := exists_of_bind_mapError h
    split at h
    · next hlies =>
      obtain rfl := Except.ok.inj h
      exact ⟨by simpa using hdrive, by simpa using habsolute, by simpa using hnames,
        by simpa using hup, folder, hfolder, hplace, hlies⟩
    · cases h
  · rintro ⟨hdrive, habsolute, hnames, hup, folder, hfolder, hplace, hlies⟩
    rw [if_neg (Bool.eq_false_iff.1 hdrive), if_neg (Bool.eq_false_iff.1 habsolute),
      if_neg (Bool.eq_false_iff.1 hnames), if_neg (Bool.eq_false_iff.1 hup),
      bind_mapError_of_ok hfolder, bind_mapError_of_ok hplace]
    exact if_pos hlies

/-- **A safe place lies in the folder that the location of the output stands for**, with no link on
its way. -/
theorem exists_of_safePlace (hdirectory : d.Straight directory)
    (h : safePlace d directory l name = .ok place) :
    ∃ folder, d.resolve directory l = .ok folder ∧ folder <+: place ∧ d.Straight place := by
  obtain ⟨-, -, -, -, folder, hfolder, hplace, hlies⟩ := safePlace_eq_ok_iff.1 h
  exact ⟨folder, hfolder, prefix_of_liesIn hlies,
    Disk.straight_of_resolve (Disk.straight_of_resolve hdirectory hfolder) hplace⟩

end MdxPages.Archive

namespace MdxPages

namespace Text

/-- The pieces of a text after its first one, but for empty ones. -/
def laterPieces (p : Char → Bool) (cs : List Char) : List (List Char) :=
  (splitOn p cs).tail.filter fun piece => !piece.isEmpty

theorem splitOn_eq (p : Char → Bool) (cs : List Char) :
    splitOn p cs = (splitOn p cs).headD [] :: (splitOn p cs).tail := by
  cases h : splitOn p cs with
  | nil => exact absurd h (splitOn_ne_nil p cs)
  | cons piece pieces => rfl

/-- Texts with the same pieces, but for empty ones after the first. -/
structure SamePieces (p : Char → Bool) (cs ds : List Char) : Prop where
  first : (splitOn p cs).headD [] = (splitOn p ds).headD []
  later : laterPieces p cs = laterPieces p ds

namespace SamePieces

variable {p : Char → Bool} {c : Char} {cs ds : List Char}

theorem refl (p : Char → Bool) (cs : List Char) : SamePieces p cs cs :=
  ⟨rfl, rfl⟩

theorem trans {es : List Char} (h : SamePieces p cs ds) (h' : SamePieces p ds es) :
    SamePieces p cs es :=
  ⟨h.first.trans h'.first, h.later.trans h'.later⟩

/-- Texts with the same pieces are split into the same names. -/
theorem pieces (h : SamePieces p cs ds) :
    (splitOn p cs).filter (fun piece => !piece.isEmpty) =
      (splitOn p ds).filter fun piece => !piece.isEmpty := by
  have hlater := h.later
  rw [laterPieces, laterPieces] at hlater
  rw [splitOn_eq p cs, splitOn_eq p ds, List.filter_cons, List.filter_cons, h.first, hlater]

/-- A separator in front of both texts leaves the pieces as they are, but for an empty first one. -/
theorem separator (hc : p c = true) (h : SamePieces p cs ds) :
    SamePieces p (c :: cs) (c :: ds) := by
  constructor
  · simp [splitOn, hc]
  · simpa [laterPieces, splitOn, hc] using h.pieces

/-- A character in front of both texts grows the first piece of both. -/
theorem cons (h : SamePieces p cs ds) : SamePieces p (c :: cs) (c :: ds) := by
  cases hc : p c with
  | true => exact separator hc h
  | false =>
    have hcons (xs : List Char) :
        splitOn p (c :: xs) = (c :: (splitOn p xs).headD []) :: (splitOn p xs).tail := by
      rw [splitOn, hc, splitOn_eq p xs]
      rfl
    have hlater := h.later
    rw [laterPieces, laterPieces] at hlater
    constructor
    · rw [hcons, hcons, List.headD_cons, List.headD_cons, h.first]
    · rw [laterPieces, laterPieces, hcons, hcons, List.tail_cons, List.tail_cons, hlater]

/-- Two separators split like one. -/
theorem separators (hc : p c = true) : SamePieces p (c :: cs) (c :: c :: cs) := by
  constructor
  · simp [splitOn, hc]
  · simp [laterPieces, splitOn, hc]

end SamePieces

/-- **A run of characters that are all replaced by one separator splits a text like one of
them.** -/
theorem samePieces_collapse {p q : Char → Bool} {mark : Char} {f : Char → Char}
    (hf : ∀ c, q c = true → f c = mark) (hmark : f mark = mark) (hp : p mark = true)
    (cs : List Char) : SamePieces p ((collapse q mark cs).map f) (cs.map f) := by
  induction cs with
  | nil => exact ⟨rfl, rfl⟩
  | cons c cs ih =>
    cases hc : q c with
    | false => simpa [collapse_cons_of_neg hc] using ih.cons
    | true =>
      cases cs with
      | nil => simpa [collapse, hc, hf c hc, hmark] using SamePieces.refl p [mark]
      | cons d cs =>
        cases hd : q d with
        | false =>
          simpa [collapse.eq_def q mark (c :: d :: cs), hc, hd, hf c hc, hmark] using ih.cons
        | true =>
          rw [List.map_cons, hf d hd] at ih
          simpa [collapse, hc, hd, hf c hc, hf d hd] using ih.trans (SamePieces.separators hp)

/-- Collapsing runs of a character leaves the first character as it is, but for what is written for
the run. -/
theorem head?_map_collapse {q : Char → Bool} {mark : Char} {f : Char → Char}
    (hf : ∀ c, q c = true → f c = mark) (hmark : f mark = mark) (cs : List Char) :
    ((collapse q mark cs).map f).head? = (cs.map f).head? := by
  induction cs with
  | nil => rfl
  | cons c cs ih =>
    cases hc : q c with
    | false => simp [collapse_cons_of_neg hc]
    | true =>
      cases cs with
      | nil => simp [collapse, hc, hf c hc, hmark]
      | cons d cs =>
        cases hd : q d with
        | false => simp [collapse.eq_def q mark (c :: d :: cs), hc, hd, hf c hc, hmark]
        | true => simpa [collapse.eq_def q mark (c :: d :: cs), hc, hd, hf c hc, hf d hd] using ih

/-- What a text starts with is dropped before or after runs of other characters are collapsed. -/
theorem dropWhile_collapse {p q : Char → Bool} {mark : Char} (hpq : ∀ c, p c = true → q c = false)
    {cs : List Char} (h : ∀ c ∈ (cs.dropWhile p).head?, q c = false) :
    (collapse q mark cs).dropWhile p = collapse q mark (cs.dropWhile p) := by
  induction cs with
  | nil => rfl
  | cons c cs ih =>
    cases hc : p c with
    | true =>
      rw [List.dropWhile_cons_of_pos hc] at h ⊢
      simpa [collapse_cons_of_neg (hpq c hc), hc] using ih h
    | false =>
      have hq : q c = false := h c (by simp [hc])
      rw [List.dropWhile_cons_of_neg (by simp [hc]), collapse_cons_of_neg hq]
      simp [hc]

end Text

namespace Archive

variable {d d' : Disk} {directory place : Place} {l : Location} {path : String}

theorem ofList_beq_empty (piece : List Char) : (String.ofList piece == "") = piece.isEmpty := by
  cases piece with
  | nil => rfl
  | cons c cs => simp

/-- The names of a location are the segments of its text that are neither empty nor a point. -/
theorem names_ofString (s : String) :
    (Location.ofString s).names =
      (((Text.splitOn (· == '/') s.toList).filter fun piece => !piece.isEmpty).map
        String.ofList).filter fun name => name != "." := by
  rw [List.filter_map, List.filter_filter]
  simp only [Location.ofString, Path.segments, Text.split, List.filter_map]
  refine congrArg (List.map String.ofList) (List.filter_congr fun piece _ => ?_)
  rw [Function.comp_apply, Function.comp_apply, Path.isVoid, ofList_beq_empty, Bool.not_or,
    Bool.and_comm]
  rfl

theorem toList_slashed (name : String) :
    (slashed name).toList = name.toList.map fun c => if c == '\\' then '/' else c :=
  String.toList_ofList

/-- Relative names that have the same segments, and a drive or none, are safe alike. -/
theorem safePlace_congr {name name' : String} (h : safePlace d directory l name = .ok place)
    (hdrive : namesDrive (slashed name') = namesDrive (slashed name))
    (hslashes : (Location.ofString (slashed name')).slashes = 0)
    (hnames :
      (Location.ofString (slashed name')).names = (Location.ofString (slashed name)).names) :
    safePlace d directory l name' = .ok place := by
  rw [safePlace_eq_ok_iff] at h ⊢
  rw [hdrive, hnames, Location.isAbsolute, hslashes]
  exact ⟨h.1, rfl, h.2.2⟩

/-- A name stands for a drive if a colon is its second character. -/
theorem namesDrive_eq (name : String) : namesDrive name = (name.toList.tail.head? == some ':') := by
  rw [namesDrive]
  generalize name.toList = cs
  match cs with
  | [] | [_] => rfl
  | _ :: c :: _ => by_cases hc : c = ':' <;> simp [hc]

/-- A location is relative if its text does not start with a slash. -/
theorem slashes_ofString_eq_zero_iff (s : String) :
    (Location.ofString s).slashes = 0 ↔ s.toList.head? ≠ some '/' :=
  Path.leadingSlashes_eq_zero_iff s

/-- A name without a root has neither a slash nor a backslash in front. -/
theorem head?_slashed_ne_iff (name : String) :
    (slashed name).toList.head? ≠ some '/' ↔ Path.Unrooted name := by
  rw [toList_slashed, List.head?_map, Path.Unrooted]
  cases name.toList.head? with
  | none => simp
  | some c => by_cases hc : c = '\\' <;> simp [hc]

/-- A path without backslashes is written with slashes already. -/
theorem slashed_of_notMem (h : '\\' ∉ path.toList) : slashed path = path := by
  have hplain : ∀ c ∈ path.toList, (if c == '\\' then '/' else c) = c := fun c hc =>
    if_neg fun hslash : (c == '\\') = true => h (eq_of_beq hslash ▸ hc)
  rw [slashed, List.map_congr_left hplain, List.map_id', String.ofList_toList]

theorem if_backslash (c : Char) (h : (c == '\\') = true) : (if c == '\\' then '/' else c) = '/' :=
  if_pos h

/-- The names of a location are those that its path leads through. -/
theorem names_eq_named (path : String) : (Location.ofString path).names = Path.named path := rfl

theorem named_eq (path : String) :
    Path.named path =
      (((Text.splitOn (· == '/') path.toList).filter fun piece => !piece.isEmpty).map
        String.ofList).filter fun name => name != "." :=
  names_ofString path

/-- Backslashes count as slashes, whether a run of them is one or many. -/
theorem named_toPosix (name : String) :
    Path.named (Path.toPosix name) = Path.named (slashed name) := by
  have hcollapse : (slashed (Path.toPosix name)).toList =
      (Text.collapse (· == '\\') '/' name.toList).map fun c => if c == '\\' then '/' else c := by
    rw [toList_slashed, Path.toPosix, String.toList_ofList]
  rw [← slashed_of_notMem (Path.backslash_notMem_toPosix name), named_eq, named_eq, hcollapse,
    toList_slashed, (Text.samePieces_collapse if_backslash rfl rfl _).pieces]

/-- Collapsing the backslashes of a name neither makes a drive of it nor hides one. -/
theorem namesDrive_toPosix {name : String} (h : Path.Unrooted name) :
    namesDrive (Path.toPosix name) = namesDrive (slashed name) := by
  rw [← slashed_of_notMem (Path.backslash_notMem_toPosix name), namesDrive_eq, namesDrive_eq,
    toList_slashed, toList_slashed, Path.toPosix, String.toList_ofList]
  cases hname : name.toList with
  | nil => rfl
  | cons c cs =>
    have hc : (c == '\\') = false := by simpa using (h c (by simp [hname])).2
    rw [Text.collapse_cons_of_neg (q := (· == '\\')) hc]
    simpa using congrArg (· == some ':') (Text.head?_map_collapse if_backslash rfl cs)

/-- **A key that is safe is safe with its backslashes turned to slashes first**, and stands for the
same place. -/
theorem safePlace_toPosix {key : String}
    (h : safePlace d directory l (Text.stripLeading '/' key) = .ok place) :
    safePlace d directory l (Text.stripLeading '/' (Path.toPosix key)) = .ok place := by
  have hstart : (slashed (Text.stripLeading '/' key)).toList.head? ≠ some '/' := by
    rw [← slashes_ofString_eq_zero_iff]
    simpa [Location.isAbsolute] using (safePlace_eq_ok_iff.1 h).2.1
  have hunrooted : Path.Unrooted (Text.stripLeading '/' key) := (head?_slashed_ne_iff _).1 hstart
  have hstrip : Text.stripLeading '/' (Path.toPosix key) =
      Path.toPosix (Text.stripLeading '/' key) := by
    rw [← String.toList_inj, Text.toList_stripLeading, Path.toPosix, Path.toPosix,
      String.toList_ofList, String.toList_ofList, Text.toList_stripLeading]
    refine Text.dropWhile_collapse (fun c hc => ?_) fun c hc => ?_
    · rw [eq_of_beq hc]
      rfl
    · rw [← Text.toList_stripLeading] at hc
      simpa using (hunrooted c hc).2
  have hslashed := slashed_of_notMem (Path.backslash_notMem_toPosix (Text.stripLeading '/' key))
  rw [hstrip]
  refine safePlace_congr h ?_ ?_ ?_
  · rw [hslashed, namesDrive_toPosix hunrooted]
  · rw [hslashed, slashes_ofString_eq_zero_iff, ← Path.leadingSlashes_eq_zero_iff]
    exact hunrooted.leadingSlashes_eq_zero
  · rw [hslashed, names_eq_named, names_eq_named, named_toPosix]

end Archive
end MdxPages
