import MdxPages.Archive.Document
import MdxPages.Proofs.Archive.Safety

/-!
# Proofs/Archive/Naming — the paths of the files that entries are converted to

A path that leads inward (`Inward`) is safe in any folder below which there are no links, and names
the place where its names lead down from there (`Inward.safePlace_eq`).  The name of an entry that
passes the check leads inward (`inward_toPosix`), and so does the path of the page that is written
for it, which is another last name after the same names (`Inward.outputPath`).
-/

namespace MdxPages.Archive

variable {d : Disk} {directory folder : Place} {l : Location} {path : String} {e : Zip.Entry}

/-! ## Paths that lead inward

Whether a place is safe is asked of the disk, for a link may lead anywhere.  Of the path itself it
takes no more than what `Inward` says. -/

/-- A path that leads down from wherever it is taken: it is relative, and none of its names goes
up. -/
structure Inward (path : String) : Prop where
  drive : namesDrive path = false
  relative : path.toList.head? ≠ some '/'
  up : ".." ∉ Path.named path
  null : '\x00' ∉ path.toList
  back : '\\' ∉ path.toList

/-- The names of a path have no null byte if the path has none. -/
theorem hasNullByte_named (h : '\x00' ∉ path.toList) (slashes : Nat) :
    Disk.hasNullByte ⟨slashes, Path.named path⟩ = false := by
  rw [Disk.hasNullByte, List.any_eq_false]
  intro name hname hnull
  have hmem : name ∈ Path.segments path := (List.mem_filter.1 hname).1
  exact h (Text.mem_of_mem_split hmem _ (by simpa using hnull))

/-- **A path that leads inward is safe** if it has a name, and names the place where its names lead
down from the folder of the output. -/
theorem Inward.safePlace_eq (h : Inward path) (hnamed : Path.named path ≠ [])
    (hfolder : d.resolve directory l = .ok folder) (hroot : folder ≠ [])
    (hlink : ∀ p target, folder <+: p → p ≠ folder → d.at? p ≠ some (.link target)) :
    safePlace d directory l path = .ok (folder ++ Path.named path) := by
  have hwalk : d.walk false Disk.maxLinks folder (Path.named path) =
      .ok (folder ++ Path.named path) :=
    Disk.walk_eq_append h.up fun p target _ hp =>
      hlink _ target (List.prefix_append _ _) (by simpa using hp)
  have hplace : d.resolve folder ⟨0, Path.named path⟩ = .ok (folder ++ Path.named path) := by
    rw [Disk.resolve, hasNullByte_named h.null]
    simp [Disk.startOf, Location.isAbsolute, hwalk]
  have hlocation : Location.ofString path = ⟨0, Path.named path⟩ :=
    congrArg (Location.mk · _) ((slashes_ofString_eq_zero_iff _).2 h.relative)
  rw [safePlace_eq_ok_iff, slashed_of_notMem h.back, hlocation]
  refine ⟨h.drive, rfl, List.isEmpty_eq_false_iff.2 hnamed, by simpa using h.up, folder, hfolder,
    hplace, ?_⟩
  simp [liesIn, hroot]

/-! ## Names of entries -/

/-- What the check of a name makes sure of. -/
theorem checkName_eq_ok_iff :
    checkName e = .ok () ↔ namesDrive (slashed e.name) = false ∧ Path.Unrooted e.name ∧
      ".." ∉ Path.named (slashed e.name) := by
  have hstart : Text.startsWith (slashed e.name) "/" = false ↔ Path.Unrooted e.name := by
    rw [Text.startsWith_eq_head? (c := '/') rfl, ← Bool.not_eq_true, beq_iff_eq]
    exact head?_slashed_ne_iff e.name
  have hup : (Location.ofString (slashed e.name)).names.contains ".." = false ↔
      ".." ∉ Path.named (slashed e.name) := by
    rw [← Bool.not_eq_true, List.contains_iff_mem]
    rfl
  rw [← hstart, ← hup, checkName]
  split <;> simp_all

/-- **The name of an entry that passes the check leads inward.** -/
theorem inward_toPosix (h : checkName e = .ok ()) (hnull : '\x00' ∉ e.name.toList) :
    Inward (Path.toPosix e.name) := by
  obtain ⟨hdrive, hunrooted, hup⟩ := checkName_eq_ok_iff.1 h
  refine ⟨(namesDrive_toPosix hunrooted).trans hdrive, ?_, ?_, ?_, Path.backslash_notMem_toPosix _⟩
  · exact (Path.leadingSlashes_eq_zero_iff _).1 hunrooted.leadingSlashes_eq_zero
  · rwa [named_toPosix]
  · rw [Path.toPosix, String.toList_ofList]
    exact fun hmem => hnull ((Text.mem_of_mem_collapse hmem).resolve_right (by decide))

/-! ## Paths of pages -/

/-- A path is cut before a point and an ending without points, unless its last segment has nothing
but points before them. -/
theorem cutExtension_append {front ending : List Char} (h : ∀ c ∈ ending, c ≠ '.' ∧ c ≠ '/') :
    cutExtension (String.ofList (front ++ '.' :: ending)) =
      if (front.reverse.takeWhile (· != '/')).all (· == '.')
      then (String.ofList (front ++ '.' :: ending), "")
      else (String.ofList front, String.ofList ('.' :: ending)) := by
  have hback : (front ++ '.' :: ending).reverse = ending.reverse ++ '.' :: front.reverse := by simp
  have hending : ∀ c ∈ ending.reverse, (c != '.' && c != '/') = true := fun c hc => by
    simpa using h c (List.mem_reverse.1 hc)
  have htake : (ending.reverse ++ '.' :: front.reverse).takeWhile (fun c => c != '.' && c != '/') =
      ending.reverse := by
    rw [List.takeWhile_append_of_pos hending, List.takeWhile_cons_of_neg (by decide),
      List.append_nil]
  rw [cutExtension, String.toList_ofList, hback, htake, List.drop_left]
  simp only [List.reverse_reverse]

/-- The name of the page that is written for an entry: its extension is replaced, or stays if
nothing but points stands before it. -/
def pageName (stem extension : String) : String :=
  if stem.toList.all (· == '.') then stem ++ extension ++ ".mdx" else stem ++ ".mdx"

/-- The entries with these extensions hold pages. -/
def pageExtensions : List String := [bsonExtension, jsonExtension]

/-- An extension is a point and an ending without points and slashes. -/
theorem exists_of_mem_pageExtensions {extension : String} (h : extension ∈ pageExtensions) :
    ∃ ending, extension.toList = '.' :: ending ∧ ∀ c ∈ ending, c ≠ '.' ∧ c ≠ '/' := by
  obtain rfl | rfl : extension = bsonExtension ∨ extension = jsonExtension := by
    simpa [pageExtensions] using h
  · exact ⟨['b', 's', 'o', 'n'], rfl, by simp⟩
  · exact ⟨['j', 's', 'o', 'n'], rfl, by simp⟩

/-- **The page is written beside the entry**: only the last name changes. -/
theorem outputPath_append {above stem extension : String} (habove : Path.EndsFolder above)
    (hstem : '/' ∉ stem.toList) (hextension : extension ∈ pageExtensions)
    (hback : '\\' ∉ (above ++ stem ++ extension).toList) :
    outputPath (above ++ stem ++ extension) = above ++ pageName stem extension := by
  obtain ⟨ending, hending, hplain⟩ := exists_of_mem_pageExtensions hextension
  have hpath : above ++ stem ++ extension =
      String.ofList ((above ++ stem).toList ++ '.' :: ending) := by
    rw [String.ofList_append, String.ofList_toList, ← hending, String.ofList_toList]
  have hcut : cutExtension (above ++ stem ++ extension) =
      if stem.toList.all (· == '.') then (above ++ stem ++ extension, "")
      else (above ++ stem, extension) := by
    rw [hpath, cutExtension_append hplain, habove.takeWhile_reverse hstem, List.all_reverse,
      ← hpath, String.ofList_toList, ← hending, String.ofList_toList]
  have hpage : extension = bsonExtension ∨ extension = jsonExtension := by
    simpa [pageExtensions] using hextension
  rw [outputPath, Path.toPosix_of_notMem hback, hcut, pageName]
  by_cases hpoints : stem.toList.all (· == '.') = true
  · simp only [if_pos hpoints]
    rw [if_neg (by decide), ← String.append_assoc, ← String.append_assoc]
  · simp only [if_neg hpoints]
    rw [if_pos hpage, String.append_assoc]

/-- What a path starts with decides whether it names a drive, unless that is a single character. -/
theorem namesDrive_append {start s t : String} (hstart : start ≠ "")
    (hs : s.toList.head? ≠ some ':') (h : namesDrive (start ++ t) = false) :
    namesDrive (start ++ s) = false := by
  rw [namesDrive_eq, String.toList_append] at h ⊢
  match hcs : start.toList with
  | [] => exact absurd (String.toList_eq_nil_iff.1 hcs) hstart
  | [c] => simpa using hs
  | c :: d :: cs => simpa [hcs] using h

theorem head?_append_of_ne {start : String} (hstart : start ≠ "") (s : String) :
    (start ++ s).toList.head? = start.toList.head? := by
  rw [String.toList_append]
  match hcs : start.toList with
  | [] => exact absurd (String.toList_eq_nil_iff.1 hcs) hstart
  | c :: cs => rfl

/-- What follows the stem and a point in the name of an entry or a page. -/
def endings : List String := ["bson", "json", "mdx", "bson.mdx", "json.mdx"]

/-- No ending has a character that would make the name a path, a drive or a way up. -/
theorem plain_of_mem_endings : ∀ ending ∈ endings, ending.toList.head? ≠ some ':' ∧
    '/' ∉ ending.toList ∧ '\x00' ∉ ending.toList ∧ '\\' ∉ ending.toList ∧
      ∃ c ∈ ending.toList, c ≠ '.' := by
  simp [endings]

/-- A path that starts like one that leads inward, and ends like a page, leads inward as well. -/
theorem Inward.of_append {start s ending : String} (h : Inward (start ++ s)) (hstart : start ≠ "")
    (hending : ending ∈ endings) (hup : ".." ∉ Path.named (start ++ ending)) :
    Inward (start ++ ending) := by
  obtain ⟨hdrive, -, hnull, hback, -⟩ := plain_of_mem_endings ending hending
  have hchars {c : Char} (hc : c ∉ (start ++ s).toList) (hplain : c ∉ ending.toList) :
      c ∉ (start ++ ending).toList := by
    rw [String.toList_append, List.mem_append, not_or] at hc ⊢
    exact ⟨hc.1, hplain⟩
  refine ⟨namesDrive_append hstart hdrive h.drive, ?_, hup, hchars h.null hnull,
    hchars h.back hback⟩
  rw [head?_append_of_ne hstart, ← head?_append_of_ne hstart s]
  exact h.relative

/-- The name of an entry and that of its page have the stem and the point after it in common. -/
theorem exists_endings (stem : String) {extension : String} (h : extension ∈ pageExtensions) :
    ∃ ending ∈ endings, stem ++ extension = stem ++ "." ++ ending ∧
      ∃ ending ∈ endings, pageName stem extension = stem ++ "." ++ ending := by
  have hpage : extension = bsonExtension ∨ extension = jsonExtension := by
    simpa [pageExtensions] using h
  have hpoint {s ending : String} (hs : s = "." ++ ending) : stem ++ s = stem ++ "." ++ ending := by
    rw [hs, String.append_assoc]
  rw [pageName]
  obtain rfl | rfl := hpage
  · refine ⟨"bson", by decide, hpoint (by decide), ?_⟩
    split
    · exact ⟨"bson.mdx", by decide, String.append_assoc.trans (hpoint (by decide))⟩
    · exact ⟨"mdx", by decide, hpoint (by decide)⟩
  · refine ⟨"json", by decide, hpoint (by decide), ?_⟩
    split
    · exact ⟨"json.mdx", by decide, String.append_assoc.trans (hpoint (by decide))⟩
    · exact ⟨"mdx", by decide, hpoint (by decide)⟩

/-- Such a name is one name, and does not go up. -/
theorem named_of_mem_endings {stem ending : String} (hstem : '/' ∉ stem.toList)
    (h : ending ∈ endings) :
    Path.named (stem ++ "." ++ ending) = [stem ++ "." ++ ending] ∧
      stem ++ "." ++ ending ≠ ".." := by
  obtain ⟨-, hslash, -, -, c, hc, hpoint⟩ := plain_of_mem_endings ending h
  have hmem : c ∈ (stem ++ "." ++ ending).toList := by simp [hc]
  have hne {name : String} (hname : ∀ c ∈ name.toList, c = '.') : stem ++ "." ++ ending ≠ name :=
    fun heq => hpoint (hname c (heq ▸ hmem))
  refine ⟨Path.named_of_notMem (by simp [hstem, hslash]) ?_, hne (by simp)⟩
  rw [Path.isVoid, Bool.or_eq_false_iff, beq_eq_false_iff_ne, beq_eq_false_iff_ne]
  exact ⟨hne (by simp), hne (by simp)⟩

/-- **A page is written where its entry leads**, but for the last name. -/
theorem Inward.outputPath (h : Inward path) {extension : String}
    (hextension : extension ∈ pageExtensions) (hends : Text.endsWith path extension = true) :
    ∃ above stem, Path.named path = above ++ [stem ++ extension] ∧
      Path.named (Archive.outputPath path) = above ++ [pageName stem extension] ∧
      Inward (Archive.outputPath path) := by
  obtain ⟨front, rfl⟩ := Text.exists_append_of_endsWith hends
  obtain ⟨above, stem, rfl, habove, hstem⟩ := Path.exists_last_segment front
  obtain ⟨ending, hending, hentry, pageEnding, hpage, hname⟩ := exists_endings stem hextension
  have hnamed := habove.named_append (stem ++ extension)
  have hnamed' := habove.named_append (pageName stem extension)
  rw [hentry, (named_of_mem_endings hstem hending).1, ← hentry, ← String.append_assoc] at hnamed
  rw [hname, (named_of_mem_endings hstem hpage).1, ← hname] at hnamed'
  rw [outputPath_append habove hstem hextension h.back]
  refine ⟨Path.named above, stem, hnamed, hnamed', ?_⟩
  -- both paths start with what stands before the ending
  have hpath : above ++ stem ++ extension = above ++ (stem ++ ".") ++ ending := by
    rw [String.append_assoc, hentry, ← String.append_assoc]
  have hpath' : above ++ pageName stem extension = above ++ (stem ++ ".") ++ pageEnding := by
    rw [hname, ← String.append_assoc]
  have hup := h.up
  rw [hnamed, List.mem_append, not_or] at hup
  rw [hpath] at h
  rw [hpath']
  refine h.of_append (by simp) hpage ?_
  rw [← hpath', hnamed', List.mem_append, List.mem_singleton, not_or, hname]
  exact ⟨hup.1, (named_of_mem_endings hstem hpage).2.symm⟩

example : outputPath "guide/page.json" = "guide/page.mdx" := by decide

example : outputPath "guide/..json" = "guide/..json.mdx" := by decide

end MdxPages.Archive
