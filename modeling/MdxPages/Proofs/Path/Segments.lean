import MdxPages.Path.Asset
import MdxPages.Proofs.Text.Pieces

/-!
# Proofs/Path/Segments — the names along a path

Only the segments that name something count (`named`).  A slash between two paths puts their names
one after the other, slashes at the ends of a path add none, and a path has **the names of its
directory and then its last segment** (`named_dirname_append`).
-/

namespace MdxPages

namespace Text

variable {p : Char → Bool} {cs : List Char}

/-- What is left after cutting an end starts the list. -/
theorem dropEndWhile_prefix (p : Char → Bool) (cs : List Char) : dropEndWhile p cs <+: cs := by
  have h := List.reverse_prefix.2 (List.dropWhile_suffix (l := cs.reverse) p)
  rwa [List.reverse_reverse] at h

end Text

namespace Path

variable {path s t : String} {cs ds : List Char}

/-! ## Backslashes as slashes

Both kinds of slashes part segments.  Turning the one kind into the other comes first, everywhere.
-/

/-- Both sides of a slash are turned by themselves. -/
theorem toPosix_slash (s t : String) :
    toPosix (s ++ "/" ++ t) = toPosix s ++ "/" ++ toPosix t := by
  have hborder := Text.collapse_append_cons (q := (· == '\\')) (c := '/') rfl '/' s.toList t.toList
  rw [← String.toList_inj]
  simpa [toPosix] using hborder

/-- No backslash is left. -/
theorem backslash_notMem_toPosix (path : String) : '\\' ∉ (toPosix path).toList := by
  rw [toPosix, String.toList_ofList]
  exact fun h => Bool.false_ne_true
    (Text.eq_false_of_mem_collapse (q := (· == '\\')) rfl _ h).symm

/-- Without backslashes there is nothing to turn. -/
theorem toPosix_of_notMem (h : '\\' ∉ path.toList) : toPosix path = path := by
  rw [toPosix, Text.collapse_of_forall, String.ofList_toList]
  exact fun c hc => beq_false_of_ne fun hslash : c = '\\' => h (hslash ▸ hc)

/-- A path without a leading slash. -/
theorem leadingSlashes_eq_zero_iff (path : String) :
    leadingSlashes path = 0 ↔ path.toList.head? ≠ some '/' := by
  rw [leadingSlashes]
  generalize path.toList = cs
  cases cs with
  | nil => simp
  | cons c cs =>
    by_cases hc : c = '/'
    · subst hc
      split <;> simp_all
    · split <;> simp_all

/-- A path that starts with neither kind of slash. -/
def Unrooted (path : String) : Prop :=
  ∀ c ∈ path.toList.head?, c ≠ '/' ∧ c ≠ '\\'

/-- A path without a root has no leading slash, backslashes being turned. -/
theorem Unrooted.leadingSlashes_eq_zero (h : Unrooted path) :
    leadingSlashes (toPosix path) = 0 := by
  rw [leadingSlashes_eq_zero_iff, toPosix, String.toList_ofList, Text.head?_collapse]
  cases hc : path.toList.head? with
  | none => simp
  | some c =>
    have hplain := h c hc
    simp [hplain.1, hplain.2]

/-- What a path starts with decides about its root. -/
theorem Unrooted.append (h : Unrooted s) (hs : s ≠ "") (t : String) : Unrooted (s ++ t) := by
  rw [Unrooted, String.toList_append]
  rw [Unrooted] at h
  cases hcs : s.toList with
  | nil => exact absurd (String.toList_eq_nil_iff.1 hcs) hs
  | cons c cs =>
    rw [hcs] at h
    simpa using h

/-- There is no slash to strip off. -/
theorem Unrooted.stripLeading (h : Unrooted path) : Text.stripLeading '/' path = path := by
  rw [Unrooted] at h
  rw [← String.toList_inj, Text.toList_stripLeading]
  cases hcs : path.toList with
  | nil => rfl
  | cons c cs =>
    rw [hcs] at h
    exact List.dropWhile_cons_of_neg (by simpa using (h c rfl).1)

/-! ## Segments

Splitting at slashes leaves empty segments and points.  What a path leads through are the others,
its names. -/

/-- A slash between two texts puts their segments one after the other. -/
theorem segments_slash (s t : String) : segments (s ++ "/" ++ t) = segments s ++ segments t :=
  Text.split_append rfl s t

theorem segments_cons (h : '/' ∉ s.toList) (t : String) :
    segments (s ++ "/" ++ t) = s :: segments t :=
  Text.split_cons rfl h t

theorem segments_ne_nil (path : String) : segments path ≠ [] :=
  Text.split_ne_nil '/' path

/-- A path is its segments with slashes between them. -/
theorem join_segments (path : String) : Text.join "/" (segments path) = path :=
  Text.join_split rfl path

/-- A text without slashes is one segment. -/
theorem segments_of_notMem (h : '/' ∉ s.toList) : segments s = [s] :=
  Text.split_of_notMem h

/-- And only such a text is. -/
theorem length_segments_eq_one_iff (path : String) :
    (segments path).length = 1 ↔ '/' ∉ path.toList := by
  induction path using Text.pieceInduction (show "/".toList = ['/'] from rfl) with
  | last s hs => simp [segments_of_notMem hs, hs]
  | more s t hs ih =>
    have hslash : '/' ∈ (s ++ "/" ++ t).toList := by
      simp
    have hlength := List.length_pos_iff.2 (segments_ne_nil t)
    rw [segments_cons hs, List.length_cons]
    exact iff_of_false (by omega) (not_not_intro hslash)

theorem slash_notMem_of_mem_segments {segment : String} (h : segment ∈ segments path) :
    '/' ∉ segment.toList :=
  Text.notMem_of_mem_split h

/-- Segments that are joined are found again. -/
theorem segments_join {names : List String} (hnames : names ≠ [])
    (h : ∀ name ∈ names, '/' ∉ name.toList) : segments (Text.join "/" names) = names :=
  Text.split_join rfl hnames h

theorem toPosix_join {names : List String} (h : ∀ name ∈ names, '\\' ∉ name.toList) :
    toPosix (Text.join "/" names) = Text.join "/" names := by
  have hplain : ∀ c ∈ (Text.join "/" names).toList, c ≠ '\\' :=
    Text.forall_mem_join (by simp) fun name hname c hc heq => h name hname (heq ▸ hc)
  exact toPosix_of_notMem fun hback => hplain _ hback rfl

/-- The segments of a path that name something. -/
def named (path : String) : List String :=
  (segments path).filter fun segment => !isVoid segment

/-- A slash between two paths puts their names one after the other. -/
theorem named_slash (s t : String) : named (s ++ "/" ++ t) = named s ++ named t := by
  rw [named, segments_slash, List.filter_append, named, named]

/-- A segment that names something is its only name. -/
theorem named_of_notMem (h : '/' ∉ s.toList) (hvoid : isVoid s = false) : named s = [s] := by
  rw [named, segments_of_notMem h, List.filter_cons_of_pos (by simp [hvoid]), List.filter_nil]

theorem isVoid_of_mem_named {name : String} (h : name ∈ named path) : isVoid name = false := by
  simpa using (List.mem_filter.1 h).2

theorem slash_notMem_of_mem_named {name : String} (h : name ∈ named path) : '/' ∉ name.toList :=
  slash_notMem_of_mem_segments (List.mem_filter.1 h).1

/-- Names that are joined are found again. -/
theorem named_join {names : List String}
    (h : ∀ name ∈ names, isVoid name = false ∧ '/' ∉ name.toList) :
    named (Text.join "/" names) = names := by
  cases names with
  | nil => rfl
  | cons name names =>
    rw [named, segments_join (List.cons_ne_nil _ _) fun n hn => (h n hn).2, List.filter_eq_self]
    exact fun n hn => by simp [(h n hn).1]

theorem named_ofList_slash (cs ds : List Char) :
    named (String.ofList (cs ++ '/' :: ds)) =
      named (String.ofList cs) ++ named (String.ofList ds) := by
  rw [← named_slash]
  exact congrArg named (String.toList_inj.1 (by simp))

/-- Slashes at the end add no name. -/
theorem named_dropEndWhile (cs : List Char) :
    named (String.ofList (Text.dropEndWhile (· == '/') cs)) = named (String.ofList cs) := by
  rw [Text.dropEndWhile, ← congrArg String.ofList (List.reverse_reverse cs)]
  generalize cs.reverse = rs
  induction rs with
  | nil => rfl
  | cons c rs ih =>
    by_cases hc : c = '/'
    · rw [hc, List.dropWhile_cons_of_pos (by rfl), ih, List.reverse_cons, named_ofList_slash]
      exact (List.append_nil _).symm
    · rw [List.dropWhile_cons_of_neg (by simpa using hc)]

/-- Slashes at the start add no name. -/
theorem named_stripLeading (s : String) : named (Text.stripLeading '/' s) = named s := by
  rw [Text.stripLeading, ← congrArg named (String.ofList_toList (s := s))]
  generalize s.toList = cs
  induction cs with
  | nil => rfl
  | cons c cs ih =>
    by_cases hc : c = '/'
    · rw [hc, List.dropWhile_cons_of_pos (by rfl), ih]
      exact (named_ofList_slash [] cs).symm
    · rw [List.dropWhile_cons_of_neg (by simpa using hc)]

/-- A step up is a name. -/
theorem named_up_slash (s : String) : named ("../" ++ s) = ".." :: named s :=
  (congrArg (fun up => named (up ++ s)) (by decide : "../" = ".." ++ "/")).trans
    (named_slash ".." s)

/-- A point is none. -/
theorem named_point_slash (s : String) : named ("./" ++ s) = named s :=
  (congrArg (fun up => named (up ++ s)) (by decide : "./" = "." ++ "/")).trans (named_slash "." s)

/-- A path that starts with `./`, and what follows. -/
theorem eq_of_startsWith_point (h : Text.startsWith path "./" = true) :
    path = "./" ++ String.ofList (path.toList.drop 2) := by
  obtain ⟨rest, hrest⟩ := List.isPrefixOf_iff_prefix.1 h
  rw [← String.toList_inj, ← hrest]
  simp

/-! ## Directory and last segment

The last slash cuts a path in two, and the slashes before it are dropped with it. -/

/-- The last segment holds no slash. -/
theorem slash_notMem_baseName (path : String) : '/' ∉ (baseName path).toList := by
  rw [baseName, List.getLastD_eq_getLast?]
  cases h : (segments path).getLast? with
  | none => simp
  | some segment => exact slash_notMem_of_mem_segments (List.mem_of_getLast? h)

/-- A text is what stands before its last segment, and that segment. -/
theorem upToLastSlash_append (cs : List Char) :
    ∃ last, '/' ∉ last ∧ upToLastSlash cs ++ last = cs := by
  refine ⟨(cs.reverse.takeWhile (· != '/')).reverse, fun h => ?_, ?_⟩
  · simpa using List.all_eq_true.1 List.all_takeWhile '/' (List.mem_reverse.1 h)
  · rw [upToLastSlash, ← List.reverse_append, List.takeWhile_append_dropWhile,
      List.reverse_reverse]

theorem upToLastSlash_eq (cs : List Char) :
    upToLastSlash cs = [] ∨ ∃ front, upToLastSlash cs = front ++ ['/'] := by
  rw [upToLastSlash]
  cases h : cs.reverse.dropWhile (· != '/') with
  | nil => exact .inl rfl
  | cons c rest =>
    have hc := List.head?_dropWhile_not (· != '/') cs.reverse
    rw [h] at hc
    obtain rfl : c = '/' := by simpa using hc
    exact .inr ⟨rest.reverse, List.reverse_cons⟩

/-- Nothing stands there, or a slash at the end: a text that follows starts a segment. -/
def EndsFolder (above : String) : Prop :=
  above = "" ∨ ∃ front, above = front ++ "/"

/-- The same, with nothing or a slash before the last segment. -/
theorem exists_last_segment (path : String) :
    ∃ above last, path = above ++ last ∧ EndsFolder above ∧ '/' ∉ last.toList := by
  obtain ⟨last, hlast, hpath⟩ := upToLastSlash_append path.toList
  have hslash : '/' ∉ (String.ofList last).toList := by simpa using hlast
  refine ⟨String.ofList (upToLastSlash path.toList), String.ofList last, ?_, ?_, hslash⟩
  · rw [← String.ofList_append, hpath, String.ofList_toList]
  · obtain h | ⟨front, h⟩ := upToLastSlash_eq path.toList
    · exact .inl (by rw [h])
    · exact .inr ⟨String.ofList front, by rw [h, String.ofList_append]⟩

/-- Behind a slash, or at the start, a text adds its names. -/
theorem EndsFolder.named_append (h : EndsFolder s) (t : String) :
    named (s ++ t) = named s ++ named t := by
  obtain rfl | ⟨front, rfl⟩ := h
  · rw [String.empty_append]
    rfl
  · have hvoid : named (front ++ "/") = named front := by
      rw [← String.append_empty (s := front ++ "/"), named_slash]
      exact List.append_nil _
    rw [named_slash, hvoid]

theorem EndsFolder.takeWhile_reverse (h : EndsFolder s) (ht : '/' ∉ t.toList) :
    (s ++ t).toList.reverse.takeWhile (· != '/') = t.toList.reverse := by
  have hplain : ∀ c ∈ t.toList.reverse, (c != '/') = true := fun c hc =>
    bne_iff_ne.2 fun hslash => ht (hslash ▸ List.mem_reverse.1 hc)
  rw [String.toList_append, List.reverse_append, List.takeWhile_append_of_pos hplain]
  obtain rfl | ⟨front, rfl⟩ := h
  · simp
  · simp

/-- The directory is what stands before the last slash, without the slashes at its end. -/
theorem dirname_eq (path : String) :
    ∃ directory, (directory = upToLastSlash (toPosix path).toList ∨
        directory = Text.dropEndWhile (· == '/') (upToLastSlash (toPosix path).toList)) ∧
      dirname path = if directory.isEmpty then "." else String.ofList directory := by
  rw [dirname]
  cases (upToLastSlash (toPosix path).toList).all (· == '/') with
  | true => exact ⟨_, .inl rfl, rfl⟩
  | false => exact ⟨_, .inr rfl, rfl⟩

/-- A directory has the names that stand before the last slash. -/
theorem named_dirname (path : String) :
    named (dirname path) = named (String.ofList (upToLastSlash (toPosix path).toList)) := by
  obtain ⟨directory, hdirectory, hname⟩ := dirname_eq path
  have hnamed : named (String.ofList directory) =
      named (String.ofList (upToLastSlash (toPosix path).toList)) := by
    obtain hdirectory | hdirectory := hdirectory
    · rw [hdirectory]
    · rw [hdirectory, named_dropEndWhile]
  rw [hname, ← hnamed]
  cases directory with
  | nil => rfl
  | cons c cs => rfl

/-- The characters of a directory are those of the path from its start, or a single point. -/
theorem dirname_prefix (path : String) :
    dirname path = "." ∨
      (dirname path).toList ≠ [] ∧ (dirname path).toList <+: (toPosix path).toList := by
  obtain ⟨directory, hdirectory, hname⟩ := dirname_eq path
  have hupTo : upToLastSlash (toPosix path).toList <+: (toPosix path).toList :=
    Text.dropEndWhile_prefix _ _
  have hdirectory : directory <+: (toPosix path).toList := by
    obtain hdirectory | hdirectory := hdirectory
    · exact hdirectory ▸ hupTo
    · exact hdirectory ▸ (Text.dropEndWhile_prefix _ _).trans hupTo
  rw [hname]
  cases directory with
  | nil => exact .inl rfl
  | cons c cs => exact .inr (by simpa using hdirectory)

/-- A directory is written as a point if nothing stands before the last slash. -/
theorem dirname_ne_empty (path : String) : dirname path ≠ "" := by
  obtain h | h := dirname_prefix path
  · rw [h]
    decide
  · exact fun hempty => h.1 (by rw [hempty]; rfl)

/-- A directory is written with slashes. -/
theorem toPosix_dirname (path : String) : toPosix (dirname path) = dirname path := by
  refine toPosix_of_notMem fun h => ?_
  obtain hpoint | ⟨-, hbegins⟩ := dirname_prefix path
  · rw [hpoint] at h
    exact absurd h (by decide)
  · exact backslash_notMem_toPosix path (hbegins.subset h)

/-- The directory of a path without a root has none. -/
theorem Unrooted.dirname (h : Unrooted path) : Unrooted (dirname path) := by
  intro c hc
  obtain hpoint | ⟨-, hbegins⟩ := dirname_prefix path
  · rw [hpoint] at hc
    obtain rfl : c = '.' := by simpa using hc.symm
    decide
  · have hmem : c ∈ (toPosix path).toList := hbegins.subset (List.mem_of_mem_head? hc)
    refine ⟨?_, fun hback => backslash_notMem_toPosix path (hback ▸ hmem)⟩
    rintro rfl
    refine (leadingSlashes_eq_zero_iff _).1 h.leadingSlashes_eq_zero ?_
    obtain ⟨rest, hrest⟩ := hbegins
    rw [← hrest, List.head?_append, Option.mem_def.1 hc]
    rfl

/-- **A path has the names of its directory, and then its last segment.** -/
theorem named_dirname_append (path : String) :
    named (dirname path) ++ named (baseName (toPosix path)) = named (toPosix path) := by
  obtain ⟨last, hlast, hpath⟩ := upToLastSlash_append (toPosix path).toList
  have hsingle : segments (String.ofList last) = [String.ofList last] :=
    segments_of_notMem (by simpa using hlast)
  rw [named_dirname]
  obtain hhead | ⟨front, hhead⟩ := upToLastSlash_eq (toPosix path).toList
  · rw [hhead, List.nil_append] at hpath
    rw [hhead, ← String.ofList_toList (s := toPosix path), ← hpath, baseName, hsingle]
    rfl
  · have hpath : toPosix path = String.ofList front ++ "/" ++ String.ofList last := by
      rw [← String.toList_inj, ← hpath, hhead]
      simp
    rw [hhead, hpath, baseName, segments_slash, hsingle, List.getLastD_concat, named_slash,
      named_ofList_slash]
    exact congrArg (· ++ _) (List.append_nil _)

end Path
end MdxPages
