import MdxPages.Options.Conversion
import MdxPages.Proofs.Path.Resolution

/-!
# Proofs/Path/Placement — where the image of a figure lies

An asset whose path names the images directory lies in the images directory of the page, below
what follows the name; so does a bare name; any other path says itself where the asset lies
(`placed`).  The directory is sought as text, with a slash after it: what is found is **the first
segment above the last one that ends in the name** (`imageTarget_eq_placed`), where the rule means
the first one that is it.
-/

namespace MdxPages

namespace Text

/-- A text with a slash behind it starts a path exactly if it is the first segment. -/
theorem slash_prefix_iff {pattern segment : List Char} (hpattern : '/' ∉ pattern)
    (hsegment : '/' ∉ segment) (rest : List Char) :
    pattern ++ ['/'] <+: segment ++ '/' :: rest ↔ pattern = segment := by
  have hcut {cs : List Char} (hcs : '/' ∉ cs) (ds : List Char) :
      (cs ++ '/' :: ds).takeWhile (· != '/') = cs := by
    rw [List.takeWhile_append_of_pos]
    · simp
    · exact fun c hc => bne_iff_ne.2 fun h => hcs (h ▸ hc)
  constructor
  · rintro ⟨more, hmore⟩
    rw [List.append_assoc, List.singleton_append] at hmore
    rw [← hcut hpattern more, hmore, hcut hsegment]
  · rintro rfl
    exact ⟨rest, by simp⟩

/-- The first occurrence of a text with a slash behind it, in a path that is cut at its first
slash: at the end of the first segment, or else further on. -/
theorem indexOf?_slash {pattern segment : List Char} (hpattern : pattern ≠ [])
    (hslash : '/' ∉ pattern) (hsegment : '/' ∉ segment) (rest : List Char) :
    indexOf? (pattern ++ ['/']) (segment ++ '/' :: rest) =
      if pattern <:+ segment then some (segment.length - pattern.length)
      else (indexOf? (pattern ++ ['/']) rest).map (· + (segment.length + 1)) := by
  have hhere := slash_prefix_iff hslash hsegment rest
  rw [← List.isPrefixOf_iff_prefix] at hhere
  induction segment with
  | nil =>
    rw [List.nil_append] at hhere
    rw [List.nil_append, indexOf?, if_neg (mt hhere.1 hpattern),
      if_neg (mt List.suffix_nil.1 hpattern)]
    rfl
  | cons c segment ih =>
    rw [List.mem_cons, not_or] at hsegment
    rw [List.cons_append] at hhere
    rw [List.cons_append, indexOf?]
    by_cases heq : pattern = c :: segment
    · rw [if_pos (hhere.2 heq), if_pos (heq ▸ List.suffix_rfl), heq, Nat.sub_self]
    · rw [if_neg (mt hhere.1 heq), ih hsegment.2
        (List.isPrefixOf_iff_prefix.trans (slash_prefix_iff hslash hsegment.2 rest))]
      by_cases hsuffix : pattern <:+ segment
      · have hlength := hsuffix.length_le
        rw [if_pos hsuffix, if_pos (List.suffix_cons_iff.2 (.inr hsuffix)), List.length_cons,
          Option.map_some]
        congr 1
        omega
      · rw [if_neg hsuffix, if_neg (mt List.suffix_cons_iff.1 (not_or.2 ⟨heq, hsuffix⟩)),
          Option.map_map]
        rfl

theorem indexOf?_of_notMem {pattern cs : List Char} {c : Char} (hpattern : c ∈ pattern)
    (h : c ∉ cs) : indexOf? pattern cs = none := by
  have hbegins {ds : List Char} (hds : c ∉ ds) : pattern.isPrefixOf ds = false := by
    rw [← Bool.not_eq_true, List.isPrefixOf_iff_prefix]
    exact fun hp => hds (hp.subset hpattern)
  induction cs with
  | nil => rw [indexOf?, List.isEmpty_eq_false_iff.2 (List.ne_nil_of_mem hpattern)]; rfl
  | cons d cs ih => rw [indexOf?, hbegins h, ih (List.not_mem_of_not_mem_cons h)]; rfl

end Text

namespace Path

variable {p : String → Bool} {directory root path : String}

/-! ## The rule

The rule is about segments, and asks which of them is the images directory. -/

/-- What follows the first segment above the last one that a test holds of. -/
def below? (p : String → Bool) : List String → Option (List String)
  | [] | [_] => none
  | segment :: next :: rest => if p segment then some (next :: rest) else below? p (next :: rest)

/-- Where an asset lies, the images directory being recognised by a test. -/
def placed (p : String → Bool) (root : String) (path : List String) : String :=
  match below? p path with
  | some below => root ++ "/" ++ Text.join "/" below
  | none =>
    if path.length = 1 then root ++ "/" ++ Text.join "/" path else Text.join "/" path

/-- The images directory of a page: under its top level, if its path has a directory. -/
def imagesRoot (importer directory : String) : String :=
  let top := topLevel (toPosix importer)
  if top.isEmpty then directory else top ++ "/" ++ directory

/-- The last segment is never the images directory. -/
theorem below?_cons (p : String → Bool) (segment : String) {rest : List String} (h : rest ≠ []) :
    below? p (segment :: rest) = if p segment then some rest else below? p rest := by
  cases rest with
  | nil => exact absurd rfl h
  | cons next rest => rfl

/-- An images directory that passes its check is a name. -/
theorem valid_of_checkImagesDirectory
    (h : ConversionOptions.checkImagesDirectory (.str directory) = .ok ()) :
    directory ≠ "" ∧ '/' ∉ directory.toList := by
  refine ⟨?_, fun hslash => ?_⟩
  · rintro rfl
    cases h
  · have hrefused : ConversionOptions.checkImagesDirectory (.str directory) =
        .error .imagesDirectory := by
      simp [ConversionOptions.checkImagesDirectory, hslash]
    cases hrefused.symm.trans h

/-! ## What the search finds

The search is about characters, and takes the name of the directory for a segment that ends in it.
-/

/-- What follows the first occurrence of a directory with a slash behind it. -/
def afterMark? (directory path : String) : Option String :=
  (Text.indexOf? (directory ++ "/").toList path.toList).map fun i =>
    String.ofList (path.toList.drop (i + (directory ++ "/").toList.length))

/-- What follows the mark is what is below the first segment that ends in the name. -/
theorem afterMark?_eq (hne : directory ≠ "") (hslash : '/' ∉ directory.toList) (path : String) :
    afterMark? directory path =
      (below? (Text.endsWith · directory) (segments path)).map (Text.join "/") := by
  have hmark : (directory ++ "/").toList = directory.toList ++ ['/'] := String.toList_append
  induction path using Text.pieceInduction (show "/".toList = ['/'] from rfl) with
  | last s hs =>
    rw [afterMark?, hmark, Text.indexOf?_of_notMem (c := '/') (by simp) hs, segments_of_notMem hs]
    rfl
  | more s t hs ih =>
    have hpath : (s ++ "/" ++ t).toList = s.toList ++ '/' :: t.toList := by
      simp
    have hdrop (n : Nat) : (s.toList ++ '/' :: t.toList).drop (s.toList.length + 1 + n) =
        t.toList.drop n := by
      rw [List.append_cons, List.drop_append, List.drop_of_length_le (by simp),
        List.nil_append, List.length_append, List.length_singleton, Nat.add_sub_cancel_left]
    rw [segments_cons hs, below?_cons _ _ (segments_ne_nil t), afterMark?, hmark, hpath,
      Text.indexOf?_slash (mt String.toList_eq_nil_iff.1 hne) hslash hs, List.length_append,
      List.length_singleton]
    by_cases hsuffix : directory.toList <:+ s.toList
    · have hends : Text.endsWith s directory = true := List.isSuffixOf_iff_suffix.2 hsuffix
      have hlength : s.toList.length - directory.toList.length + (directory.toList.length + 1) =
          s.toList.length + 1 + 0 := by
        have hle := hsuffix.length_le
        omega
      rw [if_pos hsuffix, hends, if_pos rfl, Option.map_some, Option.map_some, join_segments,
        hlength, hdrop, List.drop_zero, String.ofList_toList]
    · have hends : Text.endsWith s directory = false := by
        rwa [← Bool.not_eq_true, Text.endsWith, List.isSuffixOf_iff_suffix]
      rw [if_neg hsuffix, hends, if_neg Bool.false_ne_true, ← ih, afterMark?, hmark,
        Option.map_map, List.length_append, List.length_singleton]
      refine congrArg (Option.map · _) (funext fun i => congrArg String.ofList ?_)
      rw [← hdrop]
      refine congrArg (List.drop · _) ?_
      dsimp only
      omega

/-- An asset lies below the images directory if its path has the mark, and else where the path or a
bare name says. -/
theorem imageTarget_eq_afterMark? (asset importer directory : String) :
    imageTarget asset importer directory =
      match afterMark? directory (Text.stripLeading '/' asset) with
      | some rest => imagesRoot importer directory ++ "/" ++ rest
      | none =>
        if (Text.stripLeading '/' asset).toList.contains '/' then Text.stripLeading '/' asset
        else imagesRoot importer directory ++ "/" ++ Text.stripLeading '/' asset := by
  rw [imageTarget, afterMark?, String.ofList_toList]
  cases Text.indexOf? (directory ++ "/").toList (Text.stripLeading '/' asset).toList <;> rfl

/-- **Where the converter puts an asset**: the first segment above the last one that ends in the
name of the images directory stands for the images directory. -/
theorem imageTarget_eq_placed (hne : directory ≠ "") (hslash : '/' ∉ directory.toList)
    (asset importer : String) : imageTarget asset importer directory =
      placed (Text.endsWith · directory) (imagesRoot importer directory)
        (segments (Text.stripLeading '/' asset)) := by
  rw [imageTarget_eq_afterMark?, afterMark?_eq hne hslash]
  generalize Text.stripLeading '/' asset = path
  rw [placed, join_segments]
  cases below? (Text.endsWith · directory) (segments path) with
  | some below => rfl
  | none =>
    rw [Option.map_none]
    dsimp only
    by_cases hbare : '/' ∈ path.toList
    · rw [if_pos (by simpa using hbare),
        if_neg (mt (length_segments_eq_one_iff path).1 (not_not_intro hbare))]
    · rw [if_neg (by simpa using hbare), if_pos ((length_segments_eq_one_iff path).2 hbare)]

/-! ## Where the search finds what the rule means

Most paths cannot be mistaken: no segment before the images directory ends in its name. -/

/-- Segments that are not the directory are passed over. -/
theorem below?_append {before : List String} (hbefore : ∀ s ∈ before, p s = false)
    {rest : List String} (hrest : rest ≠ []) : below? p (before ++ rest) = below? p rest := by
  induction before with
  | nil => rfl
  | cons s before ih =>
    rw [List.forall_mem_cons] at hbefore
    rw [List.cons_append, below?_cons _ _ (List.append_ne_nil_of_right_ne_nil _ hrest),
      hbefore.1, if_neg Bool.false_ne_true, ih hbefore.2]

/-- What is found is below the first such segment. -/
theorem below?_eq_some {names below : List String} (h : below? p names = some below) :
    below ≠ [] ∧ ∃ before segment, names = before ++ segment :: below ∧ p segment = true ∧
      ∀ s ∈ before, p s = false := by
  induction names with
  | nil => cases h
  | cons s names ih =>
    by_cases hnames : names = []
    · subst hnames
      cases h
    rw [below?_cons p s hnames] at h
    cases hs : p s with
    | true =>
      rw [hs, if_pos rfl] at h
      obtain rfl := Option.some.inj h
      exact ⟨hnames, [], s, rfl, hs, by simp⟩
    | false =>
      rw [hs, if_neg Bool.false_ne_true] at h
      obtain ⟨hbelow, before, segment, rfl, hsegment, hbefore⟩ := ih h
      exact ⟨hbelow, s :: before, segment, rfl, hsegment, List.forall_mem_cons.2 ⟨hs, hbefore⟩⟩

theorem eq_false_of_below?_eq_none {names before after : List String} {segment : String}
    (h : below? p names = none) (hnames : names = before ++ segment :: after)
    (hafter : after ≠ []) : p segment = false := by
  subst hnames
  induction before with
  | nil =>
    rw [List.nil_append, below?_cons p segment hafter] at h
    cases hsegment : p segment with
    | true => rw [hsegment, if_pos rfl] at h; cases h
    | false => rfl
  | cons s before ih =>
    rw [List.cons_append, below?_cons p s (by simp)] at h
    cases hs : p s with
    | true => rw [hs, if_pos rfl] at h; cases h
    | false => exact ih (by rwa [hs, if_neg Bool.false_ne_true] at h)

/-- A path in which the images directory, with a slash behind it, is a segment of its own above the
last name wherever it occurs, and which has nothing beside its name if it has one only. -/
structure Unmistakable (directory path : String) : Prop where
  whole : ∀ before segment after, segments path = before ++ segment :: after → after ≠ [] →
    Text.endsWith segment directory = true →
      segment = directory ∧ isVoid segment = false ∧ ∃ name ∈ after, isVoid name = false
  bare : (named path).length ≤ 1 → segments path = named path

/-- A path of names cannot be mistaken if none but the images directory itself ends in its name. -/
theorem unmistakable_of_named (hnamed : segments path = named path)
    (h : ∀ segment ∈ segments path, Text.endsWith segment directory = true → segment = directory) :
    Unmistakable directory path := by
  refine ⟨fun before segment after hpath hafter hends => ?_, fun _ => hnamed⟩
  have hnames : ∀ s ∈ before ++ segment :: after, isVoid s = false := fun s hs =>
    isVoid_of_mem_named (hnamed ▸ hpath ▸ hs)
  obtain ⟨name, hname⟩ := List.exists_mem_of_ne_nil after hafter
  refine ⟨h segment (hpath ▸ by simp) hends, hnames segment (by simp), name, hname,
    hnames name (by simp [hname])⟩

/-- The rule by names finds what the search finds. -/
theorem Unmistakable.below?_named (h : Unmistakable directory path) :
    below? (· == directory) (named path) =
      (below? (Text.endsWith · directory) (segments path)).map
        (List.filter fun segment => !isVoid segment) := by
  cases hfound : below? (Text.endsWith · directory) (segments path) with
  | some below =>
    obtain ⟨hbelow, before, segment, hpath, hends, hbefore⟩ := below?_eq_some hfound
    obtain ⟨rfl, hname, name, hmem, hnamed⟩ := h.whole before segment below hpath hbelow hends
    have hrest : below.filter (fun s => !isVoid s) ≠ [] :=
      List.ne_nil_of_mem (List.mem_filter.2 ⟨hmem, by simp [hnamed]⟩)
    have hearlier : ∀ s ∈ before.filter fun s => !isVoid s, (s == segment) = false := by
      intro s hs
      rw [beq_eq_false_iff_ne]
      rintro rfl
      exact Bool.false_ne_true ((hbefore s (List.mem_filter.1 hs).1).symm.trans hends)
    rw [named, hpath, List.filter_append, List.filter_cons_of_pos (by simp [hname]),
      below?_append hearlier (List.cons_ne_nil _ _), below?_cons _ _ hrest,
      if_pos (beq_self_eq_true _)]
    rfl
  | none =>
    cases hfound' : below? (· == directory) (named path) with
    | none => rfl
    | some below =>
      obtain ⟨hbelow, before, segment, hnamed, heq, -⟩ := below?_eq_some hfound'
      obtain rfl := eq_of_beq heq
      obtain ⟨front, rest, hpath, -, hrest⟩ := List.filter_eq_append_iff.1 hnamed
      obtain ⟨void, after, rfl, -, -, hafter⟩ := List.filter_eq_cons_iff.1 hrest
      have hends := eq_false_of_below?_eq_none hfound
        (hpath.trans (List.append_assoc front void (segment :: after)).symm)
        (by rintro rfl; exact hbelow hafter.symm)
      have hself : Text.endsWith segment segment = true :=
        List.isSuffixOf_iff_suffix.2 List.suffix_rfl
      exact (Bool.false_ne_true (hends.symm.trans hself)).elim

/-! ## The rule, for paths that cannot be mistaken

Where nothing can be mistaken, the rule may be read by the names of the path, empty segments and
points left out. -/

theorem unrooted_of_notMem {s : String} (hslash : '/' ∉ s.toList) (hback : '\\' ∉ s.toList) :
    Unrooted s := by
  intro c hc
  have hmem := List.mem_of_mem_head? hc
  exact ⟨fun h => hslash (h ▸ hmem), fun h => hback (h ▸ hmem)⟩

/-- A path of names has no root. -/
theorem unrooted_join {names : List String}
    (h : ∀ name ∈ names, isVoid name = false ∧ '/' ∉ name.toList ∧ '\\' ∉ name.toList) :
    Unrooted (Text.join "/" names) := by
  cases names with
  | nil => exact nofun
  | cons name names =>
    obtain ⟨hvoid, hslash, hback⟩ := h name List.mem_cons_self
    have hname := unrooted_of_notMem hslash hback
    by_cases hnames : names = []
    · rwa [hnames]
    · rw [Text.join_cons _ _ hnames, String.append_assoc]
      exact hname.append (by rintro rfl; cases hvoid) _

/-- Below one directory, paths with the same names lead to the same place. -/
theorem normalize_slash_congr (hroot : Unrooted root) (hne : root ≠ "") {path path' : String}
    (h : named (toPosix path) = named (toPosix path')) :
    normalize (root ++ "/" ++ path) = normalize (root ++ "/" ++ path') := by
  refine normalize_congr ?_ (by rw [parts_slash hroot hne, parts_slash hroot hne, h])
  rw [String.append_assoc, String.append_assoc, (hroot.append hne _).leadingSlashes_eq_zero,
    (hroot.append hne _).leadingSlashes_eq_zero]

/-- The images directory of a page has no root. -/
theorem unrooted_imagesRoot (importer : String) (hne : directory ≠ "")
    (hslash : '/' ∉ directory.toList) (hback : '\\' ∉ directory.toList) :
    imagesRoot importer directory ≠ "" ∧ Unrooted (imagesRoot importer directory) := by
  have htop : topLevel (toPosix importer) = "" ∨
      topLevel (toPosix importer) ∈ segments (toPosix importer) := by
    rw [topLevel]
    split
    · cases hsegments : segments (toPosix importer) with
      | nil => exact .inl rfl
      | cons top rest => exact .inr List.mem_cons_self
    · exact .inl rfl
  rw [imagesRoot]
  generalize topLevel (toPosix importer) = top at htop
  split
  · exact ⟨hne, unrooted_of_notMem hslash hback⟩
  · next hempty =>
    obtain rfl | htop := htop
    · exact absurd rfl hempty
    have hunrooted : Unrooted top := unrooted_of_notMem (slash_notMem_of_mem_segments htop) fun h =>
      backslash_notMem_toPosix importer (Text.mem_of_mem_split htop _ h)
    have htop : top ≠ "" := by
      rintro rfl
      exact hempty rfl
    rw [String.append_assoc]
    exact ⟨fun h => htop (String.append_eq_empty_iff.1 h).1, hunrooted.append htop _⟩

/-- **An asset lies where the rule says**, read by names, if its path cannot be mistaken. -/
theorem Unmistakable.normalize_placed (h : Unmistakable directory path) (hpath : Unrooted path)
    (hback : '\\' ∉ path.toList) (hne : directory ≠ "") (hslash : '/' ∉ directory.toList)
    (importer : String) :
    normalize (placed (Text.endsWith · directory) (imagesRoot importer directory) (segments path)) =
      normalize (placed (· == directory) (imagesRoot importer directory) (named path)) := by
  have hsegments : ∀ s ∈ segments path, '/' ∉ s.toList ∧ '\\' ∉ s.toList := fun s hs =>
    ⟨slash_notMem_of_mem_segments hs, fun h => hback (Text.mem_of_mem_split hs _ h)⟩
  rw [placed, placed, h.below?_named]
  cases hfound : below? (Text.endsWith · directory) (segments path) with
  | some below =>
    obtain ⟨hbelow, before, segment, hcut, hends, -⟩ := below?_eq_some hfound
    obtain ⟨rfl, -, -⟩ := h.whole before segment below hcut hbelow hends
    rw [hcut, List.forall_mem_append, List.forall_mem_cons] at hsegments
    obtain ⟨-, hsegment, hrest⟩ := hsegments
    have hkept : ∀ s ∈ below.filter (fun s => !isVoid s),
        isVoid s = false ∧ '/' ∉ s.toList ∧ '\\' ∉ s.toList := fun s hs =>
      ⟨by simpa using (List.mem_filter.1 hs).2, hrest s (List.mem_filter.1 hs).1⟩
    obtain ⟨hroot, hunrooted⟩ := unrooted_imagesRoot importer hne hslash hsegment.2
    refine normalize_slash_congr hunrooted hroot ?_
    rw [toPosix_join fun s hs => (hrest s hs).2, toPosix_join fun s hs => (hkept s hs).2.2,
      named_join fun s hs => ⟨(hkept s hs).1, (hkept s hs).2.1⟩, named,
      segments_join hbelow fun s hs => (hrest s hs).1]
  | none =>
    rw [Option.map_none]
    dsimp only
    by_cases hone : (segments path).length = 1
    · have hbare := h.bare (hone ▸ List.length_filter_le _ _)
      rw [← hbare]
    · have hmany : (named path).length ≠ 1 := fun hlength =>
        hone ((congrArg List.length (h.bare (Nat.le_of_eq hlength))).trans hlength)
      have hnames : ∀ name ∈ named path,
          isVoid name = false ∧ '/' ∉ name.toList ∧ '\\' ∉ name.toList := fun name hname =>
        ⟨isVoid_of_mem_named hname, hsegments name (List.mem_filter.1 hname).1⟩
      rw [if_neg hone, if_neg hmany, join_segments]
      refine normalize_congr ?_ ?_
      · rw [hpath.leadingSlashes_eq_zero, (unrooted_join hnames).leadingSlashes_eq_zero]
      · rw [parts_eq, parts_eq, hpath.leadingSlashes_eq_zero,
          (unrooted_join hnames).leadingSlashes_eq_zero, toPosix_of_notMem hback,
          toPosix_join fun name hname => (hnames name hname).2.2,
          named_join fun name hname => ⟨(hnames name hname).1, (hnames name hname).2.1⟩]

/-! ## Figures

A figure writes a path with escaped points and maybe backslashes.  Its names are what matters for
the rule. -/

/-- The path that a figure writes, its escaped points as points and its backslashes as slashes. -/
def written (text : String) : String :=
  toPosix (String.ofList (Text.replacePair '\\' '.' ['.'] (Text.strip text).toList))

/-- The names of an asset are those that the figure writes. -/
theorem named_assetPath (text : String) : named (assetPath text) = named (written text) := by
  rw [assetPath, ← named_stripLeading (written text), written]
  generalize Text.stripLeading '/' (toPosix _) = path
  split
  · next h => rw [← named_point_slash, ← eq_of_startsWith_point h]
  · rfl

theorem backslash_notMem_stripLeading {s : String} (h : '\\' ∉ s.toList) :
    '\\' ∉ (Text.stripLeading '/' s).toList := by
  rw [Text.toList_stripLeading]
  exact fun hback => h ((List.dropWhile_suffix _).subset hback)

/-- The path of an asset is written with slashes. -/
theorem backslash_notMem_assetPath (text : String) : '\\' ∉ (assetPath text).toList := by
  have hpath := backslash_notMem_stripLeading (backslash_notMem_toPosix
    (String.ofList (Text.replacePair '\\' '.' ['.'] (Text.strip text).toList)))
  rw [assetPath]
  split
  · rw [String.toList_ofList]
    exact fun hback => hpath (List.mem_of_mem_drop hback)
  · exact hpath

theorem unrooted_stripLeading {s : String} (h : '\\' ∉ s.toList) :
    Unrooted (Text.stripLeading '/' s) := by
  intro c hc
  refine ⟨?_, fun heq => backslash_notMem_stripLeading h (heq ▸ List.mem_of_mem_head? hc)⟩
  rw [Text.toList_stripLeading] at hc
  have hfirst := List.head?_dropWhile_not (· == '/') s.toList
  rw [Option.mem_def.1 hc] at hfirst
  simpa using hfirst

/-- **Where the image of a figure lies.**  The converter takes the first segment of the asset above
the last one that ends in the name of the images directory for that directory.  Where the name
cannot be mistaken, the asset lies where the rule says, read by the names that the figure writes,
and however the figure spells them. -/
theorem imageTarget_placed (text importer directory : String)
    (hvalid : ConversionOptions.checkImagesDirectory (.str directory) = .ok ()) :
    imageTarget (assetPath text) importer directory =
      placed (Text.endsWith · directory) (imagesRoot importer directory)
        (segments (Text.stripLeading '/' (assetPath text))) ∧
    (Unmistakable directory (Text.stripLeading '/' (assetPath text)) →
      normalize (imageTarget (assetPath text) importer directory) =
        normalize (placed (· == directory) (imagesRoot importer directory) (named (written text))) ∧
      ∀ text', named (written text') = named (written text) →
        Unmistakable directory (Text.stripLeading '/' (assetPath text')) →
          normalize (imageTarget (assetPath text') importer directory) =
            normalize (imageTarget (assetPath text) importer directory)) := by
  obtain ⟨hne, hslash⟩ := valid_of_checkImagesDirectory hvalid
  have hrule (text : String)
      (h : Unmistakable directory (Text.stripLeading '/' (assetPath text))) :
      normalize (imageTarget (assetPath text) importer directory) =
        normalize (placed (· == directory) (imagesRoot importer directory)
          (named (written text))) := by
    have hback := backslash_notMem_assetPath text
    rw [imageTarget_eq_placed hne hslash, h.normalize_placed (unrooted_stripLeading hback)
      (backslash_notMem_stripLeading hback) hne hslash, named_stripLeading, named_assetPath]
  refine ⟨imageTarget_eq_placed hne hslash _ _, fun h => ⟨hrule text h, fun text' hnames h' => ?_⟩⟩
  rw [hrule text h, hrule text' h', hnames]

/-- One figure in two spellings: the images directory of the guide, wherever it is copied from. -/
theorem imageTarget_placed_spelled :
    normalize (imageTarget (assetPath "/shared\\images/a/pic\\.png") "guide/page.mdx" "images") =
        "guide/images/a/pic.png" ∧
      normalize (imageTarget (assetPath "./shared/images/a/pic.png") "guide/page.mdx" "images") =
        "guide/images/a/pic.png" := by
  obtain ⟨hplace, hspelled⟩ := (imageTarget_placed "/shared\\images/a/pic\\.png" "guide/page.mdx"
    "images" rfl).2 (unmistakable_of_named (by decide +kernel) (by decide +kernel))
  have hvalue : normalize (placed (· == "images") (imagesRoot "guide/page.mdx" "images")
      (named (written "/shared\\images/a/pic\\.png"))) = "guide/images/a/pic.png" := by
    decide +kernel
  exact ⟨hplace.trans hvalue, (hspelled "./shared/images/a/pic.png" (by decide +kernel)
    (unmistakable_of_named (by decide +kernel) (by decide +kernel))).trans (hplace.trans hvalue)⟩

/-- **A directory whose name ends in the name of the images directory is taken for it**, though the
rule leaves the asset where it says. -/
theorem imageTarget_of_similar_directory :
    normalize (imageTarget (assetPath "myimages/pic.png") "index.mdx" "images") =
        "images/pic.png" ∧
      normalize (placed (· == "images") (imagesRoot "index.mdx" "images")
        (named (written "myimages/pic.png"))) = "myimages/pic.png" := by
  decide +kernel

end Path
end MdxPages
