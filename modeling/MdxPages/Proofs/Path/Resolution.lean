import MdxPages.Proofs.Path.Segments

/-!
# Proofs/Path/Resolution — where a path leads, and the ways between two paths

Resolving segments is a walk: a name goes down, `..` undoes the step before it, and what is left is
resolved (`resolveFrom_resolveFrom`).  The way from a directory without `..` to a goal ends at that
goal (`resolveFrom_wayBetween`): the steps up undo what only the directory has, the steps down add
what only the goal has.

**A page that joins an import to where it stands gets the path that the import was made for**
(`normalize_imports`): a fragment is sought from the directory of the page, an image from the route
of the page, one level below it.
-/

namespace MdxPages.Path

variable {rooted : Bool} {passed names rest : List String} {name segment path path' : String}

/-! ## One segment after the other

What has been kept so far is a list with the last segment first, so that `..` takes off its head. -/

/-- A segment that leads one level down. -/
structure IsName (segment : String) : Prop where
  isVoid : Path.isVoid segment = false
  ne_up : segment ≠ ".."

/-- What one more segment makes of the segments kept so far, the last one first. -/
def step (rooted : Bool) (passed : List String) (segment : String) : List String :=
  if isVoid segment then passed
  else if segment = ".." then
    match passed with
    | [] => if rooted then [] else [".."]
    | last :: before => if last = ".." then ".." :: passed else before
  else segment :: passed

/-- Resolving is a fold over the segments, one step for each. -/
theorem resolveFrom_eq_foldl (rooted : Bool) (passed segments : List String) :
    resolveFrom rooted passed segments = (segments.foldl (step rooted) passed).reverse := by
  induction passed, segments using resolveFrom.induct rooted <;>
    simp_all [resolveFrom, step]

/-- Segments one after the other are resolved one after the other. -/
theorem resolveFrom_append (rooted : Bool) (passed segments rest : List String) :
    resolveFrom rooted passed (segments ++ rest) =
      resolveFrom rooted (resolveFrom rooted passed segments).reverse rest := by
  simp only [resolveFrom_eq_foldl, List.foldl_append, List.reverse_reverse]

/-- A segment that names nothing is passed over. -/
theorem step_void (h : isVoid segment = true) : step rooted passed segment = passed :=
  if_pos h

/-- A name goes one level down. -/
theorem step_name (h : IsName segment) : step rooted passed segment = segment :: passed := by
  rw [step.eq_def, h.isVoid, if_neg Bool.false_ne_true, if_neg h.ne_up]

/-- Up again, over a name. -/
theorem step_up (h : name ≠ "..") : step rooted (name :: passed) ".." = passed := by
  simp [step, isVoid, h]

/-- Going up undoes the name before. -/
theorem resolveFrom_up (h : name ≠ "..") :
    resolveFrom rooted (name :: passed) (".." :: rest) = resolveFrom rooted passed rest := by
  rw [resolveFrom_eq_foldl, resolveFrom_eq_foldl, List.foldl_cons, step_up h]

/-- Names are all kept. -/
theorem resolveFrom_names (h : ∀ name ∈ names, IsName name) :
    resolveFrom rooted passed names = passed.reverse ++ names := by
  rw [resolveFrom_eq_foldl]
  induction names generalizing passed with
  | nil => simp
  | cons name names ih =>
    rw [List.forall_mem_cons] at h
    rw [List.foldl_cons, step_name h.1, ih h.2, List.reverse_cons, List.append_assoc]
    rfl

/-- As many steps up as there are names undo them all. -/
theorem foldl_step_climb (h : ∀ name ∈ names, name ≠ "..") :
    (names.map fun _ => "..").foldl (step rooted) (names ++ passed) = passed := by
  induction names with
  | nil => rfl
  | cons name names ih =>
    rw [List.forall_mem_cons] at h
    rw [List.map_cons, List.foldl_cons, List.cons_append, step_up h.1, ih h.2]

theorem foldl_step_filter (rooted : Bool) (passed segments : List String) :
    (segments.filter fun segment => !isVoid segment).foldl (step rooted) passed =
      segments.foldl (step rooted) passed := by
  induction segments generalizing passed with
  | nil => rfl
  | cons segment segments ih =>
    cases h : isVoid segment with
    | true => rw [List.filter_cons_of_neg (by simp [h]), ih, List.foldl_cons, step_void h]
    | false => rw [List.filter_cons_of_pos (by simp [h]), List.foldl_cons, List.foldl_cons, ih]

/-- What one step keeps or adds. -/
theorem mem_step (h : name ∈ step rooted passed segment) :
    name ∈ passed ∨ name = segment ∧ isVoid segment = false := by
  rw [step.eq_def] at h
  grind

/-- What is kept has been there before, or is one of the segments. -/
theorem mem_foldl_step {segments : List String} (h : name ∈ segments.foldl (step rooted) passed) :
    name ∈ passed ∨ name ∈ segments ∧ isVoid name = false := by
  induction segments generalizing passed with
  | nil => exact .inl h
  | cons segment segments ih =>
    obtain h | ⟨h, hname⟩ := ih h
    · obtain h | ⟨rfl, hname⟩ := mem_step h
      · exact .inl h
      · exact .inr ⟨List.mem_cons_self, hname⟩
    · exact .inr ⟨List.mem_cons_of_mem _ h, hname⟩

/-! ## What is resolved stays as it is

A path that starts with steps up keeps them, unless it has a root above which there is nothing. -/

/-- Segments, the last one first, that are kept as they are when they are passed again. -/
structure Settled (rooted : Bool) (passed : List String) : Prop where
  isVoid : ∀ segment ∈ passed, isVoid segment = false
  again : passed.foldr (fun segment before => step rooted before segment) [] = passed

theorem Settled.before (h : Settled rooted (name :: passed)) (hname : name ≠ "..") :
    Settled rooted passed := by
  have hplain := List.forall_mem_cons.1 h.isVoid
  have hagain := h.again
  rw [List.foldr_cons, step_name ⟨hplain.1, hname⟩] at hagain
  exact ⟨hplain.2, (List.cons.inj hagain).2⟩

/-- Segments that are kept stay kept after one more step. -/
theorem Settled.step (h : Settled rooted passed) (segment : String) :
    Settled rooted (step rooted passed segment) := by
  have hpushed (hsegment : Path.isVoid segment = false)
      (heq : Path.step rooted passed segment = segment :: passed) :
      Settled rooted (segment :: passed) :=
    ⟨List.forall_mem_cons.2 ⟨hsegment, h.isVoid⟩, by rw [List.foldr_cons, h.again, heq]⟩
  by_cases hvoid : Path.isVoid segment
  · rwa [step_void hvoid]
  rw [Bool.not_eq_true] at hvoid
  by_cases hup : segment = ".."
  · subst hup
    cases passed with
    | nil =>
      cases rooted with
      | true => exact h
      | false => exact hpushed rfl rfl
    | cons last before =>
      by_cases hlast : last = ".."
      · have heq : Path.step rooted (last :: before) ".." = ".." :: last :: before := by
          simp [Path.step, Path.isVoid, hlast]
        rw [heq]
        exact hpushed rfl heq
      · rw [step_up hlast]
        exact h.before hlast
  · rw [step_name ⟨hvoid, hup⟩]
    exact hpushed hvoid (step_name ⟨hvoid, hup⟩)

theorem settled_foldl_step (h : Settled rooted passed) (segments : List String) :
    Settled rooted (segments.foldl (step rooted) passed) := by
  induction segments generalizing passed with
  | nil => exact h
  | cons segment segments ih => exact ih (h.step segment)

/-- **What is resolved stays as it is.** -/
theorem resolveFrom_resolveFrom (rooted : Bool) (segments : List String) :
    resolveFrom rooted [] (resolveFrom rooted [] segments) = resolveFrom rooted [] segments := by
  have hsettled : Settled rooted (segments.foldl (step rooted) []) :=
    settled_foldl_step ⟨by simp, rfl⟩ segments
  simp only [resolveFrom_eq_foldl, List.foldl_reverse, hsettled.again]

/-! ## Normal paths

Two paths have one normal form if they start alike and resolve alike. -/

/-- A point stands for nothing, as an empty path does. -/
theorem named_orPoint (s : String) : named (if s.isEmpty then "." else s) = named s := by
  split
  · next hempty => rw [String.isEmpty_iff.1 hempty]; rfl
  · rfl

/-- Slashes in front name nothing. -/
theorem named_ofList_slashes (n : Nat) (s : String) :
    named (String.ofList (List.replicate n '/') ++ s) = named s := by
  induction n with
  | zero => exact congrArg named String.empty_append
  | succ n ih =>
    have hcut : String.ofList (List.replicate (n + 1) '/') ++ s =
        "" ++ "/" ++ (String.ofList (List.replicate n '/') ++ s) := by
      rw [← String.toList_inj]
      simp [List.replicate_succ]
    rw [hcut, named_slash, ih]
    rfl

/-- The names of a normalized path are what resolving the path gives. -/
theorem parts_eq (path : String) :
    parts path = resolveFrom (leadingSlashes (toPosix path) != 0) [] (named (toPosix path)) := by
  have hplain : ∀ name ∈ resolveFrom (leadingSlashes (toPosix path) != 0) []
      (segments (toPosix path)), isVoid name = false ∧ '/' ∉ name.toList := by
    intro name hname
    rw [resolveFrom_eq_foldl, List.mem_reverse] at hname
    obtain h | ⟨h, hvoid⟩ := mem_foldl_step hname
    · exact absurd h List.not_mem_nil
    · exact ⟨hvoid, slash_notMem_of_mem_segments h⟩
  have hfilter : resolveFrom (leadingSlashes (toPosix path) != 0) [] (named (toPosix path)) =
      resolveFrom (leadingSlashes (toPosix path) != 0) [] (segments (toPosix path)) := by
    rw [resolveFrom_eq_foldl, resolveFrom_eq_foldl, named, foldl_step_filter]
  rw [hfilter, parts, ← named, normalize, named_orPoint, named_ofList_slashes, named_join hplain]

/-- Paths that start alike and lead alike have one normal form. -/
theorem normalize_congr (hslashes : leadingSlashes (toPosix path) = leadingSlashes (toPosix path'))
    (h : parts path = parts path') : normalize path = normalize path' := by
  have hfilter (s : String) : resolveFrom (leadingSlashes (toPosix s) != 0) []
      (segments (toPosix s)) = parts s := by
    rw [parts_eq, resolveFrom_eq_foldl, resolveFrom_eq_foldl, named, foldl_step_filter]
  rw [normalize, normalize, hfilter, hfilter, hslashes, h]

/-! ## The way from one path to another

The common start of two paths is left out of the way, and the rest of the directory is climbed. -/

/-- What two paths start with alike is left out of the way between them. -/
theorem wayBetween_cons (name : String) (start goal : List String) :
    wayBetween (name :: start) (name :: goal) = wayBetween start goal := by
  rw [wayBetween, wayBetween, dropCommon, if_pos rfl]

/-- Without anything in common, all of the directory is left again. -/
theorem foldl_step_apart {start : List String} (hstart : ∀ name ∈ start, IsName name)
    {goal : List String} (happart : dropCommon start goal = (start, goal)) (passed : List String) :
    (wayBetween start goal).foldl (step rooted) (start.reverse ++ passed) =
      goal.foldl (step rooted) passed := by
  have hmap : start.map (fun _ => "..") = start.reverse.map fun _ => ".." := by
    rw [List.map_const', List.map_const', List.length_reverse]
  rw [wayBetween, happart, List.foldl_append, hmap, foldl_step_climb]
  exact fun name hname => (hstart name (List.mem_reverse.1 hname)).ne_up

/-- Walking the way from a directory undoes what only it has and adds what only the goal has. -/
theorem foldl_step_wayBetween {start : List String} (hstart : ∀ name ∈ start, IsName name)
    (goal passed : List String) :
    (wayBetween start goal).foldl (step rooted) (start.reverse ++ passed) =
      goal.foldl (step rooted) passed := by
  induction start, goal using dropCommon.induct generalizing passed with
  | case1 start name goal ih =>
    rw [List.forall_mem_cons] at hstart
    rw [wayBetween_cons, List.reverse_cons, List.append_assoc, List.singleton_append,
      ih hstart.2, List.foldl_cons, step_name hstart.1]
  | case2 a start b goal hab =>
    exact foldl_step_apart hstart (by rw [dropCommon, if_neg hab]) passed
  | case3 start goal hne =>
    refine foldl_step_apart hstart ?_ passed
    cases start with
    | nil => rfl
    | cons a start =>
      cases goal with
      | nil => rfl
      | cons b goal => exact (hne a start b goal rfl rfl).elim

/-- **The way from a directory to a goal ends at the goal.** -/
theorem resolveFrom_wayBetween (rooted : Bool) {start : List String}
    (hstart : ∀ name ∈ start, IsName name) (goal : List String) :
    resolveFrom rooted start.reverse (wayBetween start goal) = resolveFrom rooted [] goal := by
  rw [resolveFrom_eq_foldl, resolveFrom_eq_foldl, ← foldl_step_wayBetween hstart goal [],
    List.append_nil]

/-! ## Imports

An import is a way between two normal paths, with a point in front where it leads down. -/

theorem dropCommon_suffix (start goal : List String) : (dropCommon start goal).2 <:+ goal := by
  fun_induction dropCommon start goal with
  | case1 start name goal ih => exact ih.trans (List.suffix_cons name goal)
  | case2 => exact List.suffix_rfl
  | case3 => exact List.suffix_rfl

/-- A way goes up, or along names of the goal. -/
theorem mem_wayBetween {start goal : List String} (h : name ∈ wayBetween start goal) :
    name = ".." ∨ name ∈ goal := by
  obtain h | h := List.mem_append.1 h
  · obtain ⟨_, -, rfl⟩ := List.mem_map.1 h
    exact .inl rfl
  · exact .inr ((dropCommon_suffix start goal).subset h)

/-- A relative path has the names of the way between its ends. -/
theorem named_relative (start goal : String) :
    named (relative start goal) = wayBetween (parts start) (parts goal) := by
  rw [relative, named_orPoint, named_join]
  intro name hname
  obtain rfl | hname := mem_wayBetween hname
  · decide
  · exact ⟨isVoid_of_mem_named hname, slash_notMem_of_mem_named hname⟩

theorem named_dotted (path : String) : named (dotted path) = named path := by
  rw [dotted]
  split
  · rfl
  · exact named_point_slash path

/-- The import of a fragment goes from the directory of the page. -/
theorem named_fragmentImport (importer : String) {target : String} (h : Unrooted target) :
    named (fragmentImport importer target) =
      wayBetween (parts (dirname importer)) (parts target) := by
  rw [fragmentImport, named_dotted, named_relative, h.stripLeading]

/-- The import of an image goes up once more. -/
theorem named_imageImport (importer target : String) :
    named (imageImport importer target) =
      ".." :: wayBetween (parts (dirname importer)) (parts target) := by
  have hnamed := named_relative (dirname importer) target
  rw [← named_dotted] at hnamed
  rw [imageImport, ← hnamed]
  generalize dotted (relative (dirname importer) target) = path
  split
  · next h =>
    rw [named_up_slash, named_stripLeading, ← named_point_slash, ← eq_of_startsWith_point h]
  · exact named_up_slash path

/-! ### The characters of an import -/

variable {P : Char → Prop}

theorem forall_mem_relative (hpoint : P '.') (hslash : P '/') (start : String) {goal : String}
    (h : ∀ c ∈ (toPosix goal).toList, P c) : ∀ c ∈ (relative start goal).toList, P c := by
  have hway : ∀ name ∈ wayBetween (parts start) (parts goal), ∀ c ∈ name.toList, P c := by
    intro name hname
    obtain rfl | hname := mem_wayBetween hname
    · simpa using hpoint
    · rw [parts_eq, resolveFrom_eq_foldl, List.mem_reverse] at hname
      obtain hname | ⟨hname, -⟩ := mem_foldl_step hname
      · exact absurd hname List.not_mem_nil
      · exact fun c hc => h c (Text.mem_of_mem_split (List.mem_filter.1 hname).1 c hc)
  rw [relative]
  split
  · simpa using hpoint
  · exact Text.forall_mem_join (by simpa using hslash) hway

theorem forall_mem_dotted (hpoint : P '.') (hslash : P '/') (h : ∀ c ∈ path.toList, P c) :
    ∀ c ∈ (dotted path).toList, P c := by
  rw [dotted]
  split
  · exact h
  · rw [String.toList_append]
    exact List.forall_mem_append.2 ⟨by simp [hpoint, hslash], h⟩

theorem forall_mem_fragmentImport (hpoint : P '.') (hslash : P '/') (importer : String)
    {target : String} (h : ∀ c ∈ (toPosix (Text.stripLeading '/' target)).toList, P c) :
    ∀ c ∈ (fragmentImport importer target).toList, P c :=
  forall_mem_dotted hpoint hslash (forall_mem_relative hpoint hslash _ h)

theorem forall_mem_imageImport (hpoint : P '.') (hslash : P '/') (importer : String)
    {target : String} (h : ∀ c ∈ (toPosix target).toList, P c) :
    ∀ c ∈ (imageImport importer target).toList, P c := by
  have hpath := forall_mem_dotted hpoint hslash
    (forall_mem_relative hpoint hslash (dirname importer) h)
  have hup : ∀ c ∈ "../".toList, P c := by
    simp [hpoint, hslash]
  rw [imageImport]
  generalize dotted (relative (dirname importer) target) = path at hpath
  split
  · have hrest :
        ∀ c ∈ (Text.stripLeading '/' (String.ofList (path.toList.drop 2))).toList, P c := by
      rw [Text.toList_stripLeading, String.toList_ofList]
      exact fun c hc => hpath c (List.mem_of_mem_drop ((List.dropWhile_suffix _).subset hc))
    rw [String.toList_append]
    exact List.forall_mem_append.2 ⟨hup, hrest⟩
  · rw [String.toList_append]
    exact List.forall_mem_append.2 ⟨hup, hpath⟩

/-! ### Where an import leads -/

theorem parts_slash {directory : String} (h : Unrooted directory) (hne : directory ≠ "")
    (path : String) : parts (directory ++ "/" ++ path) =
      resolveFrom false (parts directory).reverse (named (toPosix path)) := by
  have hslashes := h.leadingSlashes_eq_zero
  have hslashes' : leadingSlashes (toPosix (directory ++ "/" ++ path)) = 0 := by
    rw [String.append_assoc]
    exact (h.append hne _).leadingSlashes_eq_zero
  rw [parts_eq, parts_eq, hslashes, hslashes', toPosix_slash, named_slash]
  exact resolveFrom_append false [] _ _

/-- What leads from a directory where resolving a goal leads is a path to the goal. -/
theorem normalize_slash_eq {directory : String} (h : Unrooted directory) (hne : directory ≠ "")
    {path goal : String} (hgoal : Unrooted goal)
    (hpath : resolveFrom false (parts directory).reverse (named (toPosix path)) =
      resolveFrom false [] (parts goal)) :
    normalize (directory ++ "/" ++ path) = normalize goal := by
  refine normalize_congr ?_ ?_
  · rw [String.append_assoc, (h.append hne _).leadingSlashes_eq_zero, hgoal.leadingSlashes_eq_zero]
  · rw [parts_slash h hne, hpath, parts_eq goal, hgoal.leadingSlashes_eq_zero]
    exact resolveFrom_resolveFrom false _

/-- The names of a page are those of its directory and its own. -/
theorem parts_eq_dirname_append (h : Unrooted path) (hname : IsName (baseName (toPosix path))) :
    parts path = parts (dirname path) ++ [baseName (toPosix path)] := by
  have hlast : named (baseName (toPosix path)) = [baseName (toPosix path)] :=
    named_of_notMem (slash_notMem_baseName _) hname.isVoid
  rw [parts_eq, parts_eq, h.leadingSlashes_eq_zero, h.dirname.leadingSlashes_eq_zero,
    toPosix_dirname, ← named_dirname_append, hlast, resolveFrom_append, resolveFrom_names]
  · simp
  · simpa using hname

/-- **An import leads to what it was made for**, wherever a page and its goal lie.  A fragment is
sought from the directory of the page; an image from the route of the page, one level below. -/
theorem normalize_imports {importer target : String} (himporter : Unrooted importer)
    (htarget : Unrooted target) (hname : baseName (toPosix importer) ∉ ["", ".", ".."])
    (hdirectory : ".." ∉ segments (normalize (dirname importer))) :
    normalize (dirname importer ++ "/" ++ fragmentImport importer target) = normalize target ∧
      normalize (importer ++ "/" ++ imageImport importer target) = normalize target := by
  have hbase : IsName (baseName (toPosix importer)) := by
    simp only [List.mem_cons, List.not_mem_nil, or_false, not_or] at hname
    exact ⟨by simp [isVoid, hname.1, hname.2.1], hname.2.2⟩
  have hplain : ∀ name ∈ parts (dirname importer), IsName name := fun name hname =>
    ⟨isVoid_of_mem_named hname, fun hup => hdirectory (hup ▸ (List.mem_filter.1 hname).1)⟩
  have hway := resolveFrom_wayBetween false hplain (parts target)
  constructor
  · refine normalize_slash_eq himporter.dirname (dirname_ne_empty importer) htarget ?_
    have hslashes : '\\' ∉ (fragmentImport importer target).toList := fun h =>
      forall_mem_fragmentImport (P := (· ≠ '\\')) (by decide) (by decide) importer
        (fun c hc hback => backslash_notMem_toPosix _ (hback ▸ hc)) _ h rfl
    rw [toPosix_of_notMem hslashes, named_fragmentImport importer htarget, hway]
  · have hne : importer ≠ "" := by
      rintro rfl
      exact hname (by decide)
    have hslashes : '\\' ∉ (imageImport importer target).toList := fun h =>
      forall_mem_imageImport (P := (· ≠ '\\')) (by decide) (by decide) importer
        (fun c hc hback => backslash_notMem_toPosix _ (hback ▸ hc)) _ h rfl
    refine normalize_slash_eq himporter hne htarget ?_
    rw [toPosix_of_notMem hslashes, named_imageImport, parts_eq_dirname_append himporter hbase,
      List.reverse_append, List.reverse_singleton, List.singleton_append,
      resolveFrom_up hbase.ne_up, hway]

/-- A page with backslashes in its path, and a goal above the output root. -/
theorem normalize_imports_above :
    normalize (dirname "guide\\tour/intro.mdx" ++ "/" ++
        fragmentImport "guide\\tour/intro.mdx" "../shared//steps.mdx") =
      normalize "../shared//steps.mdx" ∧
    normalize ("guide\\tour/intro.mdx" ++ "/" ++
        imageImport "guide\\tour/intro.mdx" "../shared//steps.mdx") =
      normalize "../shared//steps.mdx" := by
  have hname : baseName (toPosix "guide\\tour/intro.mdx") = "intro.mdx" := by rfl
  have hdirectory : segments (normalize (dirname "guide\\tour/intro.mdx")) = ["guide", "tour"] := by
    rfl
  exact normalize_imports (by simp [Unrooted]) (by simp [Unrooted])
    (by rw [hname]; simp) (by rw [hdirectory]; simp)

end MdxPages.Path
