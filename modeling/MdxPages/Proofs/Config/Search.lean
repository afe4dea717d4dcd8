import MdxPages.Proofs.Config.Loading

/-!
# Proofs/Config/Search — which configuration file is found

Going up from a folder, the first one with a configuration counts (`findUp_eq_ok_iff`).  A project
file on the way that cannot be used, or has no settings, is passed over; one that stumbles ends the
search (`faulty_findUp_iff`).
-/

namespace MdxPages.Config

open Work

variable {w : Workplace} {l : Location} {folder : Place} {names : List String} {name : String}
  {found : Option Location}

/-! ## Folders

A folder is looked into without the folders above it.  `Finds` and `Meets` say of the way up what
the search comes to. -/

/-- The location of a name in a folder. -/
def locationIn (folder : Place) (name : String) : Location :=
  .ofPlace (folder ++ [name])

/-- Whether a folder has a file of a name. -/
def hasNamed (w : Workplace) (folder : Place) (name : String) : Bool :=
  w.disk.isFile w.directory (locationIn folder name)

/-- A folder whose configuration, if it has one, stands in its project file. -/
def LacksOwn (w : Workplace) (folder : Place) : Prop :=
  ∀ name ∈ fileNames, hasNamed w folder name = false

/-- A project file that is passed over: it cannot be used, or has no settings. -/
def IsPassedOver (w : Workplace) (l : Location) : Prop :=
  (loadProject l w).1 = .ok [] ∨ ∃ e, (loadProject l w).1 = .error e ∧ e.category = .argument

/-- A folder without a configuration. -/
structure Bare (w : Workplace) (folder : Place) : Prop where
  own : LacksOwn w folder
  project : hasNamed w folder projectName = true →
    IsPassedOver w (locationIn folder projectName)

/-- The configuration of a folder. -/
inductive Gives (w : Workplace) (folder : Place) : Location → Prop
  | own {name : String} (h : fileNames.find? (hasNamed w folder) = some name) :
    Gives w folder (locationIn folder name)
  | project {fields : Entries Value} (hown : LacksOwn w folder)
      (hthere : hasNamed w folder projectName = true)
      (h : (loadProject (locationIn folder projectName) w).1 = .ok fields) (hfields : fields ≠ []) :
    Gives w folder (locationIn folder projectName)

/-- The configuration that the search finds going up from a folder, whose names are given from the
last to the first. -/
inductive Finds (w : Workplace) : List String → Option Location → Prop
  | here {names : List String} {l : Location} (h : Gives w names.reverse l) :
    Finds w names (some l)
  | above {name : String} {names : List String} {found : Option Location}
      (hbare : Bare w (name :: names).reverse) (h : Finds w names found) :
    Finds w (name :: names) found
  | nothing (hbare : Bare w []) : Finds w [] none

/-- A project file that the search looks into, going up from a folder. -/
inductive Meets (w : Workplace) : List String → Location → Prop
  | here {names : List String} (hown : LacksOwn w names.reverse)
      (hthere : hasNamed w names.reverse projectName = true) :
    Meets w names (locationIn names.reverse projectName)
  | above {name : String} {names : List String} {l : Location}
      (hbare : Bare w (name :: names).reverse) (h : Meets w names l) :
    Meets w (name :: names) l

/-! ## One folder -/

theorem asks_projectOrNone : Asks (projectOrNone l) :=
  asks_loadProject.tryCatch fun _ => .ite (.pure _) (.throw _)

/-- Looking for a configuration in a folder changes nothing. -/
theorem asks_findIn : Asks (findIn folder) := by
  refine .get fun w => ?_
  dsimp only
  split
  · exact .pure _
  · exact .ite (asks_projectOrNone.bind fun _ => .pure _) (.pure _)

/-- None of the names of configuration files is there. -/
theorem find?_eq_none_iff : fileNames.find? (hasNamed w folder) = none ↔ LacksOwn w folder := by
  simp [List.find?_eq_none, LacksOwn]

/-- What a project file gives that may be passed over. -/
theorem answer_projectOrNone : (projectOrNone l w).1 =
    match (loadProject l w).1 with
    | .ok fields => .ok fields
    | .error e => if e.category = .argument then .ok [] else .error e := by
  rw [projectOrNone, tryCatch_apply, asks_loadProject.apply w]
  cases (loadProject l w).1 with
  | ok fields => rfl
  | error e =>
    dsimp only
    split <;> rfl

/-- The files of their own come before the project file. -/
theorem findIn_apply (folder : Place) (w : Workplace) : findIn folder w =
    (match fileNames.find? (hasNamed w folder) with
    | some name => pure (some (locationIn folder name))
    | none =>
      if hasNamed w folder projectName then do
        return if (← projectOrNone (locationIn folder projectName)).isEmpty then none
          else some (locationIn folder projectName)
      else pure none : Work (Option Location)) w := by
  rw [findIn, bind_of_ok (get_apply w)]
  rfl

/-- A folder with a file of its own gives the first one, unread. -/
theorem answer_findIn_of_own (h : fileNames.find? (hasNamed w folder) = some name) :
    (findIn folder w).1 = .ok (some (locationIn folder name)) := by
  rw [findIn_apply, h]
  rfl

/-- Without such a file the project file decides, if there is one. -/
theorem answer_findIn_of_lacksOwn (hown : LacksOwn w folder) :
    (findIn folder w).1 = if hasNamed w folder projectName then
      (projectOrNone (locationIn folder projectName) w).1.map fun fields =>
        if fields.isEmpty then none else some (locationIn folder projectName)
    else .ok none := by
  rw [findIn_apply, find?_eq_none_iff.2 hown]
  dsimp only
  split
  · rw [answer_bind asks_projectOrNone]
    cases (projectOrNone (locationIn folder projectName) w).1 <;> rfl
  · rfl

/-- **What a search finds in a folder**: a configuration, or none where the folder is bare; a
project file that stumbles ends it. -/
theorem findIn_cases (w : Workplace) (folder : Place) :
    (∃ l, Gives w folder l ∧ (findIn folder w).1 = .ok (some l)) ∨
    (Bare w folder ∧ (findIn folder w).1 = .ok none) ∨
    ∃ e, (LacksOwn w folder ∧ hasNamed w folder projectName = true ∧ e.category ≠ .argument ∧
      (loadProject (locationIn folder projectName) w).1 = .error e) ∧
      (findIn folder w).1 = .error e := by
  cases hfind : fileNames.find? (hasNamed w folder) with
  | some name => exact .inl ⟨_, .own hfind, answer_findIn_of_own hfind⟩
  | none =>
    have hown := find?_eq_none_iff.1 hfind
    rw [answer_findIn_of_lacksOwn hown]
    cases hthere : hasNamed w folder projectName with
    | false =>
      have hbare : Bare w folder := ⟨hown, fun h => nomatch hthere.symm.trans h⟩
      exact .inr (.inl ⟨hbare, rfl⟩)
    | true =>
      rw [answer_projectOrNone]
      cases hload : (loadProject (locationIn folder projectName) w).1 with
      | ok fields =>
        cases fields with
        | nil => exact .inr (.inl ⟨⟨hown, fun _ => .inl hload⟩, rfl⟩)
        | cons entry fields => exact .inl ⟨_, .project hown hthere hload (by simp), rfl⟩
      | error e =>
        by_cases he : e.category = .argument
        · refine .inr (.inl ⟨⟨hown, fun _ => .inr ⟨e, hload, he⟩⟩, ?_⟩)
          simp [he, Except.map]
        · refine .inr (.inr ⟨e, ⟨hown, rfl, he, rfl⟩, ?_⟩)
          simp [he, Except.map]

/-- The configuration of a folder is what the search finds there. -/
theorem Gives.answer (h : Gives w folder l) : (findIn folder w).1 = .ok (some l) := by
  cases h with
  | own h => exact answer_findIn_of_own h
  | @project fields hown hthere h hfields =>
    rw [answer_findIn_of_lacksOwn hown, if_pos hthere, answer_projectOrNone, h]
    cases fields with
    | nil => exact absurd rfl hfields
    | cons entry fields => rfl

/-- In a bare folder the search finds nothing. -/
theorem Bare.answer (h : Bare w folder) : (findIn folder w).1 = .ok none := by
  rw [answer_findIn_of_lacksOwn h.own]
  split
  · next hthere =>
    rw [answer_projectOrNone]
    obtain hload | ⟨e, hload, he⟩ := h.project hthere
    · rw [hload]
      rfl
    · rw [hload]
      simp [he, Except.map]
  · rfl

/-- **A project file that is refused counts for nothing.** -/
theorem findIn_of_refused {e : Failure} (hown : LacksOwn w folder)
    (hload : (loadProject (locationIn folder projectName) w).1 = .error e)
    (he : ∀ f, e ≠ .fault f) : findIn folder w = (.ok none, w) := by
  have hargument : e.category = .argument :=
    (refused_loadProject e hload).resolve_left fun ⟨f, hf⟩ => he f hf
  have hbare : Bare w folder := ⟨hown, fun _ => .inr ⟨e, hload, hargument⟩⟩
  rw [asks_findIn.apply w, hbare.answer]

/-! ## Going up

The names of a folder are given from the last to the first, so that going up is taking a name off,
and the induction is on the list. -/

theorem asks_findUp (names : List String) : Asks (findUp names) := by
  induction names with
  | nil => exact asks_findIn
  | cons name above ih =>
    refine asks_findIn.bind fun found => ?_
    cases found with
    | some l => exact .pure _
    | none => exact ih

/-- The search stops at a folder with a configuration. -/
theorem findUp_of_gives (h : Gives w names.reverse l) : (findUp names w).1 = .ok (some l) := by
  cases names with
  | nil => exact h.answer
  | cons name above =>
    rw [findUp, answer_bind asks_findIn, h.answer]
    rfl

/-- **A folder without a configuration is passed**, whatever its project file is refused for. -/
theorem findUp_of_bare (h : Bare w (name :: names).reverse) :
    findUp (name :: names) w = findUp names w := by
  have hfind : findIn (name :: names).reverse w = (.ok none, w) := by
    rw [asks_findIn.apply w, h.answer]
  rw [findUp, bind_of_ok hfind]

/-- The search ends where a folder gives a failure. -/
theorem findUp_of_error {e : Failure} (h : (findIn names.reverse w).1 = .error e) :
    (findUp names w).1 = .error e := by
  cases names with
  | nil => exact h
  | cons name above =>
    rw [findUp, answer_bind asks_findIn, h]
    rfl

/-- **The search finds the nearest configuration.** -/
theorem findUp_eq_ok_iff : (findUp names w).1 = .ok found ↔ Finds w names found := by
  constructor
  · intro h
    induction names with
    | nil =>
      obtain ⟨l, hgives, hfind⟩ | ⟨hbare, hfind⟩ | ⟨e, -, hfind⟩ := findIn_cases w []
      · obtain rfl := Except.ok.inj (hfind.symm.trans h)
        exact .here hgives
      · obtain rfl := Except.ok.inj (hfind.symm.trans h)
        exact .nothing hbare
      · cases hfind.symm.trans h
    | cons name above ih =>
      obtain ⟨l, hgives, -⟩ | ⟨hbare, -⟩ | ⟨e, -, hfind⟩ := findIn_cases w (name :: above).reverse
      · obtain rfl := Except.ok.inj ((findUp_of_gives hgives).symm.trans h)
        exact .here hgives
      · rw [findUp_of_bare hbare] at h
        exact .above hbare (ih h)
      · cases (findUp_of_error hfind).symm.trans h
  · intro h
    induction h with
    | here hgives => exact findUp_of_gives hgives
    | above hbare _ ih => rw [findUp_of_bare hbare, ih]
    | nothing hbare => exact hbare.answer

/-- **The search stumbles over a project file that it meets**, and over nothing else. -/
theorem findUp_eq_error_iff {e : Failure} : (findUp names w).1 = .error e ↔
    ∃ l, Meets w names l ∧ (loadProject l w).1 = .error e ∧ e.category ≠ .argument := by
  constructor
  · intro h
    induction names with
    | nil =>
      obtain ⟨l, -, hfind⟩ | ⟨-, hfind⟩ | ⟨e', ⟨hown, hthere, he, hload⟩, hfind⟩ :=
        findIn_cases w []
      · cases hfind.symm.trans h
      · cases hfind.symm.trans h
      · obtain rfl := Except.error.inj (hfind.symm.trans h)
        exact ⟨_, .here hown hthere, hload, he⟩
    | cons name above ih =>
      obtain ⟨l, hgives, -⟩ | ⟨hbare, -⟩ | ⟨e', ⟨hown, hthere, he, hload⟩, hfind⟩ :=
        findIn_cases w (name :: above).reverse
      · cases (findUp_of_gives hgives).symm.trans h
      · rw [findUp_of_bare hbare] at h
        obtain ⟨l, hmeets, hload⟩ := ih h
        exact ⟨l, .above hbare hmeets, hload⟩
      · obtain rfl := Except.error.inj ((findUp_of_error hfind).symm.trans h)
        exact ⟨_, .here hown hthere, hload, he⟩
  · rintro ⟨l, hmeets, hload, he⟩
    induction hmeets with
    | @here names hown hthere =>
      refine findUp_of_error ?_
      rw [answer_findIn_of_lacksOwn hown, if_pos hthere, answer_projectOrNone, hload]
      simp [he, Except.map]
    | above hbare _ ih => rw [findUp_of_bare hbare, ih hload]

/-- What the search meets can be read. -/
theorem Meets.exists_read (h : Meets w names l) :
    ∃ bytes, w.disk.read w.directory l = .ok bytes := by
  induction h with
  | here _ hthere => exact Disk.exists_read_of_isFile hthere
  | above _ _ ih => exact ih

/-- **The search stumbles over what a project file that it meets holds**, and over nothing else. -/
theorem faulty_findUp_iff : Faulty (findUp names w).1 ↔ ∃ l bytes, Meets w names l ∧
    w.disk.read w.directory l = .ok bytes ∧ Format.project.Traps bytes := by
  constructor
  · rintro ⟨f, h⟩
    obtain ⟨l, hmeets, hload, -⟩ := findUp_eq_error_iff.1 h
    obtain ⟨bytes, hread⟩ := hmeets.exists_read
    exact ⟨l, bytes, hmeets, hread, (faulty_loadProject_iff hread).1 ⟨f, hload⟩⟩
  · rintro ⟨l, bytes, hmeets, hread, htraps⟩
    obtain ⟨f, hload⟩ := (faulty_loadProject_iff hread).2 htraps
    exact ⟨f, findUp_eq_error_iff.2 ⟨l, hmeets, hload, nofun⟩⟩

/-- A search that fails has stumbled. -/
theorem faulty_findUp_of_error {e : Failure} (h : (findUp names w).1 = .error e) :
    Faulty (findUp names w).1 := by
  obtain ⟨l, -, hload, he⟩ := findUp_eq_error_iff.1 h
  obtain ⟨f, rfl⟩ | hargument := refused_loadProject e hload
  · exact ⟨f, h⟩
  · exact absurd hargument he

/-- Where nothing else is said, the search starts at the working directory. -/
theorem find_none_apply (w : Workplace) : find none w = findUp w.directory.reverse w := by
  have hresolve : w.disk.resolve w.directory ⟨0, []⟩ = .ok w.directory := by
    rw [Disk.resolve, Disk.hasNullByte]
    simp [Disk.walk, Disk.startOf, Location.isAbsolute]
  have hlift : liftFault (w.disk.resolve w.directory ((none : Option Location).getD ⟨0, []⟩)) w =
      (.ok w.directory, w) := by
    rw [Option.getD_none, hresolve]
    rfl
  rw [find, bind_of_ok (get_apply w), bind_of_ok hlift]

theorem asks_find_none : Asks (find none) := fun w => by
  rw [find_none_apply]
  exact asks_findUp _ w

end MdxPages.Config
