import MdxPages.Proofs.Disk.Growth

/-!
# Proofs/Disk/Reach — the places that walks lead to

A walk that starts at a place without a link on its way ends at one (`Straight`), and a strict walk
that starts in a folder ends below folders only (`Founded`).  Along the names of a straight place a
walk leads to that place and nowhere else.
-/

namespace MdxPages.Disk

variable {d d' : Disk} {P : Place → Prop} {here p q a : Place} {names : List String}
  {name : String} {links : Nat} {directory : Place} {l : Location}

/-- A place with no link on its way from the root. -/
structure Straight (d : Disk) (p : Place) : Prop where
  up : ".." ∉ p
  link : ∀ a, a <+: p → ∀ target, d.at? a ≠ some (.link target)

/-- A place whose way from the root goes through folders. -/
structure Founded (d : Disk) (p : Place) : Prop where
  up : ".." ∉ p
  folder : ∀ a, a <+: p → a ≠ p → d.at? a = some .folder

/-- A folder whose way from the root goes through folders. -/
structure Solid (d : Disk) (p : Place) : Prop where
  up : ".." ∉ p
  folder : ∀ a, a <+: p → d.at? a = some .folder

/-! ## Relations

From the strongest to the weakest: a solid place is a folder below folders, a founded place is below
folders, and a straight place has no link on its way. -/

/-- The root is a folder below nothing. -/
theorem solid_root (d : Disk) : d.Solid [] :=
  ⟨List.not_mem_nil, fun a ha => by rw [List.prefix_nil.1 ha, at?_root]⟩

/-- A folder below folders is founded. -/
theorem Solid.founded (h : d.Solid p) : d.Founded p :=
  ⟨h.up, fun a ha _ => h.folder a ha⟩

/-- A founded place is solid if a folder stands there. -/
theorem Founded.solid (h : d.Founded p) (hp : d.at? p = some .folder) : d.Solid p := by
  refine ⟨h.up, fun a ha => ?_⟩
  by_cases heq : a = p
  · rw [heq, hp]
  · exact h.folder a ha heq

/-- No folder on the way is a link. -/
theorem Solid.straight (h : d.Solid p) : d.Straight p :=
  ⟨h.up, fun a ha target htarget => by simp [h.folder a ha] at htarget⟩

/-- Above a straight place all places are straight. -/
theorem Straight.of_le (h : d.Straight p) (ha : a <+: p) : d.Straight a :=
  ⟨fun hup => h.up (ha.subset hup), fun b hb => h.link b (hb.trans ha)⟩

/-- Folders stay folders on a disk that grows. -/
theorem Solid.grown (h : d.Solid p) (hd : Grown P d d') : d'.Solid p :=
  ⟨h.up, fun a ha => hd.folder (h.folder a ha)⟩

/-- No link comes up on a disk that grows. -/
theorem Straight.grown (h : d.Straight p) (hd : Grown P d d') : d'.Straight p :=
  ⟨h.up, fun a ha target htarget => h.link a ha target (hd.link.1 htarget)⟩

/-- Above a founded place there is a folder. -/
theorem Founded.solid_dropLast (h : d.Founded p) : d.Solid p.dropLast := by
  cases hp : p.getLast? with
  | none =>
    rw [List.getLast?_eq_none_iff.1 hp]
    exact solid_root d
  | some last =>
    have hne : p ≠ [] := fun hnil => by simp [hnil] at hp
    have hpos := List.length_pos_iff.2 hne
    refine ⟨fun hup => h.up (List.dropLast_subset p hup), fun a ha => ?_⟩
    refine h.folder a (ha.trans (List.dropLast_prefix p)) fun heq => ?_
    have hle := ha.length_le
    rw [heq, List.length_dropLast] at hle
    omega

/-- One name below a solid folder is founded. -/
theorem Solid.founded_concat (h : d.Solid p) (hup : name ≠ "..") : d.Founded (p ++ [name]) := by
  refine ⟨by simp [h.up, Ne.symm hup], fun a ha hne => h.folder a ?_⟩
  exact (List.prefix_concat_iff.1 ha).resolve_left hne

theorem Straight.concat (h : d.Straight p) (hup : name ≠ "..")
    (hlink : ∀ target, d.at? (p ++ [name]) ≠ some (.link target)) : d.Straight (p ++ [name]) := by
  refine ⟨by simp [h.up, Ne.symm hup], fun a ha => ?_⟩
  obtain rfl | ha := List.prefix_concat_iff.1 ha
  · exact hlink
  · exact h.link a ha

/-! ## Where walks lead

A link is followed from the folder that it stands in, with one link fewer to go.  So the induction
is on the names and the number of links together. -/

/-- **A strict walk from a folder stays below folders.** -/
theorem Leads.founded (h : d.Leads q links here names) (hhere : d.Founded here) : d.Founded q := by
  induction h with
  | done => exact hhere
  | up can rest ih => exact ih hhere.solid_dropLast.founded
  | @link links here name target names can hup hlink rest ih =>
    refine ih ?_
    split
    · exact (solid_root d).founded
    · exact hhere
  | on can hup hlink rest ih => exact ih ((hhere.solid can.folder).founded_concat hup)

/-- **What a strict walk finds, the other kind finds as well.** -/
theorem Leads.walk_eq (h : d.Leads q links here names) :
    d.walk false links here names = .ok q := by
  induction h with
  | done => rw [walk]
  | up can rest ih =>
    rw [walk, ← ih]
    simp
  | link can hup hlink rest ih =>
    rw [walk, ← ih]
    simp [hup, hlink]
  | on can hup hlink rest ih =>
    rw [walk, ← ih]
    simp [hup]

/-- **A walk from a straight place ends at one.** -/
theorem straight_of_walk (h : d.walk false links here names = .ok q) (hhere : d.Straight here) :
    d.Straight q := by
  fun_induction walk d false links here names with
  | case1 =>
    obtain rfl := Except.ok.inj h
    exact hhere
  | case2 | case3 | case5 => cases h
  | case4 links here rest _ _ ih => exact ih h (hhere.of_le (List.dropLast_prefix here))
  | case6 here name rest _ _ hup text hlink links target ih =>
    refine ih h ?_
    split
    · exact (solid_root d).straight
    · exact hhere
  | case7 links here name rest _ _ hup hlink ih =>
    exact ih h (hhere.concat hup fun target htarget => hlink target htarget)

/-- A strict walk from a straight place ends at one. -/
theorem Leads.straight (h : d.Leads q links here names) (hhere : d.Straight here) : d.Straight q :=
  straight_of_walk h.walk_eq hhere

/-- **Where no name goes up or is that of a link, a walk leads down along the names.** -/
theorem walk_eq_append (hup : ".." ∉ names)
    (hlink : ∀ p target, p <+: names → p ≠ [] → d.at? (here ++ p) ≠ some (.link target)) :
    d.walk false links here names = .ok (here ++ names) := by
  induction names generalizing here with
  | nil => rw [walk, List.append_nil]
  | cons name names ih =>
    have hconcat (p : List String) : here ++ [name] ++ p = here ++ name :: p := by simp
    rw [List.mem_cons, not_or] at hup
    have hhere (target : String) : d.at? (here ++ [name]) ≠ some (.link target) :=
      hlink _ target (List.prefix_append _ _) (List.cons_ne_nil _ _)
    have hrest : d.walk false links (here ++ [name]) names = .ok (here ++ [name] ++ names) :=
      ih hup.2 fun p target hp _ =>
        hconcat p ▸ hlink _ target (List.prefix_cons_inj name |>.2 hp) (List.cons_ne_nil _ _)
    rw [← hconcat names, walk, ← hrest]
    simp [Ne.symm hup.1]

/-- **Along a straight place a walk leads there.** -/
theorem walk_of_straight (h : d.Straight (here ++ names)) :
    d.walk false links here names = .ok (here ++ names) := by
  refine walk_eq_append (fun hup => h.up (List.mem_append_right _ hup)) fun p target hp _ => ?_
  exact h.link _ (List.prefix_append_right_inj here |>.2 hp) target

/-- Along a straight place no other place can be reached. -/
theorem Leads.eq_of_straight (h : d.Leads q links here names)
    (hstraight : d.Straight (here ++ names)) : q = here ++ names :=
  Except.ok.inj (h.walk_eq.symm.trans (walk_of_straight hstraight))

/-! ## Locations

A location is walked from the root or the working directory, and the walk starts at a straight place
either way. -/

theorem Straight.startOf (h : d.Straight directory) (l : Location) :
    d.Straight (startOf directory l) := by
  rw [Disk.startOf]
  split
  · exact (solid_root d).straight
  · exact h

/-- The walk for a location starts in a folder if the working directory is one. -/
theorem Solid.startOf (h : d.Solid directory) (l : Location) : d.Solid (startOf directory l) := by
  rw [Disk.startOf]
  split
  · exact solid_root d
  · exact h

/-- A location stands for the place that a walk ends at. -/
theorem walk_of_resolve (h : d.resolve directory l = .ok q) :
    d.walk false maxLinks (startOf directory l) l.names = .ok q := by
  rw [resolve] at h
  split at h
  · cases h
  · split at h
    · cases h
    · exact h

/-- **A location stands for a straight place.** -/
theorem straight_of_resolve (hdirectory : d.Straight directory)
    (h : d.resolve directory l = .ok q) : d.Straight q :=
  straight_of_walk (walk_of_resolve h) (hdirectory.startOf l)

/-- The location of a straight place stands for that place. -/
theorem resolve_ofPlace (h : d.Straight p)
    (hresolve : d.resolve directory (.ofPlace p) = .ok q) : q = p := by
  have hwalk : d.walk false maxLinks (Disk.startOf directory (.ofPlace p)) p = .ok p :=
    walk_of_straight ((List.nil_append p).symm ▸ h)
  exact Except.ok.inj ((walk_of_resolve hresolve).symm.trans hwalk)

end MdxPages.Disk
