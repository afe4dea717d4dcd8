import MdxPages.Disk.Walk

/-!
# Proofs/Disk/Walk — the steps of walks

A strict walk leads to a place if each of its steps may be taken (`walk_eq_ok_iff`).  The way to a
place goes through the folder above it (`Leads.last`).
-/

namespace MdxPages.Disk

variable {d : Disk} {here p q : Place} {names : List String} {name : String}
  {links : Nat}

/-- A place where a file stands. -/
def HasFile (d : Disk) (p : Place) : Prop :=
  ∃ bytes, d.at? p = some (.file bytes)

/-- A place where a file may be put: nothing stands there, or a file. -/
def Vacant (d : Disk) (p : Place) : Prop :=
  d.at? p = none ∨ ∃ bytes, d.at? p = some (.file bytes)

/-- The root is not vacant. -/
theorem Vacant.ne_nil (h : d.Vacant p) : p ≠ [] := by
  rintro rfl
  obtain h | ⟨bytes, h⟩ := h <;> cases h

/-- No folder stands in a vacant place. -/
theorem Vacant.not_folder (h : d.Vacant p) : d.at? p ≠ some .folder := by
  obtain h | ⟨bytes, h⟩ := h <;> rw [h] <;> simp

/-- No link stands in a vacant place. -/
theorem Vacant.not_link (h : d.Vacant p) (target : String) : d.at? p ≠ some (.link target) := by
  obtain h | ⟨bytes, h⟩ := h <;> rw [h] <;> simp

/-- Folders stay where a file or a folder is put in a vacant place. -/
theorem Vacant.at?_put_of_folder (h : d.Vacant p) (item : Item) (hq : d.at? q = some .folder) :
    (d.put p item).at? q = some .folder := by
  have hne : q ≠ p := fun heq => h.not_folder (heq ▸ hq)
  rw [at?_put_of_ne d item hne, hq]

theorem mem_of_itemAt? {item : Item} {items : List (Place × Item)}
    (h : itemAt? p items = some item) : (p, item) ∈ items := by
  induction items with
  | nil => cases h
  | cons first items ih =>
    obtain ⟨q, old⟩ := first
    rw [itemAt?] at h
    split at h
    · next heq =>
      obtain rfl := Option.some.inj h
      exact heq ▸ List.mem_cons_self
    · exact List.mem_cons_of_mem _ (ih h)

/-- A disk among whose items there is no link has none anywhere. -/
theorem at?_ne_link (h : ∀ x ∈ d.items, ∀ target, x.2 ≠ .link target) (p : Place)
    (target : String) : d.at? p ≠ some (.link target) := by
  cases p with
  | nil => exact fun hlink => nomatch hlink
  | cons name p => exact fun hlink => h _ (mem_of_itemAt? hlink) target rfl

/-! ## Steps of a strict walk

The steps of a walk are those of its recursion: a name down, a name up, or the way of a link before
the rest. -/

/-- What a strict walk needs for a step: a folder to step from, and a name that is not too long. -/
structure CanStep (d : Disk) (here : Place) (name : String) : Prop where
  folder : d.at? here = some .folder
  name : name.utf8ByteSize ≤ maxNameBytes

/-- The steps by which a strict walk leads to a place. -/
inductive Leads (d : Disk) (q : Place) : Nat → Place → List String → Prop
  | done {links : Nat} : Leads d q links q []
  | up {links : Nat} {here : Place} {names : List String} (can : d.CanStep here "..")
    (rest : Leads d q links here.dropLast names) : Leads d q links here (".." :: names)
  | link {links : Nat} {here : Place} {name target : String} {names : List String}
    (can : d.CanStep here name) (hup : name ≠ "..")
    (hlink : d.at? (here ++ [name]) = some (.link target))
    (rest : Leads d q links (if (Location.ofString target).isAbsolute then [] else here)
      ((Location.ofString target).names ++ names)) :
    Leads d q (links + 1) here (name :: names)
  | on {links : Nat} {here : Place} {name : String} {names : List String}
    (can : d.CanStep here name) (hup : name ≠ "..")
    (hlink : ∀ target, d.at? (here ++ [name]) ≠ some (.link target))
    (rest : Leads d q links (here ++ [name]) names) : Leads d q links here (name :: names)

/-- A walk that ends has taken steps that it may take. -/
theorem leads_of_walk (h : d.walk true links here names = .ok q) : d.Leads q links here names := by
  have hcan {here : Place} {name : String} (hfolder : ¬(true && !d.at? here == some .folder) = true)
      (hname : ¬(true && decide (maxNameBytes < name.utf8ByteSize)) = true) : d.CanStep here name :=
    ⟨by simpa using hfolder, by simpa using hname⟩
  fun_induction walk d true links here names with
  | case1 =>
    obtain rfl := Except.ok.inj h
    exact .done
  | case2 | case3 | case5 => cases h
  | case4 links here rest hfolder hname ih => exact .up (hcan hfolder hname) (ih h)
  | case6 here name rest hfolder hname hup text hlink links target ih =>
    exact .link (hcan hfolder hname) hup hlink (ih h)
  | case7 links here name rest hfolder hname hup hlink ih =>
    exact .on (hcan hfolder hname) hup (fun target htarget => hlink target htarget) (ih h)

/-- Steps that may be taken make a walk. -/
theorem walk_of_leads (h : d.Leads q links here names) : d.walk true links here names = .ok q := by
  induction h with
  | done => rw [walk]
  | up can rest ih =>
    rw [walk, ← ih]
    simp [can.folder, Nat.not_lt.2 can.name]
  | link can hup hlink rest ih =>
    rw [walk, ← ih]
    simp [can.folder, Nat.not_lt.2 can.name, hup, hlink]
  | on can hup hlink rest ih =>
    rw [walk, ← ih]
    simp [can.folder, Nat.not_lt.2 can.name, hup]

/-- **A strict walk finds a place exactly if its steps lead there.** -/
theorem walk_eq_ok_iff : d.walk true links here names = .ok q ↔ d.Leads q links here names :=
  ⟨leads_of_walk, walk_of_leads⟩

/-! ## The last step

A walk can be cut before its last name, where it stands in the folder above the place. -/

/-- **The way to a place goes through the folder above it.** -/
theorem Leads.last (h : d.Leads q links here (names ++ [name])) :
    ∃ above left, d.Leads above links here names ∧ d.Leads q left above [name] := by
  generalize hall : names ++ [name] = all at h
  induction h generalizing names with
  | done => simp at hall
  | @up links here _ can rest ih =>
    cases names with
    | nil =>
      obtain ⟨rfl, rfl⟩ := List.cons.inj hall
      exact ⟨here, links, .done, .up can rest⟩
    | cons first names =>
      obtain ⟨rfl, htail⟩ := List.cons.inj hall
      obtain ⟨above, left, habove, hlast⟩ := ih htail
      exact ⟨above, left, .up can habove, hlast⟩
  | @link links here _ _ _ can hup hlink rest ih =>
    cases names with
    | nil =>
      obtain ⟨rfl, rfl⟩ := List.cons.inj hall
      exact ⟨here, links + 1, .done, .link can hup hlink rest⟩
    | cons first names =>
      obtain ⟨rfl, rfl⟩ := List.cons.inj hall
      obtain ⟨above, left, habove, hlast⟩ := ih (List.append_assoc _ _ _)
      exact ⟨above, left, .link can hup hlink habove, hlast⟩
  | @on links here _ _ can hup hlink rest ih =>
    cases names with
    | nil =>
      obtain ⟨rfl, rfl⟩ := List.cons.inj hall
      exact ⟨here, links, .done, .on can hup hlink rest⟩
    | cons first names =>
      obtain ⟨rfl, htail⟩ := List.cons.inj hall
      obtain ⟨above, left, habove, hlast⟩ := ih htail
      exact ⟨above, left, .on can hup hlink habove, hlast⟩

/-- The first step of a walk may be taken. -/
theorem Leads.canStep (h : d.Leads q links here (name :: names)) : d.CanStep here name := by
  cases h with
  | up can | link can | on can => exact can

/-- What stands at the end of a step by itself, before a link is followed. -/
theorem Leads.isSome_at? (h : d.Leads q links here [name]) (hq : (d.at? q).isSome) :
    (d.at? (if name = ".." then here.dropLast else here ++ [name])).isSome := by
  cases h with
  | up can rest =>
    cases rest
    exact hq
  | link can hup hlink rest => simp [hup, hlink]
  | on can hup hlink rest =>
    cases rest
    rwa [if_neg hup]

/-! ## Faults

A walk fails over a name that does not lead on, or over too many links.  The file system says so in
both cases. -/

/-- Where a strict walk ends in a fault, the file system refuses. -/
theorem isSystem_of_walk {fault : Fault} (h : d.walk true links here names = .error fault) :
    fault.isSystem = true := by
  fun_induction walk d true links here names with
  | case1 => cases h
  | case2 links here =>
    obtain rfl := Except.error.inj h
    cases d.at? here <;> rfl
  | case3 | case5 =>
    obtain rfl := Except.error.inj h
    rfl
  | case4 _ _ _ _ _ ih | case6 _ _ _ _ _ _ _ _ _ _ ih | case7 _ _ _ _ _ _ _ _ ih => exact ih h

end MdxPages.Disk
