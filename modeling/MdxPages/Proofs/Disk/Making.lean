import MdxPages.Proofs.Disk.Access
import MdxPages.Proofs.Disk.Reach

/-!
# Proofs/Disk/Making — what making folders and writing files changes

New folders stand where nothing stood, on the way to the location that they are made for
(`grown_makeFolders`), and a file is written where its location leads (`grown_write`).  At a
straight place below a folder both stay below that folder.
-/

namespace MdxPages.Disk

variable {d d' d'' : Disk} {P : Place → Prop} {directory here p q root place : Place}
  {names : List String} {name : String} {links slashes : Nat} {l above : Location}

/-- What is found from a solid folder is below folders only. -/
theorem founded_of_find (hdirectory : d.Solid directory) (h : d.find directory l = .ok q) :
    d.Founded q :=
  (find_eq_ok_iff.1 h).2.founded (hdirectory.startOf l).founded

/-- And no link is on its way. -/
theorem straight_of_find (hdirectory : d.Solid directory) (h : d.find directory l = .ok q) :
    d.Straight q :=
  (find_eq_ok_iff.1 h).2.straight (hdirectory.startOf l).straight

/-- A walk that leads to a folder may go on from there. -/
theorem Leads.concat (h : d.Leads q links here names) (can : d.CanStep q name) (hup : name ≠ "..")
    (hlink : ∀ target, d.at? (q ++ [name]) ≠ some (.link target)) :
    d.Leads (q ++ [name]) links here (names ++ [name]) := by
  induction h with
  | done => exact .on can hup hlink .done
  | up can' rest ih => exact .up can' ih
  | link can' hup' hlink' rest ih =>
    rw [List.append_assoc] at ih
    exact .link can' hup' hlink' ih
  | on can' hup' hlink' rest ih => exact .on can' hup' hlink' ih

/-! ## Folders

Making a folder for a location is making those above it first.  Each of them is found on the way of
the last. -/

/-- A folder that is new, on the way to a location. -/
structure MadeFor (d d' : Disk) (directory : Place) (l : Location) (p : Place) : Prop where
  before : d.at? p = none
  after : d'.at? p = some .folder
  found : ∃ names, names <+: l.names ∧ d'.find directory ⟨l.slashes, names⟩ = .ok p

/-- A folder that is made for a location is still new for it on a disk that has grown since. -/
theorem MadeFor.later (h : MadeFor d d' directory l p) (hd : Grown P d' d'') :
    MadeFor d d'' directory l p := by
  obtain ⟨names, hnames, hfind⟩ := h.found
  exact ⟨h.before, hd.folder h.after, names, hnames, find_grown hd hfind⟩

theorem MadeFor.earlier (hd : Grown P d d') (h : MadeFor d' d'' directory l p) :
    MadeFor d d'' directory l p :=
  ⟨hd.kept h.before, h.after, h.found⟩

/-- A folder made for a location above another is made for the other too. -/
theorem MadeFor.of_le (h : MadeFor d d' directory ⟨l.slashes, names⟩ p)
    (hnames : names <+: l.names) : MadeFor d d' directory l p := by
  obtain ⟨names', hnames', hfind⟩ := h.found
  exact ⟨h.before, h.after, names', hnames'.trans hnames, hfind⟩

/-- **A folder is made where nothing stood**, and its location leads there. -/
theorem exists_of_makeFolder (hdirectory : d.Solid directory)
    (h : d.makeFolder directory l = .ok d') :
    ∃ p, d.at? p = none ∧ d' = d.put p .folder ∧ d'.find directory l = .ok p := by
  unfold makeFolder at h
  cases hlast : l.names.getLast? with
  | none => simp [hlast] at h
  | some last =>
    cases habove : d.find directory l.parent with
    | error f => simp [hlast, habove, bind, Except.bind] at h
    | ok above =>
      simp only [hlast, habove, bind, Except.bind] at h
      split at h
      · cases h
      split at h
      · cases h
      split at h
      · cases h
      next hnull hfolder hname =>
      have hup : last ≠ ".." := by
        rintro rfl
        have hsolid := (founded_of_find hdirectory habove).solid_dropLast
        simp [hsolid.folder _ (List.prefix_refl _)] at h
      rw [if_neg hup] at h
      split at h
      · cases h
      next hnone =>
      have hvacant : d.at? (above ++ [last]) = none := by simpa using hnone
      have hgrown := Grown.put_folder hvacant
      have hcan : d.CanStep above last := ⟨by simpa using hfolder, Nat.le_of_not_lt hname⟩
      have hfind : (d.put (above ++ [last]) .folder).find directory l = .ok (above ++ [last]) := by
        have hnames : l.names = l.parent.names ++ [last] := by
          obtain ⟨names, hconcat⟩ := List.getLast?_eq_some_iff.1 hlast
          simp [Location.parent, hconcat]
        rw [find_eq_ok_iff, hnames]
        refine ⟨by simpa using hnull, Leads.concat ?_ (hcan.grown hgrown) hup ?_⟩
        · exact ((find_eq_ok_iff.1 habove).2.grown hgrown)
        · intro target
          simp [at?_put_self]
      obtain rfl := Except.ok.inj h
      exact ⟨_, hvacant, rfl, hfind⟩

/-- What making a folder changes. -/
theorem grown_ensureFolder (hdirectory : d.Solid directory) (l : Location) :
    Grown (MadeFor d (d.ensureFolder directory l).2 directory l) d
      (d.ensureFolder directory l).2 := by
  unfold ensureFolder
  split
  · next d' hmake =>
    obtain ⟨p, hvacant, rfl, hfind⟩ := exists_of_makeFolder hdirectory hmake
    have hp : d.Vacant p := .inl hvacant
    refine (Grown.put_folder hvacant).mono ?_
    rintro _ rfl
    exact ⟨hvacant, at?_put_self d _ hp.ne_nil, l.names, List.prefix_refl _, hfind⟩
  · exact .refl _ d

/-- A folder that has been ensured is there. -/
theorem isFolder_ensureFolder (hdirectory : d.Solid directory)
    (h : d.ensureFolder directory l = (.ok (), d')) : d'.isFolder directory l = true := by
  unfold ensureFolder at h
  split at h
  · next d₁ hmake =>
    obtain ⟨p, hvacant, rfl, hfind⟩ := exists_of_makeFolder hdirectory hmake
    obtain ⟨-, rfl⟩ := Prod.mk.inj h
    have hp : d.Vacant p := .inl hvacant
    exact isFolder_iff.2 ⟨p, hfind, at?_put_self d _ hp.ne_nil⟩
  · obtain ⟨hok, rfl⟩ := Prod.mk.inj h
    split at hok
    · next hfolder => exact hfolder
    · cases hok

/-- Folders made for a location above another one, and then those that are made for it. -/
theorem Grown.makes (h : Grown (MadeFor d d' directory above) d d')
    (h' : Grown (MadeFor d' d'' directory l) d' d'') (hslashes : above.slashes = l.slashes)
    (hnames : above.names <+: l.names) : Grown (MadeFor d d'' directory l) d d'' := by
  refine (h.mono fun p hp => ?_).trans (h'.mono fun p hp => hp.earlier h)
  obtain ⟨slashes, names⟩ := above
  obtain rfl : slashes = l.slashes := hslashes
  exact (hp.of_le hnames).later h'

/-- What making folders along some names changes, by induction on the names. -/
theorem grown_makeFoldersFrom (hdirectory : d.Solid directory) (slashes : Nat)
    (names : List String) :
    Grown
      (MadeFor d (d.makeFoldersFrom directory slashes names).2 directory ⟨slashes, names.reverse⟩) d
      (d.makeFoldersFrom directory slashes names).2 := by
  induction names with
  | nil => exact grown_ensureFolder hdirectory ⟨slashes, []⟩
  | cons name above ih =>
    have hle : above.reverse <+: (name :: above).reverse := by
      rw [List.reverse_cons]
      exact List.prefix_append _ _
    rw [makeFoldersFrom]
    split
    · split
      · next d₁ hmade =>
        rw [hmade] at ih
        exact ih.makes (grown_ensureFolder (hdirectory.grown ih) _) rfl hle
      · exact ih.mono fun p hp => hp.of_le (l := ⟨slashes, _⟩) hle
    · exact grown_ensureFolder hdirectory _

/-- **New folders stand on the way to the location that they are made for**, and nothing else
changes. -/
theorem grown_makeFolders (hdirectory : d.Solid directory) (l : Location) :
    Grown (MadeFor d (d.makeFolders directory l).2 directory l) d
      (d.makeFolders directory l).2 := by
  have h := grown_makeFoldersFrom hdirectory l.slashes l.names.reverse
  rwa [List.reverse_reverse] at h

/-- Where folders are made, the location is a folder then. -/
theorem isFolder_makeFolders (hdirectory : d.Solid directory)
    (h : d.makeFolders directory l = (.ok (), d')) : d'.isFolder directory l = true := by
  have hself (names : List String) (hnames : l.names.reverse = names) :
      (⟨l.slashes, names.reverse⟩ : Location) = l := by
    rw [← hnames, List.reverse_reverse]
  rw [makeFolders] at h
  cases hnames : l.names.reverse with
  | nil =>
    rw [hnames, makeFoldersFrom] at h
    exact hself [] hnames ▸ isFolder_ensureFolder hdirectory h
  | cons name above =>
    rw [hnames, makeFoldersFrom] at h
    simp only [hself _ hnames] at h
    split at h
    · split at h
      · next d₁ hmade =>
        have hgrown := grown_makeFoldersFrom hdirectory l.slashes above
        rw [hmade] at hgrown
        exact isFolder_ensureFolder (hdirectory.grown hgrown) h
      · next hfailed => exact (hfailed () d' h).elim
    · exact isFolder_ensureFolder hdirectory h

/-! ## Files

Writing may replace a file, and puts one where nothing stood.  Either way no folder and no link is
lost. -/

/-- A file is written where its location leads, and not in the place of a folder. -/
theorem exists_of_write {bytes : List UInt8} (h : d.write directory l bytes = .ok d') :
    ∃ p, d.find directory l = .ok p ∧ d.at? p ≠ some .folder ∧ d' = d.put p (.file bytes) := by
  rw [write] at h
  cases hfind : d.find directory l with
  | error f => simp [hfind, bind, Except.bind] at h
  | ok p =>
    simp only [hfind, bind, Except.bind] at h
    split at h
    · cases h
    · next hother => exact ⟨p, rfl, hother, (Except.ok.inj h).symm⟩

/-- What is found and is no folder is vacant. -/
theorem vacant_of_find (hdirectory : d.Solid directory) (hfind : d.find directory l = .ok p)
    (hfolder : d.at? p ≠ some .folder) : d.Vacant p := by
  have hlink := (straight_of_find hdirectory hfind).link p (List.prefix_refl p)
  cases hat : d.at? p with
  | none => exact .inl hat
  | some item =>
    cases item with
    | file bytes => exact .inr ⟨bytes, hat⟩
    | link target => exact absurd hat (hlink target)
    | folder => exact absurd hat hfolder

/-- **A file is written where its location leads**, and nothing else changes. -/
theorem grown_write {bytes : List UInt8} (hdirectory : d.Solid directory)
    (h : d.write directory l bytes = .ok d') :
    Grown (fun p => d'.find directory l = .ok p) d d' := by
  obtain ⟨p, hfind, hfolder, rfl⟩ := exists_of_write h
  have hgrown := Grown.put_file (vacant_of_find hdirectory hfind hfolder) bytes
  refine hgrown.mono ?_
  rintro _ rfl
  exact find_grown hgrown hfind

/-- **What is appended to is a file afterwards**, and the disk has grown. -/
theorem grown_append {bytes : List UInt8} (hdirectory : d.Solid directory)
    (h : d.append directory l bytes = .ok d') :
    Grown (fun _ => True) d d' ∧ ∃ p, d'.find directory l = .ok p ∧ d'.HasFile p := by
  rw [append] at h
  cases hfind : d.find directory l with
  | error f => simp [hfind, bind, Except.bind] at h
  | ok p =>
    simp only [hfind, bind, Except.bind] at h
    obtain ⟨hfolder, content, rfl⟩ :
        d.at? p ≠ some .folder ∧ ∃ content, d' = d.put p (.file content) := by
      split at h
      · cases h
      · next hold => exact ⟨by simp [hold], _, (Except.ok.inj h).symm⟩
      · next hother _ => exact ⟨hother, _, (Except.ok.inj h).symm⟩
    have hvacant := vacant_of_find hdirectory hfind hfolder
    have hgrown := Grown.put_file hvacant content
    exact ⟨hgrown.mono fun _ _ => trivial, p, find_grown hgrown hfind, content,
      at?_put_self d _ hvacant.ne_nil⟩

/-- A file that is there can be appended to. -/
theorem exists_append {bytes : List UInt8} (hfind : d.find directory l = .ok p)
    (hfile : d.HasFile p) : ∃ d', d.append directory l bytes = .ok d' := by
  obtain ⟨old, hold⟩ := hfile
  rw [append, hfind]
  simp [bind, Except.bind, hold]

/-- Nothing can be appended to a name with a null byte. -/
theorem append_of_hasNullByte {bytes : List UInt8} (hnull : hasNullByte l = true) :
    d.append directory l bytes = .error .nullByte := by
  rw [append, find, if_pos hnull]
  rfl

/-- What cannot be appended to for another reason than the file system has a name with a null. -/
theorem isSystem_of_append {bytes : List UInt8} {fault : Fault} (hnull : hasNullByte l = false)
    (h : d.append directory l bytes = .error fault) : fault.isSystem = true := by
  rw [append] at h
  cases hfind : d.find directory l with
  | error f =>
    simp only [hfind, bind, Except.bind] at h
    obtain rfl := Except.error.inj h
    rw [find, hnull] at hfind
    exact isSystem_of_walk hfind
  | ok p =>
    simp only [hfind, bind, Except.bind] at h
    split at h
    · obtain rfl := Except.error.inj h
      rfl
    · cases h
    · cases h

/-! ## Below a folder

The location of a straight place leads to the place itself.  So what is made for it can be compared
with a folder above. -/

/-- Along the names of a straight place its location leads there. -/
theorem find_ofPlace (h : d.Straight place) (hfind : d.find directory (.ofPlace place) = .ok q) :
    q = place :=
  (find_eq_ok_iff.1 hfind).2.eq_of_straight h

/-- What is found is what the location stands for. -/
theorem resolve_of_find (h : d.find directory l = .ok q) : d.resolve directory l = .ok q := by
  obtain ⟨hnull, hleads⟩ := find_eq_ok_iff.1 h
  rw [resolve, hnull, hleads.walk_eq]
  rfl

/-- **Folders that are made on the way to a straight place below a folder are below it.** -/
theorem grown_makeFolders_ofPlace (hdirectory : d.Solid directory) (hroot : d.Solid root)
    (hle : root <+: place) (hplace : d.Straight place) :
    Grown (root <+: ·) d (d.makeFolders directory (Location.ofPlace place).parent).2 := by
  have hgrown := grown_makeFolders hdirectory (Location.ofPlace place).parent
  refine hgrown.mono fun p hp => ?_
  obtain ⟨names, hnames, hfind⟩ := hp.found
  have hp_le : names <+: place := hnames.trans (List.dropLast_prefix place)
  obtain rfl := find_ofPlace ((hplace.of_le hp_le).grown hgrown) hfind
  obtain hroot_le | hle_root := List.prefix_or_prefix_of_prefix hle hp_le
  · exact hroot_le
  · have hfolder := hroot.folder p hle_root
    rw [hp.before] at hfolder
    cases hfolder

/-- **A file written at a straight place below a folder stays below it.** -/
theorem grown_write_ofPlace {bytes : List UInt8} (hdirectory : d.Solid directory)
    (hle : root <+: place) (hplace : d.Straight place)
    (h : d.write directory (.ofPlace place) bytes = .ok d') : Grown (root <+: ·) d d' := by
  have hgrown := grown_write hdirectory h
  exact hgrown.mono fun p hp => find_ofPlace (hplace.grown hgrown) hp ▸ hle

/-- A file stands where it has been written. -/
theorem hasFile_of_write {bytes : List UInt8} (hplace : d.Straight place)
    (h : d.write directory (.ofPlace place) bytes = .ok d') : d'.HasFile place := by
  obtain ⟨p, hfind, hfolder, rfl⟩ := exists_of_write h
  obtain rfl := find_ofPlace hplace hfind
  have hne : p ≠ [] := by
    rintro rfl
    exact hfolder (at?_root d)
  exact ⟨bytes, at?_put_self d _ hne⟩

end MdxPages.Disk
