import MdxPages.Disk.Access
import MdxPages.Proofs.Disk.Growth

/-!
# Proofs/Disk/Access — what is written is read back

Where a file can be written, it is read back and can be written again (`Writable.exists_write`): the
folders that were made for it are there and are not made once more (`makeFolders_of_isFolder`).
-/

namespace MdxPages.Disk

variable {d d' : Disk} {P : Place → Prop} {directory p q : Place} {l : Location}

/-! ## Finding

A strict walk is taken from the working directory or from the root.  On a disk that has grown it
goes the same way. -/

/-- A place is found if the walk leads there, and no name holds a null byte. -/
theorem find_eq_ok_iff : d.find directory l = .ok q ↔
    hasNullByte l = false ∧ d.Leads q maxLinks (startOf directory l) l.names := by
  rw [find]
  cases h : hasNullByte l with
  | true => simp
  | false => simp [walk_eq_ok_iff]

/-- What is found stays where it is when the disk grows. -/
theorem find_grown (hd : Grown P d d') (h : d.find directory l = .ok q) :
    d'.find directory l = .ok q := by
  rw [find_eq_ok_iff] at h ⊢
  exact ⟨h.1, h.2.grown hd⟩

theorem hasNullByte_parent (h : hasNullByte l = false) : hasNullByte l.parent = false := by
  simp only [hasNullByte, List.any_eq_false] at h ⊢
  exact fun name hname => h name (List.dropLast_subset _ hname)

/-- **The way to a location goes through the folder above it.** -/
theorem find_parent (h : d.find directory l = .ok q) (hl : l.names ≠ []) :
    ∃ above left, d.find directory l.parent = .ok above ∧
      d.Leads q left above [l.names.getLast hl] := by
  rw [find_eq_ok_iff] at h
  obtain ⟨hnull, hleads⟩ := h
  rw [← List.dropLast_concat_getLast hl] at hleads
  obtain ⟨above, left, habove, hlast⟩ := hleads.last
  exact ⟨above, left, find_eq_ok_iff.2 ⟨hasNullByte_parent hnull, habove⟩, hlast⟩

/-! ## Folders

Folders are made from the top down, and those that are there are skipped. -/

/-- A location is a folder if a folder stands where it leads. -/
theorem isFolder_iff :
    d.isFolder directory l = true ↔ ∃ q, d.find directory l = .ok q ∧ d.at? q = some .folder := by
  unfold isFolder lookUp
  cases h : d.find directory l with
  | error f => simp [bind, Except.bind]
  | ok q =>
    simp [bind, Except.bind, pure, Except.pure]
    split <;> simp_all

/-- A folder stays one when the disk grows. -/
theorem isFolder_grown (hd : Grown P d d') (h : d.isFolder directory l = true) :
    d'.isFolder directory l = true := by
  rw [isFolder_iff] at h ⊢
  obtain ⟨q, hq, hfolder⟩ := h
  exact ⟨q, find_grown hd hq, hd.folder hfolder⟩

/-- Above what is found there is a folder. -/
theorem isFolder_parent (h : d.find directory l = .ok q) (hl : l.names ≠ []) :
    d.isFolder directory l.parent = true := by
  obtain ⟨above, left, habove, hlast⟩ := find_parent h hl
  exact isFolder_iff.2 ⟨above, habove, hlast.canStep.folder⟩

/-- A folder that is there is not made. -/
theorem makeFolder_of_isFolder (h : d.isFolder directory l = true) :
    d.makeFolder directory l = .error (.fileExists l.text) := by
  obtain ⟨q, hq, hfolder⟩ := isFolder_iff.1 h
  unfold makeFolder
  split
  · rfl
  · next last hlast =>
    have hl : l.names ≠ [] := by
      intro hnil
      rw [hnil] at hlast
      cases hlast
    obtain rfl : l.names.getLast hl = last := by
      rw [List.getLast?_eq_some_getLast hl] at hlast
      exact Option.some.inj hlast
    obtain ⟨above, left, habove, hleads⟩ := find_parent hq hl
    have hcan := hleads.canStep
    have hsome := hleads.isSome_at? (by rw [hfolder]; rfl)
    have hnull := (find_eq_ok_iff.1 hq).1
    rw [habove]
    simp [bind, Except.bind, hnull, hcan.folder, Nat.not_lt.2 hcan.name, hsome]

/-- A folder that is there is left as it is. -/
theorem ensureFolder_of_isFolder (h : d.isFolder directory l = true) :
    d.ensureFolder directory l = (.ok (), d) := by
  rw [ensureFolder, makeFolder_of_isFolder h]
  simp [h]

/-- **Folders that are there are not made once more.** -/
theorem makeFolders_of_isFolder (h : d.isFolder directory l = true) :
    d.makeFolders directory l = (.ok (), d) := by
  have hreverse (names : List String) (hnames : l.names.reverse = names) :
      (⟨l.slashes, names.reverse⟩ : Location) = l := by
    rw [← hnames, List.reverse_reverse]
  rw [makeFolders]
  cases hnames : l.names.reverse with
  | nil =>
    rw [makeFoldersFrom, show (⟨l.slashes, []⟩ : Location) = l from hreverse [] hnames,
      ensureFolder_of_isFolder h]
  | cons name above =>
    rw [makeFoldersFrom]
    simp only [hreverse _ hnames, makeFolder_of_isFolder h, ensureFolder_of_isFolder h]

/-! ## Writing and reading

`Writable` gathers what a write needs of the disk.  A file that is written keeps it, so the same
location can be read and written from then on. -/

/-- A location where a file can be written: its folder is there or can be made, and in its place is
nothing or a file. -/
def Writable (d : Disk) (directory : Place) (l : Location) : Prop :=
  ∃ d' p, d.makeFolders directory l.parent = (.ok (), d') ∧ d'.find directory l = .ok p ∧
    d'.Vacant p

/-- A file is put where its location leads, if nothing or a file stands there. -/
theorem write_eq {bytes : List UInt8} (hfind : d.find directory l = .ok p) (hp : d.Vacant p) :
    d.write directory l bytes = .ok (d.put p (.file bytes)) := by
  rw [write, hfind]
  obtain h | ⟨old, h⟩ := hp <;> simp [bind, Except.bind, h]

/-- A file is read from the place that its location leads to. -/
theorem read_eq_ok_iff {bytes : List UInt8} : d.read directory l = .ok bytes ↔
    ∃ q, d.find directory l = .ok q ∧ d.at? q = some (.file bytes) := by
  rw [read, lookUp]
  cases d.find directory l with
  | error f => simp [bind, Except.bind]
  | ok q =>
    simp only [bind, Except.bind, pure, Except.pure, Except.ok.injEq, exists_eq_left']
    split <;> simp_all

/-- What is put there is read back. -/
theorem read_put {bytes : List UInt8} (hfind : d.find directory l = .ok p) (hp : d.Vacant p) :
    (d.put p (.file bytes)).read directory l = .ok bytes :=
  read_eq_ok_iff.2
    ⟨p, find_grown (.put_file hp bytes) hfind, at?_put_self d (.file bytes) hp.ne_nil⟩

/-- Where nothing stands, reading says which file there is not. -/
theorem read_of_missing (hfind : d.find directory l = .ok q) (hq : d.at? q = none) :
    d.read directory l = .error (.noSuchFile l.text) := by
  rw [read, lookUp, hfind]
  simp [bind, Except.bind, pure, Except.pure, hq]

/-- What can be read is a file. -/
theorem isFile_of_read {bytes : List UInt8} (h : d.read directory l = .ok bytes) :
    d.isFile directory l = true := by
  obtain ⟨q, hfind, hfile⟩ := read_eq_ok_iff.1 h
  rw [isFile, lookUp, hfind]
  simp [bind, Except.bind, pure, Except.pure, hfile]

/-- What can be read is there. -/
theorem contains_of_read {bytes : List UInt8} (h : d.read directory l = .ok bytes) :
    d.contains directory l = .ok true := by
  obtain ⟨q, hfind, hfile⟩ := read_eq_ok_iff.1 h
  rw [contains, lookUp, hfind]
  simp [bind, Except.bind, pure, Except.pure, hfile]

/-- What is a file can be read. -/
theorem exists_read_of_isFile (h : d.isFile directory l = true) :
    ∃ bytes, d.read directory l = .ok bytes := by
  rw [isFile, lookUp] at h
  cases hfind : d.find directory l with
  | error f => simp [hfind, bind, Except.bind] at h
  | ok q =>
    simp only [hfind, bind, Except.bind, pure, Except.pure] at h
    split at h
    · next bytes hfile => exact ⟨bytes, read_eq_ok_iff.2 ⟨q, hfind, Except.ok.inj hfile⟩⟩
    · cases h

/-- A location without names is a folder where its folder is there. -/
theorem names_ne_nil (hfolders : d.makeFolders directory l.parent = (.ok (), d'))
    (hfind : d'.find directory l = .ok p) (hp : d'.Vacant p) : l.names ≠ [] := by
  intro hl
  have hparent : l.parent = ⟨l.slashes, []⟩ := by simp [Location.parent, hl]
  have hself : l = ⟨l.slashes, []⟩ := by rw [← hl]
  have hmade : d.makeFolders directory l.parent = d.ensureFolder directory l := by
    rw [hparent, makeFolders, ← hself]
    simp [hl, makeFoldersFrom, ← hself]
  have hexists : d.makeFolder directory l = .error (.fileExists l.text) := by
    unfold makeFolder
    rw [hl]
    rfl
  rw [hmade, ensureFolder, hexists] at hfolders
  obtain ⟨hok, rfl⟩ := Prod.mk.inj hfolders
  split at hok
  · next hfolder =>
    obtain ⟨q, hq, hat⟩ := isFolder_iff.1 hfolder
    obtain rfl : q = p := Except.ok.inj (hq.symm.trans hfind)
    exact hp.not_folder hat
  · cases hok

/-- A file that has been written can be written again. -/
theorem writable_put {bytes : List UInt8} (hl : l.names ≠ []) (hfind : d.find directory l = .ok p)
    (hp : d.Vacant p) : (d.put p (.file bytes)).Writable directory l := by
  have hgrown := Grown.put_file hp bytes
  have hfolder := isFolder_grown hgrown (isFolder_parent hfind hl)
  exact ⟨_, p, makeFolders_of_isFolder hfolder, find_grown hgrown hfind,
    .inr ⟨bytes, at?_put_self d _ hp.ne_nil⟩⟩

/-- **Where a file can be written, it is written and read back**, and it can be written again. -/
theorem Writable.exists_write (h : d.Writable directory l) (bytes : List UInt8) :
    ∃ d₁ d₂, d.makeFolders directory l.parent = (.ok (), d₁) ∧
      d₁.write directory l bytes = .ok d₂ ∧ d₂.read directory l = .ok bytes ∧
      d₂.Writable directory l := by
  obtain ⟨d₁, p, hfolders, hfind, hp⟩ := h
  have hl := names_ne_nil hfolders hfind hp
  exact ⟨d₁, _, hfolders, write_eq hfind hp, read_put hfind hp, writable_put hl hfind hp⟩

/-- A file that cannot be read where it could be written is refused by the file system. -/
theorem Writable.isSystem_of_read (h : d.Writable directory l) {fault : Fault}
    (hread : d.read directory l = .error fault) : fault.isSystem = true := by
  obtain ⟨d₁, p, -, hfind, -⟩ := h
  have hnull := (find_eq_ok_iff.1 hfind).1
  rw [read, lookUp] at hread
  cases hplace : d.find directory l with
  | error f =>
    rw [hplace] at hread
    obtain rfl := Except.error.inj hread
    rw [find, hnull] at hplace
    exact isSystem_of_walk hplace
  | ok q =>
    rw [hplace] at hread
    simp [bind, Except.bind, pure, Except.pure] at hread
    split at hread
    · cases hread
    · obtain rfl := Except.error.inj hread
      rfl
    · obtain rfl := Except.error.inj hread
      rfl

end MdxPages.Disk
