import MdxPages.Proofs.Disk.Walk

/-!
# Proofs/Disk/Growth — a disk to which files and folders are added

A disk grows at places if it stays as it was everywhere else, and keeps its folders and its links
(`Grown`).  What leads somewhere on it then leads there on the disk that has grown.
-/

namespace MdxPages.Disk

variable {d d' d'' : Disk} {P Q : Place → Prop} {here p q : Place} {names : List String}
  {name : String} {item : Item} {links : Nat} {directory : Place} {l : Location}

/-- A disk that has grown, at none but the given places: it has the folders and the links that were
there, no other links, files where there were files, and nothing is gone. -/
structure Grown (P : Place → Prop) (d d' : Disk) : Prop where
  same : ∀ p, ¬ P p → d'.at? p = d.at? p
  folder : ∀ {p}, d.at? p = some .folder → d'.at? p = some .folder
  file : ∀ {p}, d.HasFile p → d'.HasFile p
  link : ∀ {p target}, d'.at? p = some (.link target) ↔ d.at? p = some (.link target)
  kept : ∀ {p}, d'.at? p = none → d.at? p = none

namespace Grown

/-- A disk has grown from itself, by nothing. -/
theorem refl (P : Place → Prop) (d : Disk) : Grown P d d :=
  ⟨fun _ _ => rfl, id, id, Iff.rfl, id⟩

/-- Growing twice is growing. -/
theorem trans (h : Grown P d d') (h' : Grown P d' d'') : Grown P d d'' :=
  ⟨fun p hp => (h'.same p hp).trans (h.same p hp), fun hp => h'.folder (h.folder hp),
    fun hp => h'.file (h.file hp), h'.link.trans h.link, fun hp => h.kept (h'.kept hp)⟩

/-- A disk that has grown at some places has grown at more. -/
theorem mono (h : Grown P d d') (hPQ : ∀ p, P p → Q p) : Grown Q d d' :=
  ⟨fun p hp => h.same p fun hp' => hp (hPQ p hp'), h.folder, h.file, h.link, h.kept⟩

/-- **A disk grows where a file or a folder is put in a vacant place**, if no folder takes the place
of a file. -/
theorem put (hp : d.Vacant p) (hitem : ∀ target, item ≠ .link target)
    (hfile : d.HasFile p → (d.put p item).HasFile p) : Grown (· = p) d (d.put p item) where
  same q hq := at?_put_of_ne d item hq
  folder hq := hp.at?_put_of_folder item hq
  file {q} hq := by
    by_cases heq : q = p
    · exact heq ▸ hfile (heq ▸ hq)
    · exact hq.imp fun bytes hbytes => (at?_put_of_ne d item heq).trans hbytes
  link {q target} := by
    by_cases heq : q = p
    · rw [heq, at?_put_self d item hp.ne_nil, Option.some.injEq]
      exact iff_of_false (hitem target) (hp.not_link target)
    · rw [at?_put_of_ne d item heq]
  kept {q} hq := by
    by_cases heq : q = p
    · rw [heq, at?_put_self d item hp.ne_nil] at hq
      cases hq
    · rwa [at?_put_of_ne d item heq] at hq

/-- A file in a vacant place, which may stand for another file. -/
theorem put_file (hp : d.Vacant p) (bytes : List UInt8) :
    Grown (· = p) d (d.put p (.file bytes)) :=
  put hp (fun _ => Item.noConfusion) fun _ => ⟨bytes, at?_put_self d _ hp.ne_nil⟩

/-- A folder where nothing stood. -/
theorem put_folder (hp : d.at? p = none) : Grown (· = p) d (d.put p .folder) :=
  put (.inl hp) (fun _ => Item.noConfusion) fun ⟨bytes, hbytes⟩ => by
    rw [hp] at hbytes
    cases hbytes

end Grown

/-! ## Walks

What is added stands where nothing stood or a file did, and neither is in the way of a walk. -/

/-- A step that may be taken may still be taken. -/
theorem CanStep.grown (h : d.CanStep here name) (hd : Grown P d d') : d'.CanStep here name :=
  ⟨hd.folder h.folder, h.name⟩

/-- **A walk finds its way on a disk that has grown.** -/
theorem Leads.grown (h : d.Leads q links here names) (hd : Grown P d d') :
    d'.Leads q links here names := by
  induction h with
  | done => exact .done
  | up can rest ih => exact .up (can.grown hd) ih
  | link can hup hlink rest ih => exact .link (can.grown hd) hup (hd.link.2 hlink) ih
  | on can hup hlink rest ih =>
    exact .on (can.grown hd) hup (fun target htarget => hlink target (hd.link.1 htarget)) ih

/-- A walk that is not strict minds nothing but links. -/
theorem Grown.walk_eq (hd : Grown P d d') :
    d'.walk false links here names = d.walk false links here names := by
  fun_induction walk d false links here names with
  | case1 => rw [walk]
  | case2 _ _ _ _ h | case3 _ _ _ _ _ h => simp at h
  | case4 links here rest _ _ ih =>
    rw [walk]
    simpa using ih
  | case5 here name rest _ _ hup target hlink =>
    rw [walk]
    simp [hup, hd.link.2 hlink]
  | case6 here name rest _ _ hup text hlink links target ih =>
    rw [walk]
    simpa [hup, hd.link.2 hlink] using ih
  | case7 links here name rest _ _ hup hlink ih =>
    have hother (target : String) : d'.at? (here ++ [name]) ≠ some (.link target) := fun htarget =>
      hlink target (hd.link.1 htarget)
    rw [walk]
    simpa [hup, hother] using ih

/-- A location stands for the same place as before. -/
theorem Grown.resolve_eq (hd : Grown P d d') : d'.resolve directory l = d.resolve directory l := by
  rw [resolve, resolve, hd.walk_eq]

end MdxPages.Disk
