import MdxPages.Proofs.Bytes
import MdxPages.Proofs.References.Kept
import MdxPages.Proofs.Site.Work
import MdxPages.Site.Registry

/-!
# Proofs/Site/Registry — what runs leave in the registry module

Persisting a registry leaves a module that is read as what was written for the references that were
there and those that were added (`persist_apply`).  So the entries of earlier runs survive later
ones (`persist_persist`), unless one looks like the code around it (`closingText_lost`).
-/

namespace MdxPages.Registry

open References

variable {w w' : Workplace} {l : Location} {r old a b : References}

/-! ## Reading the module

A file that is missing counts as an empty module, and one that cannot be read as one too, with a
record about it. -/

/-- The references of the module at a location of a disk: a file that the file system refuses, or
that holds no text, holds none. -/
def held (d : Disk) (directory : Place) (l : Location) : Except Failure References :=
  match d.read directory l with
  | .ok bytes => .ok ((Bytes.linesText? bytes).elim {} parse)
  | .error f => if f.isSystem then .ok {} else .error (.fault f)

theorem readExisting_apply (l : Location) (w : Workplace) :
    ∃ log, readExisting l w = (held w.disk w.directory l, { w with log }) := by
  rw [readExisting, Work.bind_of_ok (Work.get_apply w), held]
  cases w.disk.read w.directory l with
  | ok bytes =>
    dsimp only
    cases Bytes.linesText? bytes with
    | some text => exact ⟨w.log, rfl⟩
    | none => exact ⟨_, rfl⟩
  | error f =>
    dsimp only
    split
    · exact ⟨_, rfl⟩
    · exact ⟨w.log, rfl⟩

/-- The module at a location holds references: it is read as them, and no escape in it stands for
half of a surrogate pair, which can be read there but not be written again. -/
structure Holds (w : Workplace) (l : Location) (r : References) : Prop where
  read : (readExisting l w).1 = .ok r
  whole : ∀ bytes text, w.disk.read w.directory l = .ok bytes → Bytes.linesText? bytes = some text →
    escapesHalf text.toList = false

/-- What a module holds is what reading finds in it. -/
theorem Holds.held_eq (h : Holds w l r) : held w.disk w.directory l = .ok r := by
  obtain ⟨log, hread⟩ := readExisting_apply l w
  have hresult := h.read
  rwa [hread] at hresult

/-- A module holds what is found in it, if its file escapes no half of a surrogate pair. -/
theorem holds_of_held (h : held w.disk w.directory l = .ok r)
    (hwhole : ∀ bytes text, w.disk.read w.directory l = .ok bytes →
      Bytes.linesText? bytes = some text → escapesHalf text.toList = false) : Holds w l r where
  read := by
    obtain ⟨log, hread⟩ := readExisting_apply l w
    rw [hread, h]
  whole := hwhole

theorem Holds.congr (h : Holds w l r) (hdisk : w'.disk = w.disk)
    (hdirectory : w'.directory = w.directory) : Holds w' l r := by
  refine holds_of_held ?_ ?_
  · rw [hdisk, hdirectory, h.held_eq]
  · rw [hdisk, hdirectory]
    exact h.whole

/-- Where a module has been written, it holds what is read of it. -/
theorem holds_of_read (h : w.disk.read w.directory l = .ok (Bytes.ofText (render r))) :
    Holds w l (parse (render r)) := by
  have hlines := Bytes.linesText?_ofText (return_notMem_render r)
  refine holds_of_held ?_ fun bytes text hbytes htext => ?_
  · rw [held, h]
    dsimp only
    rw [hlines]
    rfl
  · obtain rfl := Except.ok.inj (h.symm.trans hbytes)
    obtain rfl := Option.some.inj (hlines.symm.trans htext)
    exact escapesHalf_render r

/-- Where a file could be written and there is none, there are no references. -/
theorem holds_empty (h : w.Writable l) (hnone : w.disk.isFile w.directory l = false) :
    Holds w l {} := by
  have hunread (bytes : List UInt8) : w.disk.read w.directory l ≠ .ok bytes := by
    intro hbytes
    rw [Disk.isFile_of_read hbytes] at hnone
    cases hnone
  refine holds_of_held ?_ fun bytes _ hbytes => absurd hbytes (hunread bytes)
  rw [held]
  split
  · next bytes hbytes => exact absurd hbytes (hunread bytes)
  · next f hf => rw [if_pos (h.isSystem_of_read hf)]

/-! ## Persisting -/

/-- **Persisting writes a module** of the references that were there, and over them those of the
registry; the disk changes, and the log, and nothing else. -/
theorem exists_persist (hw : w.Writable l) (hold : Holds w l old) :
    ∃ d log, persist l w = (.ok (old.merge w.registry), { w with disk := d, log }) ∧
      d.Writable w.directory l ∧
      d.read w.directory l = .ok (Bytes.ofText (render (old.merge w.registry))) := by
  obtain ⟨log, hread⟩ := readExisting_apply l w
  rw [hold.held_eq] at hread
  have hw' : Workplace.Writable { w with log } l := hw
  obtain ⟨d, hwrite, hbytes, hwritable⟩ :=
    Work.writeText_apply hw' (render (old.merge w.registry))
  refine ⟨d, (persist l w).2.log, ?_, hwritable, hbytes⟩
  rw [persist, Work.bind_of_ok hread, Work.bind_of_ok (Work.get_apply _),
    Work.bind_of_ok hwrite]
  rfl

/-- **Persisting leaves a module that is read as what was written**: the references that were there,
and over them those of the registry. -/
theorem persist_apply (hw : w.Writable l) (hold : Holds w l old) :
    ∃ w', persist l w = (.ok (old.merge w.registry), w') ∧ w'.Writable l ∧
      Holds w' l (parse (render (old.merge w.registry))) := by
  obtain ⟨d, log, hpersist, hwritable, hbytes⟩ := exists_persist hw hold
  exact ⟨_, hpersist, hwritable, holds_of_read hbytes⟩

/-- **Registry entries survive later runs.**  Two registries that are persisted one after the other
to a location where a file can be written leave a module in which each name and each URL has the
entry of the second one, or else of the first one, or else of what was there before; texts are cut
to the greatest length.  No literal of the three may be mistaken for code, and what was there before
may hold no escape of half a surrogate pair, as nothing that is persisted does. -/
theorem persist_persist (hw : w.Writable l) (hold : Holds w l old)
    (hkeyed : old.WellKeyed ∧ a.WellKeyed ∧ b.WellKeyed)
    (hplain : old.Unmistakable ∧ a.Unmistakable ∧ b.Unmistakable) :
    ∃ w₁ w₂ r, persist l { w with registry := a } = (.ok (old.merge a), w₁) ∧
      persist l { w₁ with registry := b } = (.ok ((old.merge a).kept.merge b), w₂) ∧
      Holds w₂ l r ∧
      (∀ name, r.substitutions.get? name =
        ((b.substitutions.get? name).or
          ((a.substitutions.get? name).or (old.substitutions.get? name))).map cutText) ∧
      ∀ url, r.refs.get? url =
        ((b.refs.get? url).or ((a.refs.get? url).or (old.refs.get? url))).map RefTarget.cut := by
  obtain ⟨hold₁, ha₁, hb₁⟩ := hkeyed
  obtain ⟨hold₂, ha₂, hb₂⟩ := hplain
  have hkept₁ := (hold₁.merge ha₁).kept
  have hkept₂ := (hold₂.merge ha₂).kept
  obtain ⟨w₁, hpersist₁, hw₁, hholds₁⟩ :=
    persist_apply (w := { w with registry := a }) hw (hold.congr rfl rfl)
  rw [parse_render_eq_kept (hold₁.merge ha₁) (hold₂.merge ha₂)] at hholds₁
  obtain ⟨w₂, hpersist₂, hw₂, hholds₂⟩ :=
    persist_apply (w := { w₁ with registry := b }) hw₁ (hholds₁.congr rfl rfl)
  rw [parse_render_eq_kept (hkept₁.merge hb₁) (hkept₂.merge hb₂)] at hholds₂
  refine ⟨w₁, w₂, _, hpersist₁, hpersist₂, hholds₂, fun name => ?_, fun url => ?_⟩
  · rw [get?_substitutions_kept_merge hkept₁ hb₁, get?_substitutions_kept_merge hold₁ ha₁,
      map_or_map cutText_cutText]
  · rw [get?_refs_kept_merge hkept₁ hb₁, get?_refs_kept_merge hold₁ ha₁,
      map_or_map RefTarget.cut_cut]

/-! ## Two runs in an empty directory

One case in which the entries of both runs are there afterwards, and one in which an entry is lost.
-/

/-- The module in the directory of a run. -/
def here : Location := ⟨0, [fileName]⟩

theorem find_here : ({} : Disk).find [] here = .ok [fileName] :=
  Disk.find_eq_ok_iff.2
    ⟨by decide, .on ⟨rfl, by decide⟩ (by decide) (fun target h => by cases h) .done⟩

/-- The module can be written there. -/
theorem writable_here : ({} : Workplace).Writable here := by
  have hfolder : ({} : Disk).isFolder [] here.parent = true :=
    Disk.isFolder_iff.2 ⟨[], Disk.find_eq_ok_iff.2 ⟨rfl, .done⟩, rfl⟩
  exact ⟨_, _, Disk.makeFolders_of_isFolder hfolder, find_here, .inl rfl⟩

/-- Where there is no file, there are no references. -/
theorem holds_here : Holds {} here {} := by
  have hread : ({} : Disk).read [] here = .error (.noSuchFile here.text) := by
    rw [Disk.read, Disk.lookUp, find_here]
    rfl
  refine holds_of_held ?_ fun bytes _ hbytes => ?_
  · rw [held, hread]
    rfl
  · rw [hread] at hbytes
    cases hbytes

/-- The references of a first run. -/
def firstRun : References :=
  ⟨[("service", "Atlas"), ("release", "it's \x7b1.0\x7d")], [("/install", ⟨"Install", "/install"⟩)]⟩

/-- The references of a second run, which names one thing anew. -/
def secondRun : References :=
  ⟨[("release", "2.0")], []⟩

/-- The second run keeps what the first one wrote, but for the name that it changes. -/
theorem persist_persist_runs :
    ∃ w₁ w₂ r, persist here { registry := firstRun } = (.ok firstRun, w₁) ∧
      persist here { w₁ with registry := secondRun } =
        (.ok (firstRun.kept.merge secondRun), w₂) ∧
      Holds w₂ here r ∧ r.substitutions.get? "service" = some "Atlas" ∧
      r.substitutions.get? "release" = some "2.0" ∧
      r.refs.get? "/install" = some ⟨"Install", "/install"⟩ := by
  have hkeyed : (({} : References).WellKeyed ∧ firstRun.WellKeyed ∧ secondRun.WellKeyed) := by
    refine ⟨?_, ?_, ?_⟩ <;> constructor <;> decide
  have hplain : (({} : References).Unmistakable ∧ firstRun.Unmistakable ∧
      secondRun.Unmistakable) := by
    refine ⟨?_, ?_, ?_⟩ <;> constructor <;> decide
  obtain ⟨w₁, w₂, r, hfirst, hsecond, hholds, hnames, hurls⟩ :=
    persist_persist writable_here holds_here hkeyed hplain
  rw [empty_merge hkeyed.2.1] at hfirst hsecond
  refine ⟨w₁, w₂, r, hfirst, hsecond, hholds, ?_, ?_, ?_⟩
  · rw [hnames]
    decide
  · rw [hnames]
    decide
  · rw [hurls]
    decide

/-- A substitution whose text looks like the end of the substitutions. -/
def closingText : References :=
  ⟨[("a", "\x7d as const")], []⟩

/-- The references of a run that has nothing to do with it. -/
def laterRun : References :=
  ⟨[("c", "y")], []⟩

/-- The module of the substitution, as it is written. -/
theorem render_closingText :
    render closingText =
      "export const substitutions = \x7b\n    \"a\": '\x7d as const',\n\x7d as const;\n" ++
        "export const refs = \x7b\n\n\x7d as const;\n" ++
        "const references = \x7b substitutions, refs \x7d as const;\n" ++
        "export default references;\n" := by
  rw [render, sorted, sorted, closingText, List.mergeSort_singleton, List.mergeSort_nil]
  decide +kernel

/-- The module that is written for it holds nothing. -/
theorem parse_render_closingText : parse (render closingText) = {} := by
  have hsubstitutions : (parse (render closingText)).substitutions = [] := by
    rw [render_closingText]
    decide +kernel
  have hrefs : (parse (render closingText)).refs = [] := by
    rw [render_closingText]
    decide +kernel
  exact congr (congrArg References.mk hsubstitutions) hrefs

/-- **An entry can be lost by a later run**: a text that looks like the end of an object ends the
object where it stands, so that a run that has nothing to do with it deletes its entry. -/
theorem closingText_lost :
    closingText.WellKeyed ∧ laterRun.WellKeyed ∧
      ∃ w₁ w₂ r, persist here { registry := closingText } = (.ok closingText, w₁) ∧
        persist here { w₁ with registry := laterRun } = (.ok laterRun, w₂) ∧
        Holds w₂ here r ∧ closingText.substitutions.get? "a" = some "\x7d as const" ∧
        laterRun.substitutions.get? "a" = none ∧ r.substitutions.get? "a" = none := by
  have hkeyed : closingText.WellKeyed ∧ laterRun.WellKeyed := by
    refine ⟨?_, ?_⟩ <;> constructor <;> decide
  have hplain : laterRun.Unmistakable := by
    constructor <;> decide
  obtain ⟨w₁, hfirst, hw₁, hholds₁⟩ :=
    persist_apply (w := { registry := closingText }) writable_here (holds_here.congr rfl rfl)
  rw [empty_merge hkeyed.1] at hfirst hholds₁
  rw [parse_render_closingText] at hholds₁
  obtain ⟨w₂, hsecond, -, hholds₂⟩ :=
    persist_apply (w := { w₁ with registry := laterRun }) hw₁ (hholds₁.congr rfl rfl)
  rw [empty_merge hkeyed.2] at hsecond hholds₂
  rw [parse_render_eq_kept hkeyed.2 hplain] at hholds₂
  refine ⟨hkeyed.1, hkeyed.2, w₁, w₂, _, hfirst, hsecond, hholds₂, rfl, rfl, ?_⟩
  rw [get?_substitutions_kept hkeyed.2]
  rfl

end MdxPages.Registry
