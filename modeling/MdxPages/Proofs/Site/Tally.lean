import Mathlib
import MdxPages.Proofs.Convert.Imports
import MdxPages.Proofs.References.Canonical
import MdxPages.Proofs.Site.Written

/-!
# Proofs/Site/Tally — what a page has written is what it counts

While a page is converted its fragments are handed over one after the other.  Each of them is
written, or it is left out: its path is refused, it cannot be rendered, or its file cannot be
written (`Delivery`).  **The tally** (`writePage_tally`): a page that has come out names the files
of the fragments that were written, in order, and then its own; its references are those of the same
trees in the same order; and these are what the registry has received.  A page that fails leaves the
registry as it was.
-/

namespace MdxPages

/-! ## Work that counts no references -/

namespace Work

variable {α β : Type} {x : Work α} {f : α → Work β}

/-- Work that leaves the registry alone, whether it succeeds or not. -/
def Uncounted (x : Work α) : Prop :=
  ∀ w, (x w).2.registry = w.registry

/-- Work that leaves the registry alone if it fails. -/
def CountsLast (x : Work α) : Prop :=
  ∀ w failure w', x w = (.error failure, w') → w'.registry = w.registry

namespace Uncounted

/-- Such work leaves the registry as it was. -/
theorem registry_eq {w w' : Workplace} {result : Except Failure α} (h : Uncounted x)
    (hx : x w = (result, w')) : w'.registry = w.registry := by
  have hw := h w
  rwa [hx] at hw

/-- Records are no references. -/
theorem of_onlyRecords (h : OnlyRecords x) : Uncounted x := by
  intro w
  obtain ⟨answer, h⟩ := h
  obtain ⟨log, hw⟩ := h w
  rw [hw]

theorem bind (hx : Uncounted x) (hf : ∀ a, Uncounted (f a)) : Uncounted (x >>= f) := by
  intro w
  have hfirst := hx w
  rw [bind_apply]
  generalize x w = p at hfirst ⊢
  obtain ⟨_ | a, w'⟩ := p
  · exact hfirst
  · exact (hf a w').trans hfirst

theorem get {f : Workplace → Work β} (hf : ∀ w, Uncounted (f w)) :
    Uncounted (MonadState.get >>= f) :=
  fun w => hf w w

theorem lift (r : Except Failure α) : Uncounted (Work.lift r) :=
  fun _ => rfl

theorem liftFault (r : Except Fault α) : Uncounted (Work.liftFault r) :=
  fun _ => rfl

theorem record (logger : String) (level : Level) (message : String) :
    Uncounted (Work.record logger level message) :=
  fun _ => rfl

/-- One step after another that counts nothing, the last of which counts if it succeeds. -/
theorem bind_countsLast (hx : Uncounted x) (hf : ∀ a, CountsLast (f a)) : CountsLast (x >>= f) := by
  intro w failure w' h
  have hfirst := hx w
  rw [bind_apply] at h
  generalize x w = p at hfirst h
  obtain ⟨_ | a, w₁⟩ := p
  · exact (Prod.mk.inj h).2 ▸ hfirst
  · exact (hf a w₁ failure w' h).trans hfirst

end Uncounted

/-! ## Work that leaves nothing but a disk -/

/-- Work that may change the disk, and nothing else of the workplace. -/
def OnlyDisk (x : Work α) : Prop :=
  ∀ w, ∃ disk, (x w).2 = { w with disk }

namespace OnlyDisk

theorem uncounted (h : OnlyDisk x) : Uncounted x := by
  intro w
  obtain ⟨disk, hw⟩ := h w
  rw [hw]

theorem liftFault (r : Except Fault α) : OnlyDisk (Work.liftFault r) :=
  fun w => ⟨w.disk, rfl⟩

/-- Folders are on the disk. -/
theorem makeFolders (l : Location) : OnlyDisk (Work.makeFolders l) :=
  fun _ => ⟨_, rfl⟩

theorem bind (hx : OnlyDisk x) (hf : ∀ a, OnlyDisk (f a)) : OnlyDisk (x >>= f) := by
  intro w
  obtain ⟨disk, hfirst⟩ := hx w
  rw [bind_apply]
  generalize x w = p at hfirst ⊢
  obtain ⟨_ | a, w'⟩ := p
  · exact ⟨disk, hfirst⟩
  · obtain rfl : w' = { w with disk } := hfirst
    exact hf a { w with disk }

theorem reportingAs {failure : Failure} (hx : OnlyDisk x) :
    OnlyDisk (Work.reportingAs failure x) := by
  intro w
  rw [reportingAs_snd]
  exact hx w

theorem change (change : Disk → Place → Except Fault Disk) : OnlyDisk (Work.change change) :=
  bind (fun w => ⟨w.disk, rfl⟩) fun disk _ => ⟨disk, rfl⟩

/-- And so are files. -/
theorem writeText (l : Location) (text : String) : OnlyDisk (Work.writeText l text) :=
  reportingAs (bind (.makeFolders l.parent) fun _ => .change _)

end OnlyDisk

end Work

namespace Site

open Work

variable {rendering : RenderOptions} {root : Location} {w w' : Workplace} {path : String}
  {tree : Node} {added : List (Location × Node)}

/-! ## Fragments

Whether a fragment is written is settled by the disk before it and by its own path and tree. -/

/-- What becomes of a fragment that is handed over: its file and its tree, if it has been written,
and the workplace afterwards. -/
inductive Delivery (rendering : RenderOptions) (root : Location) (path : String) (tree : Node)
    (w : Workplace) : List (Location × Node) → Workplace → Prop
  | written {place : Place} {text : String} {w' : Workplace}
      (safe : Archive.safePlace w.disk w.directory root path = .ok place)
      (rendered : Mdx.render rendering tree = .ok text)
      (wrote : writeText (.ofPlace place) text w = (.ok (), w')) :
      Delivery rendering root path tree w [(.ofPlace place, tree)] w'
  | refused {failure : Failure}
      (refused : Archive.safePlace w.disk w.directory root path = .error failure) :
      Delivery rendering root path tree w [] w
  | unrendered {place : Place} {fault : Fault}
      (safe : Archive.safePlace w.disk w.directory root path = .ok place)
      (fails : Mdx.render rendering tree = .error fault) :
      Delivery rendering root path tree w [] w
  | unwritten {place : Place} {text : String} {failure : Failure} {w' : Workplace}
      (safe : Archive.safePlace w.disk w.directory root path = .ok place)
      (rendered : Mdx.render rendering tree = .ok text)
      (fails : writeText (.ofPlace place) text w = (.error failure, w')) :
      Delivery rendering root path tree w [] w'

/-- What becomes of fragments that are handed over one after the other: the files and trees of those
that have been written, in order. -/
inductive Deliveries (rendering : RenderOptions) (root : Location) :
    Workplace → List (String × Node) → List (Location × Node) → Workplace → Prop
  | nil (w : Workplace) : Deliveries rendering root w [] [] w
  | cons {w w' w'' : Workplace} {path : String} {tree : Node} {fragments : List (String × Node)}
      {added kept : List (Location × Node)} (first : Delivery rendering root path tree w added w')
      (rest : Deliveries rendering root w' fragments kept w'') :
      Deliveries rendering root w ((path, tree) :: fragments) (added ++ kept) w''

/-- Writing a fragment, step by step. -/
theorem writeFragment_apply (rendering : RenderOptions) (root : Location) (path : String)
    (tree : Node) (w : Workplace) :
    writeFragment rendering root path tree w =
      match Archive.safePlace w.disk w.directory root path with
      | .error failure => (.error failure, w)
      | .ok place =>
        match Mdx.render rendering tree with
        | .error fault => (.error (.fault fault), w)
        | .ok text =>
          match writeText (.ofPlace place) text w with
          | (.ok _, w') => (.ok (.ofPlace place), w')
          | (.error failure, w') => (.error failure, w') := by
  rw [writeFragment, bind_of_ok (get_apply w)]
  cases hsafe : Archive.safePlace w.disk w.directory root path with
  | error failure => rfl
  | ok place =>
    have hlift : Work.lift (.ok place) w = (.ok place, w) := rfl
    rw [bind_of_ok hlift, bind_apply, writeTree, bind_apply, liftFault_apply]
    cases hrender : Mdx.render rendering tree with
    | error fault => rfl
    | ok text =>
      dsimp only [mapError_ok]
      cases hwrite : writeText (.ofPlace place) text w with
      | mk result w' => cases result <;> rfl

/-- Writing a fragment is a delivery, and its result says which. -/
theorem delivery_writeFragment (rendering : RenderOptions) (root : Location) (path : String)
    (tree : Node) (w : Workplace) :
    Delivery rendering root path tree w
      (((writeFragment rendering root path tree w).1.toOption.map fun target =>
        (target, tree)).toList) (writeFragment rendering root path tree w).2 := by
  rw [writeFragment_apply]
  cases hsafe : Archive.safePlace w.disk w.directory root path with
  | error failure => exact .refused hsafe
  | ok place =>
    cases hrender : Mdx.render rendering tree with
    | error fault => exact .unrendered hsafe hrender
    | ok text =>
      dsimp only
      cases hwrite : writeText (.ofPlace place) text w with
      | mk result w' =>
        cases result with
        | error failure => exact .unwritten hsafe hrender hwrite
        | ok _ => exact .written hsafe hrender hwrite

/-- A fragment has one fate, which is that of writing it. -/
theorem Delivery.eq_writeFragment (h : Delivery rendering root path tree w added w') :
    added = ((writeFragment rendering root path tree w).1.toOption.map fun target =>
        (target, tree)).toList ∧
      w' = (writeFragment rendering root path tree w).2 := by
  rw [writeFragment_apply]
  cases h with
  | written safe rendered wrote => simp [safe, rendered, wrote, Except.toOption]
  | refused refused => simp [refused, Except.toOption]
  | unrendered safe fails => simp [safe, fails, Except.toOption]
  | unwritten safe rendered fails => simp [safe, rendered, fails, Except.toOption]

/-- A delivery leaves a disk behind, and everything else as it is. -/
theorem Delivery.exists_disk (h : Delivery rendering root path tree w added w') :
    ∃ disk, w' = { w with disk } := by
  cases h with
  | refused refused => exact ⟨w.disk, rfl⟩
  | unrendered safe fails => exact ⟨w.disk, rfl⟩
  | written safe rendered wrote | unwritten safe rendered wrote =>
    obtain ⟨disk, hdisk⟩ := OnlyDisk.writeText _ _ w
    exact ⟨disk, by rw [← hdisk, wrote]⟩

/-- **A delivery changes the files that it names and no other**: a fragment that is left out has
left no more than new folders. -/
theorem Delivery.wrote (h : Delivery rendering root path tree w added w')
    (hdirectory : w.disk.Solid w.directory) : Wrote (added.map Prod.fst) w w' := by
  have hstraight {place : Place}
      (hsafe : Archive.safePlace w.disk w.directory root path = .ok place) :
      w.disk.Straight place := by
    obtain ⟨_, -, -, hplace⟩ := Archive.exists_of_safePlace hdirectory.straight hsafe
    exact hplace
  cases h with
  | refused refused => exact .refl _ w
  | unrendered safe fails => exact .refl _ w
  | @written _ text _ safe rendered wrote | @unwritten _ text _ _ safe rendered wrote =>
    have hwrote := writes_writeText hdirectory (hstraight safe) text
    rwa [wrote] at hwrote

namespace Deliveries

variable {fragments : List (String × Node)} {kept : List (Location × Node)}

/-- **What is written is settled by the fragments and the workplace.** -/
theorem unique {kept' : List (Location × Node)} {w'' : Workplace}
    (h : Deliveries rendering root w fragments kept w')
    (h' : Deliveries rendering root w fragments kept' w'') : kept = kept' ∧ w' = w'' := by
  induction h generalizing kept' w'' with
  | nil w =>
    cases h'
    exact ⟨rfl, rfl⟩
  | cons first rest ih =>
    cases h' with
    | cons first' rest' =>
      obtain ⟨rfl, rfl⟩ := first.eq_writeFragment
      obtain ⟨rfl, rfl⟩ := first'.eq_writeFragment
      obtain ⟨rfl, rfl⟩ := ih rest'
      exact ⟨rfl, rfl⟩

/-- **Fragments that are handed over change the files of those that are written and no other.** -/
theorem wrote (h : Deliveries rendering root w fragments kept w')
    (hdirectory : w.disk.Solid w.directory) : Wrote (kept.map Prod.fst) w w' := by
  induction h with
  | nil w => exact .refl _ w
  | cons first rest ih =>
    have hfirst := first.wrote hdirectory
    rw [List.map_append]
    exact hfirst.trans (ih (hfirst.directory ▸ hdirectory.grown hfirst.disk))

end Deliveries

/-! ## Pages

Emissions happen in the middle of a conversion.  What they keep is an invariant of it, as everything
is that an emission preserves. -/

open MdxPages.Convert (deliver)

/-- What is kept while fragments are handed over: the workplace that their deliveries have left, and
the files and references of those that have been written. -/
structure Keeping (rendering : RenderOptions) (root : Location) (fragments : List (String × Node))
    (before : Fragments) (kept : List (Location × Node)) (after : Fragments) : Prop where
  deliveries : Deliveries rendering root before.workplace fragments kept after.workplace
  written : after.written = before.written ++ kept.map Prod.fst
  references : after.references =
    (kept.map fun fragment => References.collect fragment.2).foldl References.merge
      before.references

/-- **A fragment that is emitted is delivered**, and its file and its references are kept if it has
been written. -/
theorem keeping_emitFragment (rendering : RenderOptions) (root : Location) (path : String)
    (tree : Node) {before : Fragments} (hlog : before.workplace.log = []) :
    let after := (emitFragment rendering root path tree before).2
    after.workplace.log = [] ∧ ∃ added,
      Delivery rendering root path tree before.workplace added after.workplace ∧
      after.written = before.written ++ added.map Prod.fst ∧
      after.references = (added.map fun fragment => References.collect fragment.2).foldl
        References.merge before.references := by
  have hdelivery := delivery_writeFragment rendering root path tree before.workplace
  obtain ⟨disk, hdisk⟩ := hdelivery.exists_disk
  have hworkplace : (emitFragment rendering root path tree before).2.workplace =
      (writeFragment rendering root path tree before.workplace).2 := by
    rw [emitFragment_workplace, hdisk, ← hlog]
  dsimp only
  rw [hworkplace]
  refine ⟨by rw [hdisk, ← hlog], _, hdelivery, ?_⟩
  unfold emitFragment
  cases writeFragment rendering root path tree before.workplace with
  | mk result w =>
    cases result with
    | ok target => exact ⟨rfl, rfl⟩
    | error f =>
      dsimp only
      split <;> exact ⟨(List.append_nil _).symm, rfl⟩

/-- **Fragments that are emitted one after the other are delivered in that order.** -/
theorem exists_keeping (rendering : RenderOptions) (root : Location)
    (fragments : List (String × Node)) (before : Fragments) (hlog : before.workplace.log = []) :
    ∃ kept, Keeping rendering root fragments before kept
      (fragments.foldl (deliver (some (emitFragment rendering root))) before) := by
  induction fragments generalizing before with
  | nil => exact ⟨[], .nil _, (List.append_nil _).symm, rfl⟩
  | cons fragment fragments ih =>
    obtain ⟨hlog', added, hfirst, hwritten, hreferences⟩ :=
      keeping_emitFragment rendering root fragment.1 fragment.2 hlog
    obtain ⟨kept, hrest⟩ := ih _ hlog'
    refine ⟨added ++ kept, .cons hfirst hrest.deliveries, ?_, ?_⟩
    · rw [List.map_append, ← List.append_assoc, ← hwritten]
      exact hrest.written
    · rw [List.map_append, List.foldl_append, ← hreferences]
      exact hrest.references

theorem uncounted_writeTree (rendering : RenderOptions) (l : Location) (tree : Node) :
    Uncounted (writeTree rendering l tree) :=
  (OnlyDisk.bind (.liftFault _) fun _ => .writeText l _).uncounted

theorem uncounted_reportProblems (path : String) (problems : List String) :
    Uncounted (reportProblems path problems) :=
  .of_onlyRecords (onlyRecords_reportProblems path problems)

/-- A page counts its references when it has been written, and not before. -/
theorem uncounted_convertTree (o : PageOptions) (root : Location) (path : String)
    (source : Entries Value) : Uncounted (convertTree o root path source) := by
  intro w
  obtain ⟨log, hworkplace⟩ := convertTree_workplace o root path source w
  have hkept := preserved_by_convertPage (I := fun kept => kept.workplace.registry = w.registry)
    ⟨o.conversion, some (emitFragment o.rendering root)⟩
    (fun emission kept hkept => by
      obtain ⟨disk, hdisk⟩ := (delivery_writeFragment o.rendering root emission.1 emission.2
        kept.workplace).exists_disk
      rw [Convert.deliver, emitFragment_workplace, hdisk]
      exact hkept)
    path source { workplace := { w with log := [] } } rfl
  rw [hworkplace]
  exact hkept

/-- The tree and the fragments of a page that comes out are those that any emitter is handed, and
the fragments have been delivered in order. -/
theorem exists_convertTree {o : PageOptions} {source : Entries Value}
    {s : Convert.Session (List (String × Node))}
    (h : Convert.convertPage ⟨o.conversion, some .recording⟩ path source [] = (.ok tree, s))
    (root : Location) (w : Workplace) :
    ∃ fragments kept log, convertTree o root path source w =
        (.ok (tree, fragments), { fragments.workplace with log }) ∧
      Keeping o.rendering root s.emitter { workplace := { w with log := [] } } kept fragments := by
  obtain ⟨hfaultless, rfl, -, hrecorded⟩ := Convert.faultless_of_convertPage h
  obtain ⟨s', hpage, -, hemitter⟩ := Convert.convertPage_of_faultless
    ⟨o.conversion, some (emitFragment o.rendering root)⟩ hfaultless
    { workplace := { w with log := [] } }
  rw [Convert.foldl_deliver_recording, List.nil_append] at hrecorded
  obtain ⟨kept, hkeeping⟩ :=
    exists_keeping o.rendering root s.emitter { workplace := { w with log := [] } } rfl
  refine ⟨s'.emitter, kept, w.log ++ s'.log, ?_, ?_⟩
  · rw [convertTree, hpage]
  · rw [hemitter, ← hrecorded]
    exact hkeeping

/-- A page whose tree has come out has come out for any emitter. -/
theorem exists_convertPage_of_convertTree {o : PageOptions} {source : Entries Value}
    {fragments : Fragments}
    (h : convertTree o root path source w = (.ok (tree, fragments), w')) :
    ∃ s, Convert.convertPage ⟨o.conversion, some .recording⟩ path source [] = (.ok tree, s) := by
  unfold convertTree at h
  dsimp only at h
  split at h
  next s' hpage =>
    obtain ⟨hok, -⟩ := Prod.mk.inj h
    obtain ⟨rfl, -⟩ := Prod.mk.inj (Except.ok.inj hok)
    obtain ⟨hfaultless, rfl, -, -⟩ := Convert.faultless_of_convertPage (Prod.ext hpage rfl)
    obtain ⟨s, hs, -⟩ :=
      Convert.convertPage_of_faultless ⟨o.conversion, some .recording⟩ hfaultless []
    exact ⟨s, hs⟩
  next => cases h

/-- The tally of a page: its fragments have been delivered in the order in which they were emitted,
what it has written is the files of those that were written and then its own, and its references are
those of the same trees, of which a later one wins. -/
structure Tally (rendering : RenderOptions) (folder : Location) (w : Workplace)
    (fragments : List (String × Node)) (kept : List (Location × Node)) (page : Page) : Prop where
  delivered : ∃ w', Deliveries rendering folder { w with log := [] } fragments kept w' ∧
    (w.disk.Solid w.directory → Wrote (kept.map Prod.fst) w w')
  written : page.written = kept.map Prod.fst ++ [page.output]
  references : page.references = References.mergeAll
    ((kept.map fun fragment => References.collect fragment.2) ++ [References.collect page.tree])

/-- A page that fails has counted nothing. -/
theorem countsLast_writePage (o : PageOptions) (output : Location) (root : Option Location)
    (document : Value) : CountsLast (writePage o output root document) := by
  refine (Uncounted.lift _).bind_countsLast fun source => ?_
  refine Uncounted.bind_countsLast (fun _ => rfl) fun w => ?_
  refine (uncounted_convertTree o _ _ source).bind_countsLast fun (tree, fragments) => ?_
  refine (Uncounted.record _ _ _).bind_countsLast fun _ => ?_
  refine (uncounted_reportProblems _ _).bind_countsLast fun _ => ?_
  refine (uncounted_writeTree o.rendering output tree).bind_countsLast fun _ => ?_
  -- once the page has been written, nothing fails
  intro w failure w' h
  cases h

/-- Reporting problems leaves records. -/
theorem reportProblems_apply (path : String) (problems : List String) (w : Workplace) :
    ∃ log, reportProblems path problems w = (.ok (), { w with log }) := by
  induction problems generalizing w with
  | nil => exact ⟨w.log, rfl⟩
  | cons problem problems ih =>
    have hrecord : record loggerName .warning (path ++ ": " ++ problem) w =
        (.ok (), { w with log := w.log ++ [⟨.warning, loggerName, path ++ ": " ++ problem⟩] }) :=
    rfl
    rw [reportProblems, bind_of_ok hrecord]
    exact ih _

/-- **A page comes out** if its document is one, its conversion and its rendering give a text, and
its file can be written where its fragments have been delivered; the fragments cannot prevent it. -/
theorem exists_writePage (o : PageOptions) {output : Location} (root : Option Location)
    {document : Value} {source : Entries Value} {s : Convert.Session (List (String × Node))}
    {kept : List (Location × Node)} {text : String} (hsource : Archive.unwrap document = .ok source)
    (hpage : Convert.convertPage ⟨o.conversion, some .recording⟩ (Path.toPosix
      (Disk.relativePath w.directory output (root.getD output.parent))) source [] = (.ok tree, s))
    (hdeliveries : Deliveries o.rendering (root.getD output.parent) { w with log := [] } s.emitter
      kept w')
    (hrender : Mdx.render o.rendering tree = .ok text) (hwritable : w'.Writable output) :
    ∃ page w'', writePage o output root document w = (.ok page, w'') ∧ page.tree = tree ∧
      page.written = kept.map Prod.fst ++ [output] := by
  obtain ⟨fragments, kept', log, hconvert, hkeeping⟩ :=
    exists_convertTree hpage (root.getD output.parent) w
  obtain ⟨rfl, rfl⟩ := hdeliveries.unique hkeeping.deliveries
  have hrecord (log : List LogEntry) (level : Level) (message : String) :
      record loggerName level message { fragments.workplace with log } =
        (.ok (), { fragments.workplace with log := log ++ [⟨level, loggerName, message⟩] }) := rfl
  obtain ⟨log', hproblems⟩ := reportProblems_apply (Path.toPosix
    (Disk.relativePath w.directory output (root.getD output.parent))) tree.problems
    { fragments.workplace with log := log ++ [⟨.debug, loggerName, "Converting " ++ Path.toPosix
      (Disk.relativePath w.directory output (root.getD output.parent)) ++ " completed in <t>"⟩] }
  obtain ⟨d, hwrite, -⟩ :=
    Work.writeText_apply (w := { fragments.workplace with log := log' }) hwritable text
  have htree : writeTree o.rendering output tree { fragments.workplace with log := log' } =
      (.ok (), { fragments.workplace with log := log', disk := d }) := by
    rw [writeTree, bind_of_ok (liftFault_eq_ok_iff.2 ⟨hrender, rfl⟩), hwrite]
  refine ⟨⟨output, tree, fragments.written ++ [output],
    fragments.references.merge (References.collect tree)⟩, ?_⟩
  apply Exists.intro
  refine ⟨?_, rfl, congrArg (· ++ [output]) hkeeping.written⟩
  rw [writePage, bind_of_ok (lift_eq_ok_iff.2 ⟨hsource, rfl⟩), bind_of_ok (get_apply w)]
  dsimp only
  rw [bind_of_ok hconvert]
  dsimp only
  rw [bind_of_ok (hrecord _ _ _), bind_of_ok hproblems, bind_of_ok htree]
  rfl

/-- **The registry receives exactly what was written.**  A page that has come out is the one that
any emitter is handed the fragments of, it has its tally, and the registry holds what it held before
and then the references of the page; a page that fails leaves the registry as it was. -/
theorem writePage_tally (o : PageOptions) (output : Location) (root : Option Location)
    (document : Value) (w : Workplace) :
    (∀ page w', writePage o output root document w = (.ok page, w') →
      ∃ source s kept, Archive.unwrap document = .ok source ∧
        Convert.convertPage ⟨o.conversion, some .recording⟩ (Path.toPosix
          (Disk.relativePath w.directory output (root.getD output.parent))) source [] =
            (.ok page.tree, s) ∧
        page.output = output ∧
        Tally o.rendering (root.getD output.parent) w s.emitter kept page ∧
        w'.registry = w.registry.merge page.references) ∧
    ∀ failure w', writePage o output root document w = (.error failure, w') →
      w'.registry = w.registry := by
  refine ⟨fun page w' h => ?_, countsLast_writePage o output root document w⟩
  obtain ⟨source, w₁, hlift, h⟩ := exists_of_bind_eq_ok h
  obtain ⟨hsource, rfl⟩ := lift_eq_ok_iff.1 hlift
  obtain ⟨_, _, hget, h⟩ := exists_of_bind_eq_ok h
  obtain ⟨hok, rfl⟩ := Prod.mk.inj hget
  obtain rfl := Except.ok.inj hok
  obtain ⟨⟨tree, fragments⟩, w₂, hconvert, h⟩ := exists_of_bind_eq_ok h
  obtain ⟨_, w₃, hrecord, h⟩ := exists_of_bind_eq_ok h
  obtain ⟨_, w₄, hproblems, h⟩ := exists_of_bind_eq_ok h
  obtain ⟨_, w₅, hwrite, h⟩ := exists_of_bind_eq_ok h
  obtain ⟨_, w₆, hadd, h⟩ := exists_of_bind_eq_ok h
  obtain ⟨_, w₇, hrecord', h⟩ := exists_of_bind_eq_ok h
  obtain ⟨hok, rfl⟩ := Prod.mk.inj h
  obtain rfl := Except.ok.inj hok
  obtain ⟨s, hpage⟩ := exists_convertPage_of_convertTree hconvert
  obtain ⟨fragments', kept, log, hconvert', hdeliveries, hwritten, hreferences⟩ :=
    exists_convertTree hpage (root.getD output.parent) w
  obtain ⟨hok, -⟩ := Prod.mk.inj (hconvert'.symm.trans hconvert)
  obtain ⟨-, rfl⟩ := Prod.mk.inj (Except.ok.inj hok)
  refine ⟨source, s, kept, hsource, hpage, rfl,
    ⟨⟨_, hdeliveries, fun hdirectory => ?_⟩, ?_, ?_⟩, ?_⟩
  · have hwrote := hdeliveries.wrote hdirectory
    exact ⟨hwrote.directory, hwrote.disk⟩
  · exact congrArg (· ++ [output]) hwritten
  · rw [References.mergeAll, List.foldl_append]
    exact congrArg (References.merge · _) hreferences
  · -- up to the page itself nothing has been counted
    have hconverted := (uncounted_convertTree o _ _ source).registry_eq hconvert
    have hrecorded := (Uncounted.record _ _ _).registry_eq hrecord
    have hreported := (uncounted_reportProblems _ _).registry_eq hproblems
    have hwrote := (uncounted_writeTree o.rendering output tree).registry_eq hwrite
    obtain ⟨-, rfl⟩ := Prod.mk.inj hadd
    obtain ⟨-, rfl⟩ := Prod.mk.inj hrecord'
    dsimp only
    rw [hwrote, hreported, hrecorded, hconverted]

/-! ### A fragment that is written, and one that is refused -/

/-- The substitution of a name by a text. -/
def substitutionValue (name text : String) : Value :=
  .obj [("type", .str "substitution"), ("name", .str name),
    ("children", .arr [.obj [("type", .str "text"), ("value", .str text)]])]

/-- A page that includes a fragment, and another one outside of its folder. -/
def outsideRoot : Entries Value :=
  Convert.rootOf [Convert.directiveValue "include" "/a.rst" [substitutionValue "v" "1"],
    Convert.directiveValue "include" "/../b.rst" [substitutionValue "v" "2"]]

/-- The fragment of a text in it. -/
def outsideFragment (text : String) : Node :=
  .root [.paragraph [.textComponent "SubstitutionReference" [⟨"name", .text "v"⟩] [.text text]]]

/-- An empty folder as the directory to work in, with files in it. -/
def folderWith (files : List (String × List UInt8)) : Workplace where
  disk := ⟨(["s"], .folder) :: files.map fun (name, bytes) => (["s", name], .file bytes)⟩
  directory := ["s"]

/-- A new file in the folder is found at its place. -/
theorem find_folderWith {files : List (String × List UInt8)} {name : String} (slashes : Nat)
    (hname : name ∈ ["a.mdx", "index.mdx"])
    (hmissing : (folderWith files).disk.at? ["s", name] = none) (names : List String)
    (hnames : slashes = 1 ∧ names = ["s", name] ∨ slashes = 0 ∧ names = [name]) :
    (folderWith files).disk.find ["s"] ⟨slashes, names⟩ = .ok ["s", name] := by
  have hplain : ∀ name ∈ ["a.mdx", "index.mdx"],
      name.utf8ByteSize ≤ Disk.maxNameBytes ∧ name ≠ ".." ∧
        Disk.hasNullByte ⟨1, ["s", name]⟩ = false ∧ Disk.hasNullByte ⟨0, [name]⟩ = false := by
    decide
  obtain ⟨hbytes, hup, habsolute, hrelative⟩ := hplain name hname
  have hlast : (folderWith files).disk.Leads ["s", name] Disk.maxLinks ["s"] [name] :=
    .on ⟨rfl, hbytes⟩ hup (fun _ htarget => nomatch hmissing.symm.trans htarget) .done
  rw [Disk.find_eq_ok_iff]
  obtain ⟨rfl, rfl⟩ | ⟨rfl, rfl⟩ := hnames
  · exact ⟨habsolute, .on ⟨rfl, by decide⟩ (by decide) (fun _ htarget => nomatch htarget) hlast⟩
  · exact ⟨hrelative, hlast⟩

theorem safePlace_folderWith :
    Archive.safePlace (folderWith []).disk ["s"] ⟨0, []⟩ "a.mdx" = .ok ["s", "a.mdx"] := by
  have hplace : (folderWith []).disk.resolve ["s"] ⟨0, ["a.mdx"]⟩ = .ok ["s", "a.mdx"] :=
    Disk.resolve_of_find (find_folderWith 0 (by decide) rfl _ (.inr ⟨rfl, rfl⟩))
  have hfolder : (folderWith []).disk.resolve ["s"] ⟨0, []⟩ = .ok ["s"] :=
    Disk.resolve_of_find (Disk.find_eq_ok_iff.2 ⟨rfl, .done⟩)
  rw [Archive.safePlace_eq_ok_iff]
  exact ⟨by decide, by decide, by decide, by decide, ["s"], hfolder, hplace, by decide⟩

/-- The text of the first fragment. -/
def outsideText : String :=
  "<SubstitutionReference name=\"v\">1</SubstitutionReference>\n"

/-- The first fragment is written and the second one refused. -/
theorem deliveries_outside :
    Deliveries {} ⟨0, []⟩ (folderWith [])
      [("a.mdx", outsideFragment "1"), ("../b.mdx", outsideFragment "2")]
      [(.ofPlace ["s", "a.mdx"], outsideFragment "1")]
      (folderWith [("a.mdx", Bytes.ofText outsideText)]) := by
  have hrender : Mdx.render {} (outsideFragment "1") = .ok outsideText := by rfl
  have hwrite : writeText (.ofPlace ["s", "a.mdx"]) outsideText (folderWith []) =
      (.ok (), folderWith [("a.mdx", Bytes.ofText outsideText)]) :=
    writeText_of_find (List.cons_ne_nil _ _)
      (find_folderWith 1 (by decide) rfl _ (.inl ⟨rfl, rfl⟩)) (.inl rfl) outsideText
  have houtside : Archive.safePlace (folderWith [("a.mdx", Bytes.ofText outsideText)]).disk ["s"]
      ⟨0, []⟩ "../b.mdx" = .error (.relativeEntry "../b.mdx" "..") := by rfl
  exact .cons (.written safePlace_folderWith hrender hwrite)
    (.cons (.refused houtside) (.nil _))

/-- The page itself. -/
def outsideTree : Node :=
  .root [.imports "import A from './a.mdx';\nimport B from '../b.mdx';",
    .flowComponent "A" [] [], .flowComponent "B" [] []]

set_option maxRecDepth 100000 in
/-- Both fragments are emitted, in their order. -/
theorem convertPage_outside :
    ∃ s, Convert.convertPage ⟨{}, some .recording⟩ "index.mdx" outsideRoot [] =
        (.ok outsideTree, s) ∧
      s.emitter = [("a.mdx", outsideFragment "1"), ("../b.mdx", outsideFragment "2")] := by
  have hdraft : (Convert.Draft.page "index.mdx" outsideRoot).Faultless {} := by rfl
  have htree : (Convert.Draft.page "index.mdx" outsideRoot).tree {} = outsideTree := by
    rfl
  obtain ⟨s, hs, -, hemitter⟩ := Convert.convertPage_of_faultless ⟨{}, some .recording⟩ hdraft []
  refine ⟨s, hs.trans (by rw [htree]), ?_⟩
  rw [hemitter, Convert.foldl_deliver_recording]
  rfl

/-- The written fragment counts, the refused one does not. -/
theorem writePage_tally_outside :
    ∃ page w', writePage {} ⟨0, ["index.mdx"]⟩ none (.obj outsideRoot) (folderWith []) =
        (.ok page, w') ∧
      page.written = [.ofPlace ["s", "a.mdx"], ⟨0, ["index.mdx"]⟩] ∧
      page.references.substitutions = [("v", "1")] ∧
      w'.registry.substitutions = [("v", "1")] := by
  obtain ⟨s, hconvert, hemitter⟩ := convertPage_outside
  have hpath : Path.toPosix (Disk.relativePath ["s"] ⟨0, ["index.mdx"]⟩ ⟨0, []⟩) = "index.mdx" := by
    cbv
  have hrender : Mdx.render {} outsideTree =
      .ok "import A from './a.mdx';\nimport B from '../b.mdx';\n\n<A />\n\n<B />\n" := by rfl
  have hfind : (folderWith [("a.mdx", Bytes.ofText outsideText)]).disk.find ["s"]
      ⟨0, ["index.mdx"]⟩ = .ok ["s", "index.mdx"] :=
    find_folderWith 0 (by decide) rfl _ (.inr ⟨rfl, rfl⟩)
  have hwritable : (folderWith [("a.mdx", Bytes.ofText outsideText)]).Writable ⟨0, ["index.mdx"]⟩ :=
    ⟨_, _, Disk.makeFolders_of_isFolder (Disk.isFolder_parent hfind (List.cons_ne_nil _ _)), hfind,
      .inl rfl⟩
  have hsource : Archive.unwrap (.obj outsideRoot) = .ok outsideRoot := by rfl
  have hpage : Convert.convertPage ⟨{}, some .recording⟩ (Path.toPosix
      (Disk.relativePath (folderWith []).directory ⟨0, ["index.mdx"]⟩ ⟨0, []⟩)) outsideRoot [] =
        (.ok outsideTree, s) :=
    (congrArg (Convert.convertPage _ · outsideRoot []) hpath).trans hconvert
  obtain ⟨page, w', hrun, htree, -⟩ := exists_writePage {} none hsource hpage
    (hemitter ▸ deliveries_outside) hrender hwritable
  obtain ⟨source, s', kept, hsource', hpage', houtput,
    ⟨⟨w₁, hdeliveries, -⟩, hwritten, hreferences⟩, hregistry⟩ :=
      (writePage_tally {} ⟨0, ["index.mdx"]⟩ none (.obj outsideRoot) (folderWith [])).1 page w' hrun
  obtain rfl := Except.ok.inj (hsource.symm.trans hsource')
  obtain ⟨-, rfl⟩ := Prod.mk.inj (hpage.symm.trans hpage')
  have houtside : Deliveries {} ⟨0, []⟩ _ s.emitter _ _ := hemitter ▸ deliveries_outside
  obtain ⟨rfl, rfl⟩ := houtside.unique hdeliveries
  have hcounted : page.references.substitutions = [("v", "1")] := by
    rw [hreferences, htree]
    rfl
  refine ⟨page, w', hrun, ?_, hcounted, ?_⟩
  · rw [hwritten, houtput]
    rfl
  · rw [hregistry, References.merge, hcounted]
    rfl

end Site

end MdxPages
