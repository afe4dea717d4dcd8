import MdxPages.Proofs.Disk.Access
import MdxPages.Proofs.Results
import MdxPages.Site.Work

/-!
# Proofs/Site/Work — what single steps of work do

Each step gives a result and a workplace.  Where a text can be written, writing it changes the disk
and nothing else, and the text can be read from there (`writeText_apply`).  Work that only asks is
told by the answers that it gives: those of one step after the other are the answers of the steps,
put together (`answer_bind`).
-/

namespace MdxPages

/-- A location where a text can be written. -/
def Workplace.Writable (w : Workplace) (l : Location) : Prop :=
  w.disk.Writable w.directory l

namespace Work

variable {w w' : Workplace} {l : Location} {α β : Type} {x : Work α} {f : α → Work β}

/-- After a step that succeeds the next one goes on. -/
theorem bind_of_ok {a : α} (h : x w = (.ok a, w')) : (x >>= f) w = f a w' := by
  rw [bind_apply, h]

/-- Work of two steps that has given an answer: both steps have. -/
theorem exists_of_bind_eq_ok {b : β} (h : (x >>= f) w = (.ok b, w')) :
    ∃ a w₁, x w = (.ok a, w₁) ∧ f a w₁ = (.ok b, w') := by
  rw [bind_apply] at h
  cases hx : x w with
  | mk result w₁ =>
    rw [hx] at h
    cases result with
    | ok a => exact ⟨a, w₁, rfl, h⟩
    | error f => cases h

theorem get_apply (w : Workplace) : (get : Work Workplace) w = (.ok w, w) := rfl

theorem liftFault_apply (r : Except Fault α) (w : Workplace) :
    liftFault r w = (r.mapError .fault, w) := rfl

theorem lift_eq_ok_iff {r : Except Failure α} {a : α} :
    lift r w = (.ok a, w') ↔ r = .ok a ∧ w = w' := by
  rw [show lift r w = (r, w) from rfl, Prod.mk.injEq]

/-- A result without a fault is an answer, and nothing changes. -/
theorem liftFault_eq_ok_iff {r : Except Fault α} {a : α} :
    liftFault r w = (.ok a, w') ↔ r = .ok a ∧ w = w' := by
  rw [liftFault, lift_eq_ok_iff]
  cases r with
  | ok b =>
    have hok : (Except.ok b : Except Fault α).mapError Failure.fault = .ok b := rfl
    rw [hok, Except.ok.injEq, Except.ok.injEq]
  | error f => exact iff_of_false (fun h => nomatch h.1) fun h => nomatch h.1

theorem ask_apply (f : Disk → Place → Except Fault α) (w : Workplace) :
    ask f w = liftFault (f w.disk w.directory) w := rfl

theorem makeFolders_apply (l : Location) (w : Workplace) :
    makeFolders l w =
      ((w.disk.makeFolders w.directory l).1.mapError .fault,
        { w with disk := (w.disk.makeFolders w.directory l).2 }) := rfl

/-- Work that changes the disk leaves the changed disk. -/
theorem change_apply {disk : Disk} {change : Disk → Place → Except Fault Disk}
    (h : change w.disk w.directory = .ok disk) :
    Work.change change w = (.ok (), { w with disk }) := by
  have hask : ask change w = (.ok disk, w) := by rw [ask_apply, liftFault_eq_ok_iff.2 ⟨h, rfl⟩]
  rw [Work.change, bind_of_ok hask]
  rfl

theorem exists_of_change_eq_ok {change : Disk → Place → Except Fault Disk}
    (h : Work.change change w = (.ok (), w')) :
    ∃ disk, change w.disk w.directory = .ok disk ∧ w' = { w with disk } := by
  obtain ⟨disk, w₁, hask, h⟩ := exists_of_bind_eq_ok h
  rw [ask_apply, liftFault_eq_ok_iff] at hask
  obtain ⟨hdisk, rfl⟩ := hask
  exact ⟨disk, hdisk, (Prod.mk.inj h).2.symm⟩

/-- A fault that is reported under another name has left what it left. -/
theorem reportingAs_snd (failure : Failure) (x : Work α) (w : Workplace) :
    (reportingAs failure x w).2 = (x w).2 := by
  rw [reportingAs]
  split
  · next h => rw [h]
  · rfl

/-- Work that succeeds is not reported. -/
theorem reportingAs_of_ok {failure : Failure} {a : α} (h : x w = (.ok a, w')) :
    reportingAs failure x w = (.ok a, w') := by
  rw [reportingAs, h]

/-- Folders that are there need not be made. -/
theorem makeFolders_of_isFolder (h : w.disk.isFolder w.directory l = true) :
    makeFolders l w = (.ok (), w) := by
  rw [makeFolders_apply, Disk.makeFolders_of_isFolder h]
  rfl

/-- A text is written to a file in a folder that is there. -/
theorem writeText_of_find {p : Place} (hl : l.names ≠ [])
    (hfind : w.disk.find w.directory l = .ok p) (hp : w.disk.Vacant p) (text : String) :
    writeText l text w =
      (.ok (), { w with disk := w.disk.put p (.file (Bytes.ofText text)) }) := by
  refine reportingAs_of_ok ?_
  rw [bind_of_ok (makeFolders_of_isFolder (Disk.isFolder_parent hfind hl)),
    change_apply (Disk.write_eq hfind hp)]

/-- **Where a text can be written, it is written**: the disk changes and nothing else, the text can
be read from there, and a text can be written there again. -/
theorem writeText_apply (h : w.Writable l) (text : String) :
    ∃ d, writeText l text w = (.ok (), { w with disk := d }) ∧
      d.read w.directory l = .ok (Bytes.ofText text) ∧ d.Writable w.directory l := by
  obtain ⟨d₁, d₂, hfolders, hwrite, hread, hwritable⟩ := h.exists_write (Bytes.ofText text)
  refine ⟨d₂, reportingAs_of_ok ?_, hread, hwritable⟩
  have hmake : makeFolders l.parent w = (.ok (), { w with disk := d₁ }) := by
    rw [makeFolders_apply, hfolders]
    rfl
  rw [bind_of_ok hmake, change_apply hwrite]

/-! ## Work that leaves everything as it is

Looking for a configuration is work of this kind.  Its answers can be put together as if there were
no workplace. -/

/-- Work that leaves the workplace as it is. -/
def Asks (x : Work α) : Prop :=
  ∀ w, (x w).2 = w

/-- Work that asks is told by its answer. -/
theorem Asks.apply (h : Asks x) (w : Workplace) : x w = ((x w).1, w) :=
  Prod.ext rfl (h w)

/-- **The answer of two steps is that of the steps**, both taken in one workplace. -/
theorem answer_bind (hx : Asks x) (f : α → Work β) (w : Workplace) :
    ((x >>= f) w).1 = (x w).1 >>= fun a => (f a w).1 := by
  rw [bind_apply, hx.apply w]
  cases (x w).1 <;> rfl

/-- Such work fails as its steps do. -/
theorem failsOnly_bind {P : Failure → Prop} (hx : Asks x) (hfails : FailsOnly P (x w).1)
    (hf : ∀ a, FailsOnly P (f a w).1) : FailsOnly P ((x >>= f) w).1 := by
  rw [answer_bind hx]
  exact hfails.bind hf

/-- A handler goes on in the workplace that a failure has left. -/
theorem tryCatch_apply (x : Work α) (handler : Failure → Work α) (w : Workplace) :
    tryCatch x handler w =
      match x w with
      | (.ok a, w) => (.ok a, w)
      | (.error e, w) => handler e w := by
  have htry : tryCatch x handler w = ExceptT.tryCatch x handler w := rfl
  rw [htry]
  unfold ExceptT.tryCatch
  simp only [ExceptT.mk, bind, StateT.bind]
  obtain ⟨result, w'⟩ := x w
  cases result with
  | error e => simp
  | ok a => rfl

namespace Asks

theorem lift (r : Except Failure α) : Asks (Work.lift r) :=
  fun _ => rfl

theorem pure (a : α) : Asks (Pure.pure a) :=
  fun _ => rfl

theorem throw (e : Failure) : Asks (throw e : Work α) :=
  fun _ => rfl

theorem ask (f : Disk → Place → Except Fault α) : Asks (Work.ask f) :=
  fun _ => rfl

/-- Asking twice is asking. -/
theorem bind (hx : Asks x) (hf : ∀ a, Asks (f a)) : Asks (x >>= f) := by
  intro w
  rw [bind_apply, hx.apply w]
  cases (x w).1 with
  | error e => rfl
  | ok a => exact hf a w

theorem get {f : Workplace → Work β} (hf : ∀ w, Asks (f w)) : Asks (MonadState.get >>= f) :=
  fun w => hf w w

theorem ite {c : Prop} [Decidable c] {y : Work α} (hx : Asks x) (hy : Asks y) :
    Asks (if c then x else y) := by
  split
  · exact hx
  · exact hy

theorem reportingAs {failure : Failure} (h : Asks x) : Asks (Work.reportingAs failure x) := by
  intro w
  have hw := h w
  rw [Work.reportingAs]
  split
  · next hx => simpa [hx] using hw
  · exact hw

/-- Asking may be tried. -/
theorem tryCatch {handler : Failure → Work α} (hx : Asks x) (hh : ∀ e, Asks (handler e)) :
    Asks (tryCatch x handler) := by
  intro w
  rw [tryCatch_apply, hx.apply w]
  cases (x w).1 with
  | ok a => rfl
  | error e => exact hh e w

end Asks

end Work

end MdxPages
