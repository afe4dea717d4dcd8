import MdxPages.Failure

/-!
# Proofs/Results — results that are there, and why others are missing

A computation that ends in a result had a result at each of its steps, also where the steps hand on
a state (`bind_apply`).  A result can be missing because of a fault (`Faulty`), or because its input
has been refused.
-/

namespace MdxPages

variable {ε ε' α β : Type}

/-! ## Results that are there -/

@[simp] theorem mapError_ok (g : ε → ε') (a : α) : (Except.ok a).mapError g = .ok a :=
  rfl

@[simp] theorem mapError_error (g : ε → ε') (e : ε) :
    (Except.error e : Except ε α).mapError g = .error (g e) :=
  rfl

/-- A result that is there has been made of one that was there. -/
theorem exists_of_bind {r : Except ε α} {f : α → Except ε β} {b : β} (h : r >>= f = .ok b) :
    ∃ a, r = .ok a ∧ f a = .ok b := by
  cases r with
  | error e => cases h
  | ok a => exact ⟨a, rfl, h⟩

/-- The same where the first step fails under another name. -/
theorem exists_of_bind_mapError {r : Except ε α} {g : ε → ε'} {f : α → Except ε' β} {b : β}
    (h : (r.mapError g >>= f) = .ok b) : ∃ a, r = .ok a ∧ f a = .ok b := by
  cases r with
  | error e => cases h
  | ok a => exact ⟨a, rfl, h⟩

theorem bind_mapError_of_ok {r : Except ε α} {g : ε → ε'} {a : α} (h : r = .ok a)
    (f : α → Except ε' β) : (r.mapError g >>= f) = f a := by
  rw [h]
  rfl

/-- A result that is there has been made of one. -/
theorem exists_of_map {r : Except ε α} {f : α → β} {b : β} (h : r.map f = .ok b) :
    ∃ a, r = .ok a ∧ f a = b := by
  cases r with
  | error e => cases h
  | ok a => exact ⟨a, rfl, Except.ok.inj h⟩

theorem eq_ok_of_toOption {r : Except ε α} {a : α} (h : r.toOption = some a) : r = .ok a := by
  cases r with
  | error e => cases h
  | ok b => rw [Option.some.inj h]

theorem eq_malformed_of_matches {r : Except Problem α}
    (h : (r matches .error .malformed) = true) : r = .error .malformed := by
  split at h
  · rfl
  · cases h

/-- Two steps with a state: the second is taken from where the first has ended, if it has a
result. -/
theorem bind_apply {σ : Type} (x : ExceptT ε (StateM σ) α) (f : α → ExceptT ε (StateM σ) β)
    (s : σ) :
    (x >>= f) s =
      match x s with
      | (.ok a, s') => f a s'
      | (.error e, s') => (.error e, s') := by
  change ExceptT.bindCont f (x s).1 (x s).2 = _
  obtain ⟨r, s'⟩ := x s
  cases r <;> rfl

/-! ## Faults

A refusal is meant for the user, a fault is not.  Most modules tell these two apart and nothing
else. -/

/-- A result that is missing because of a fault. -/
def Faulty (r : Except Failure α) : Prop :=
  ∃ f, r = .error (.fault f)

theorem not_faulty_ok (a : α) : ¬Faulty (.ok a) :=
  fun ⟨_, h⟩ => nomatch h

/-- A failure is a fault if it is one by its kind. -/
theorem faulty_error {e : Failure} : Faulty (.error e : Except Failure α) ↔ ∃ f, e = .fault f := by
  simp [Faulty]

/-- A sequence ends in a fault at its first step, or at its second one. -/
theorem faulty_bind {r : Except Failure α} {f : α → Except Failure β} :
    Faulty (r >>= f) ↔ Faulty r ∨ ∃ a, r = .ok a ∧ Faulty (f a) := by
  cases r with
  | error e =>
    rw [show (Except.error e >>= f) = .error e from rfl, faulty_error, faulty_error]
    simp
  | ok a =>
    rw [show (Except.ok a >>= f) = f a from rfl]
    simp [not_faulty_ok]

/-- Where malformed input is refused, only a fault in it is left. -/
theorem faulty_mapError_ofProblem {malformed : Failure} (h : ∀ f, malformed ≠ .fault f)
    {r : Except Problem α} :
    Faulty (r.mapError (.ofProblem malformed)) ↔ ∃ f, r = .error (.fault f) := by
  cases r with
  | ok a => simp [Faulty]
  | error p => cases p <;> simp [Faulty, Failure.ofProblem, h]

/-! ## Failures of a kind -/

/-- A result that is there, or missing because of a failure of a kind. -/
def FailsOnly (P : Failure → Prop) (r : Except Failure α) : Prop :=
  ∀ e, r = .error e → P e

namespace FailsOnly

variable {P Q : Failure → Prop} {r : Except Failure α} {f : α → Except Failure β}

theorem ok (a : α) : FailsOnly P (.ok a : Except Failure α) :=
  fun _ h => nomatch h

theorem error {e : Failure} (h : P e) : FailsOnly P (.error e : Except Failure α) :=
  fun _ he => Except.error.inj he ▸ h

/-- Failures of a kind are failures of a wider kind. -/
theorem mono (h : FailsOnly P r) (hPQ : ∀ e, P e → Q e) : FailsOnly Q r :=
  fun e he => hPQ e (h e he)

/-- A sequence fails as its steps do. -/
theorem bind (hr : FailsOnly P r) (hf : ∀ a, FailsOnly P (f a)) : FailsOnly P (r >>= f) := by
  cases r with
  | error e => exact .error (hr e rfl)
  | ok a => exact hf a

theorem ite {c : Prop} [Decidable c] {r' : Except Failure α} (h : FailsOnly P r)
    (h' : FailsOnly P r') : FailsOnly P (if c then r else r') := by
  split
  · exact h
  · exact h'

end FailsOnly

end MdxPages
