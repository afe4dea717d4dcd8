import MdxPages.Json.Reader
import MdxPages.Proofs.Entries
import MdxPages.Proofs.Results
import MdxPages.Proofs.Value

/-!
# Proofs/Json/Writable — what is read from JSON can be written

A text with a whole number of too many digits is refused when it is read, so that no value holds
such a number that is read from JSON (`isWritable_of_read`).  What is told of a document need not
ask whether its numbers can be written.
-/

namespace MdxPages

/-! ## Writable values

A value can be written if all values in it can. -/

namespace Value

/-- The items of a list can be written if each of them can. -/
theorem areWritable_iff {vs : List Value} :
    areWritable vs = true ↔ ∀ v ∈ vs, v.isWritable = true := by
  induction vs with
  | nil => simp [areWritable]
  | cons v vs ih => rw [areWritable, Bool.and_eq_true, ih, List.forall_mem_cons]

/-- The fields of an object can be written if the value of each can. -/
theorem fieldsAreWritable_iff {fs : List (String × Value)} :
    fieldsAreWritable fs = true ↔ ∀ e ∈ fs, e.2.isWritable = true := by
  induction fs with
  | nil => simp [fieldsAreWritable]
  | cons e fs ih => rw [fieldsAreWritable, Bool.and_eq_true, ih, List.forall_mem_cons]

end Value

/-! ## Numbers

A whole number is less than the power of ten with as many zeros as it has digits. -/

/-- So many digits stand for less than that power of ten. -/
theorem Number.ofDigits_lt {ds : List Nat} (h : ∀ d ∈ ds, d < 10) :
    ofDigits ds < Nat.pow 10 ds.length := by
  have hfold : ∀ n, ds.foldl (fun n d => 10 * n + d) n < (n + 1) * Nat.pow 10 ds.length := by
    induction ds with
    | nil => simp
    | cons d ds ih =>
      intro n
      rw [List.forall_mem_cons] at h
      have hdigit : 10 * n + d + 1 ≤ (n + 1) * 10 := by omega
      calc ds.foldl (fun n d => 10 * n + d) (10 * n + d)
          < (10 * n + d + 1) * Nat.pow 10 ds.length := ih h.2 _
        _ ≤ (n + 1) * 10 * Nat.pow 10 ds.length := Nat.mul_le_mul_right _ hdigit
        _ = (n + 1) * Nat.pow 10 (ds.length + 1) := by
          rw [Nat.mul_assoc, Nat.mul_comm 10]
          rfl
  have hzero := hfold 0
  rwa [Nat.zero_add, Nat.one_mul] at hzero

/-- Digits that are not too many are those of a number that can be written. -/
theorem Number.writable_ofDigits {ds : List Nat} (h : ∀ d ∈ ds, d < 10)
    (hlength : ds.length ≤ maxDigits) (negative : Bool) :
    Writable (if negative then -(ofDigits ds : Int) else ofDigits ds) := by
  have habs : (if negative then -(ofDigits ds : Int) else ofDigits ds).natAbs = ofDigits ds := by
    cases negative <;> simp
  have hpow (digits : Nat) (h : ds.length ≤ digits) :
      Nat.pow 10 ds.length ≤ Nat.pow 10 digits :=
    Nat.pow_le_pow_right (by decide) h
  unfold Writable leastTooLong
  exact habs.symm ▸ Nat.lt_of_lt_of_le (ofDigits_lt h) (hpow maxDigits hlength)

namespace Json

variable {cs rest : List Char} {negative : Bool} {n : Number} {v : Value}

theorem lt_of_mem_takeDigits {d : Nat} (h : d ∈ (takeDigits cs).1) : d < 10 := by
  obtain ⟨c, hc, rfl⟩ := List.mem_map.1 h
  have hdigit : 48 ≤ c.toNat ∧ c.toNat ≤ 57 :=
    Char.isDigit_iff_toNat.1 (List.all_eq_true.1 List.all_takeWhile c hc)
  omega

/-- A number that is read has few enough digits, or it is a fraction. -/
theorem isWritable_of_readNumber (h : readNumber negative cs = .ok (n, rest)) :
    n.isWritable = true := by
  revert h
  fun_cases readNumber negative cs with
  | case1 | case2 => exact nofun
  | case3 whole tail hwhole _ _ _ _ _ _ _ _ hlength =>
    intro h
    obtain ⟨rfl, -⟩ := Prod.mk.inj (Except.ok.inj h)
    have hdigits : ∀ d ∈ whole, d < 10 := by
      split at hwhole
      · obtain ⟨rfl, -⟩ := Prod.mk.inj hwhole
        simp
      · exact fun d hd => lt_of_mem_takeDigits (by rwa [hwhole])
    exact Number.isWritable_int.2
      (Number.writable_ofDigits hdigits (Nat.not_lt.1 hlength) negative)
  | case4 =>
    intro h
    obtain ⟨rfl, -⟩ := Prod.mk.inj (Except.ok.inj h)
    rfl

theorem isWritable_of_readWord? (h : readWord? cs = some (v, rest)) : v.isWritable = true := by
  have hword {text : String} {w : Value} (hw : w.isWritable = true)
      (h : (afterWord? text cs).map (w, ·) = some (v, rest)) : v.isWritable = true := by
    obtain ⟨_, -, heq⟩ := Option.map_eq_some_iff.1 h
    obtain ⟨rfl, -⟩ := Prod.mk.inj heq
    exact hw
  simp only [readWord?, Option.orElse_eq_orElse, Option.orElse_eq_or, Option.or_eq_some_iff] at h
  obtain h | ⟨-, h | ⟨-, h | ⟨-, h | ⟨-, h | ⟨-, h⟩⟩⟩⟩⟩ := h <;> exact hword rfl h

/-- A scalar that is read can be written. -/
theorem isWritable_of_readScalar (h : readScalar cs = .ok (v, rest)) : v.isWritable = true := by
  revert h
  fun_cases readScalar cs with
  | case1 result hword =>
    rintro ⟨⟩
    exact isWritable_of_readWord? hword
  | case2 _ number =>
    intro h
    obtain ⟨⟨n, tail⟩, hnumber, heq⟩ := exists_of_map h
    obtain ⟨rfl, -⟩ := Prod.mk.inj heq
    simp only [number] at hnumber
    split at hnumber <;> exact isWritable_of_readNumber hnumber

/-- So much fuel reads nothing but what can be written: a value, the items of a list, the fields of
an object. -/
structure ReadsWritable (fuel : Nat) : Prop where
  value : ∀ {cs rest v}, readValue fuel cs = .ok (v, rest) → v.isWritable = true
  items : ∀ {cs rest vs}, readItems fuel cs = .ok (vs, rest) → Value.areWritable vs = true
  fields : ∀ {cs rest fs}, readFields fuel cs = .ok (fs, rest) →
    Value.fieldsAreWritable fs = true

namespace ReadsWritable

variable {fuel : Nat} (hread : ReadsWritable fuel)
include hread

/-- A value is a text, a list, an object or a scalar; of two fields with one name it keeps the
last. -/
theorem value_succ (h : readValue (fuel + 1) cs = .ok (v, rest)) : v.isWritable = true := by
  unfold readValue at h
  split at h
  · split at h
    · obtain ⟨rfl, -⟩ := Prod.mk.inj (Except.ok.inj h)
      rfl
    · cases h
  · split at h
    · obtain ⟨rfl, -⟩ := Prod.mk.inj (Except.ok.inj h)
      rfl
    · obtain ⟨⟨vs, _⟩, hvs, heq⟩ := exists_of_map h
      obtain ⟨rfl, -⟩ := Prod.mk.inj heq
      exact hread.items hvs
  · split at h
    · obtain ⟨rfl, -⟩ := Prod.mk.inj (Except.ok.inj h)
      rfl
    · obtain ⟨⟨fs, _⟩, hfs, heq⟩ := exists_of_map h
      obtain ⟨rfl, -⟩ := Prod.mk.inj heq
      have hall := Value.fieldsAreWritable_iff.1 (hread.fields hfs)
      exact Value.fieldsAreWritable_iff.2 fun e he => hall e (Entries.mem_of_mem_ofList he)
  · exact isWritable_of_readScalar h

theorem items_succ {vs : List Value} (h : readItems (fuel + 1) cs = .ok (vs, rest)) :
    Value.areWritable vs = true := by
  unfold readItems at h
  split at h
  · cases h
  · next v _ hv =>
    split at h
    · obtain ⟨rfl, -⟩ := Prod.mk.inj (Except.ok.inj h)
      exact Value.areWritable_iff.2 (List.forall_mem_singleton.2 (hread.value hv))
    · obtain ⟨⟨vs, _⟩, hvs, heq⟩ := exists_of_map h
      obtain ⟨rfl, -⟩ := Prod.mk.inj heq
      exact Bool.and_eq_true_iff.2 ⟨hread.value hv, hread.items hvs⟩
    · cases h

theorem fields_succ {fs : List (String × Value)}
    (h : readFields (fuel + 1) cs = .ok (fs, rest)) : Value.fieldsAreWritable fs = true := by
  unfold readFields at h
  split at h
  · split at h
    · cases h
    split at h
    · split at h
      · cases h
      · next v _ hv =>
        split at h
        · obtain ⟨rfl, -⟩ := Prod.mk.inj (Except.ok.inj h)
          exact Value.fieldsAreWritable_iff.2 (List.forall_mem_singleton.2 (hread.value hv))
        · obtain ⟨⟨fs, _⟩, hfs, heq⟩ := exists_of_map h
          obtain ⟨rfl, -⟩ := Prod.mk.inj heq
          exact Bool.and_eq_true_iff.2 ⟨hread.value hv, hread.fields hfs⟩
        · cases h
    · cases h
  · cases h

end ReadsWritable

/-- What is read from a text can be written, with any fuel. -/
theorem readsWritable (fuel : Nat) : ReadsWritable fuel := by
  induction fuel with
  | zero => exact ⟨nofun, nofun, nofun⟩
  | succ fuel ih => exact ⟨ih.value_succ, ih.items_succ, ih.fields_succ⟩

/-- **What is read from JSON can be written.** -/
theorem isWritable_of_read {s : String} (h : read s = .ok v) : v.isWritable = true := by
  unfold read at h
  dsimp only at h
  split at h
  · next v rest hvalue =>
    split at h
    · obtain rfl := Except.ok.inj h
      exact (readsWritable _).value hvalue
    · cases h
  · cases h

end Json

end MdxPages
