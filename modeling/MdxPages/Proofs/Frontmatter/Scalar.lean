import MdxPages.Frontmatter
import MdxPages.Proofs.Json.Scalar

/-!
# Proofs/Frontmatter/Scalar — what a scalar looks like

A scalar is written in quotes, or of characters alone that mean nothing to a block (`Sealed`).
-/

namespace MdxPages.Frontmatter

/-- The characters of scalars without quotes: the plain ones, and the sign of an exponent. -/
def isBare (c : Char) : Bool :=
  isPlain c || c == '+'

/-- A text of bare characters. -/
def Bare (cs : List Char) : Prop :=
  cs ≠ [] ∧ ∀ c ∈ cs, isBare c = true

/-- A text in quotes and without a line end, or a bare one. -/
def Sealed (cs : List Char) : Prop :=
  (∃ body, cs = '"' :: body ∧ '\n' ∉ body) ∨ Bare cs

/-! ## Numbers

A number is never put in quotes.  It has digits, a sign, a point and the letters of an exponent or
of its name. -/

/-- Digits are bare. -/
theorem isBare_of_isDigit {c : Char} (h : c.isDigit = true) : isBare c = true := by
  simp [isBare, isPlain, Char.isAlphanum, h]

/-- A number in digits is bare. -/
theorem bare_toDigits (n : Nat) : Bare (Nat.toDigits 10 n) :=
  ⟨Nat.toDigits_ne_nil, fun _ hc =>
    isBare_of_isDigit (Nat.isDigit_of_mem_toDigits (by decide) (by decide) hc)⟩

theorem Bare.cons {c : Char} {cs : List Char} (h : Bare cs) (hc : isBare c = true) :
    Bare (c :: cs) :=
  ⟨List.cons_ne_nil _ _, List.forall_mem_cons.2 ⟨hc, h.2⟩⟩

theorem bare_toString (i : Int) : Bare (toString i).toList := by
  cases i with
  | ofNat n =>
    rw [show toString (Int.ofNat n) = n.repr from rfl, Nat.toList_repr]
    exact bare_toDigits n
  | negSucc n =>
    rw [Json.toList_toString_negSucc]
    exact (bare_toDigits (n + 1)).cons rfl

/-- A decimal is bare, with its point and its exponent. -/
theorem bare_decimal (d : Decimal) : Bare d.text := by
  have hzeros (n : Nat) : ∀ c ∈ List.replicate n '0', isBare c = true := fun c hc =>
    List.eq_of_mem_replicate hc ▸ rfl
  have hdigits : ∀ c ∈ d.chars, isBare c = true := (bare_toDigits d.digits).2
  have htake (n : Nat) : ∀ c ∈ d.chars.take n, isBare c = true :=
    fun c hc => hdigits c (List.mem_of_mem_take hc)
  have hdrop (n : Nat) : ∀ c ∈ d.chars.drop n, isBare c = true :=
    fun c hc => hdigits c (List.mem_of_mem_drop hc)
  unfold Decimal.text
  dsimp only
  split
  · split
    · refine ⟨by simp, ?_⟩
      simp only [List.cons_append, List.forall_mem_cons, List.forall_mem_append]
      exact ⟨rfl, rfl, hzeros _, hdigits⟩
    · refine ⟨by simp, ?_⟩
      simp only [List.forall_mem_cons, List.forall_mem_append]
      refine ⟨⟨htake _, hzeros _⟩, rfl, ?_⟩
      split
      · exact hzeros 1
      · exact hdrop _
  · refine ⟨by simp, ?_⟩
    simp only [List.forall_mem_cons, List.forall_mem_append]
    refine ⟨?_, rfl, by split <;> rfl, hzeros _, (bare_toDigits _).2⟩
    split
    · exact fun c hc => absurd hc List.not_mem_nil
    · next c hc => exact hc ▸ hdigits
    · next c cs _ hcs =>
      rw [hcs, List.forall_mem_cons] at hdigits
      exact List.forall_mem_cons.2 ⟨hdigits.1, List.forall_mem_cons.2 ⟨rfl, hdigits.2⟩⟩

/-- **A number is bare**, however it is written. -/
theorem bare_plainText (n : Number) : Bare n.plainText.toList := by
  unfold Number.plainText
  split
  · exact bare_toString _
  · exact ⟨by decide, List.all_eq_true.1 rfl⟩
  · split <;> exact ⟨by decide, List.all_eq_true.1 rfl⟩
  · next negative m e =>
    split
    · exact bare_toString _
    · have hdigits : Bare (if m = 0 then ['0', '.', '0'] else (shortest m e).text) := by
        split
        · exact ⟨by decide, List.all_eq_true.1 rfl⟩
        · exact bare_decimal _
      rw [Double.text, String.toList_ofList]
      split
      · exact hdigits.cons rfl
      · exact hdigits

/-! ## Scalars

Texts are put in quotes unless all their characters are plain, so they are sealed either way. -/

/-- No line end stands in quotes as it is. -/
theorem break_notMem_quote (s : String) : '\n' ∉ (Json.quote s).toList := by
  have hcontrol : ∀ n < 32, '\n' ∉ Json.charText false (Char.ofNat n) := by decide
  have hchar (c : Char) : '\n' ∉ Json.charText false c := by
    by_cases hc : c.toNat < 32
    · have h := hcontrol c.toNat hc
      rwa [Char.ofNat_toNat] at h
    · unfold Json.charText
      repeat' split
      all_goals simp_all [eq_comm]
  rw [Json.quote, String.toList_ofList, Json.stringText]
  simp [hchar]

/-- A text in quotes is sealed. -/
theorem sealed_quote (s : String) : Sealed (Json.quote s).toList := by
  refine .inl ⟨s.toList.flatMap (Json.charText false) ++ ['"'], ?_, ?_⟩
  · rw [Json.quote, String.toList_ofList, Json.stringText]
    rfl
  · have hquote := break_notMem_quote s
    rw [Json.quote, String.toList_ofList, Json.stringText, List.cons_append, List.mem_cons]
      at hquote
    exact fun h => hquote (.inr h)

/-- **Whatever is written for a text is sealed.** -/
theorem sealed_scalarText (s : String) : Sealed (scalarText s).toList := by
  rw [scalarText]
  split
  · exact sealed_quote s
  · next h =>
    simp [needsQuotes, String.isEmpty_iff] at h
    exact .inr ⟨by simp [h.1], fun c hc => by simp [isBare, h.2 c hc]⟩

/-- So is what is written for a value of another kind. -/
theorem sealed_foreignText (x : Foreign) : Sealed (foreignText x).toList := by
  unfold foreignText
  split
  · exact .inr (bare_toString _)
  · exact sealed_quote _

end MdxPages.Frontmatter
