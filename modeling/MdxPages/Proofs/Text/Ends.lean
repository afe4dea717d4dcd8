import Mathlib.Data.List.DropRight
import MdxPages.Proofs.Text.Pieces
import MdxPages.Text.Space

/-!
# Proofs/Text/Ends — the ends of texts

White space is cut off the end of a text, and nothing else (`exists_stripEnd_append`).  One carriage
return can be dropped there alone (`dropReturn`), as it happens to each line of a text in which
`\r\n` becomes `\n`.
-/

namespace MdxPages.Text

variable {s t : String}

/-! ## White space at the end

Stripping is cutting at the last visible character. -/

theorem isBlank_append (s t : String) : isBlank (s ++ t) = (isBlank s && isBlank t) := by
  simp [isBlank]

/-- A text is not blank if it holds something visible. -/
theorem isBlank_eq_false_iff : isBlank s = false ↔ ∃ c ∈ s.toList, isSpace c = false := by
  simp [isBlank]

/-- What is blank at the end is cut off. -/
theorem stripEnd_append_of_isBlank (h : isBlank t = true) : stripEnd (s ++ t) = stripEnd s := by
  have hdrop : t.toList.reverse.dropWhile isSpace = [] :=
    List.dropWhile_eq_nil_iff.2 fun c hc => List.all_eq_true.1 h c (List.mem_reverse.1 hc)
  simp [stripEnd, dropEndWhile, List.dropWhile_append, hdrop]

/-- Behind something visible only its own end is cut. -/
theorem stripEnd_append (s : String) (h : isBlank t = false) :
    stripEnd (s ++ t) = s ++ stripEnd t := by
  obtain ⟨c, hc, hspace⟩ := isBlank_eq_false_iff.1 h
  have hdrop : t.toList.reverse.dropWhile isSpace ≠ [] := fun hnil =>
    Bool.false_ne_true (hspace.symm.trans
      (List.dropWhile_eq_nil_iff.1 hnil c (List.mem_reverse.2 hc)))
  rw [← String.toList_inj]
  simp [stripEnd, dropEndWhile, List.dropWhile_append, hdrop]

theorem stripEnd_of_isBlank (h : isBlank s = true) : stripEnd s = "" := by
  rw [← String.empty_append (s := s), stripEnd_append_of_isBlank h]
  rfl

/-- White space is cut off the end, and nothing else. -/
theorem exists_stripEnd_append (s : String) : ∃ t, isBlank t = true ∧ s = stripEnd s ++ t := by
  refine ⟨String.ofList (s.toList.rtakeWhile isSpace), ?_, ?_⟩
  · rw [isBlank, String.toList_ofList, List.all_eq_true]
    exact fun c hc => List.mem_rtakeWhile_imp hc
  · rw [← String.toList_inj, String.toList_append, String.toList_ofList, stripEnd,
      String.toList_ofList]
    exact List.rdropWhile_append_rtakeWhile.symm

@[simp] theorem isBlank_stripEnd (s : String) : isBlank (stripEnd s) = isBlank s := by
  obtain ⟨t, ht, hs⟩ := exists_stripEnd_append s
  conv_rhs => rw [hs, isBlank_append, ht, Bool.and_true]

@[simp] theorem stripEnd_stripEnd (s : String) : stripEnd (stripEnd s) = stripEnd s := by
  obtain ⟨t, ht, hs⟩ := exists_stripEnd_append s
  conv_rhs => rw [hs, stripEnd_append_of_isBlank ht]

theorem stripEnd_of_forall (h : ∀ c ∈ s.toList, isSpace c = false) : stripEnd s = s := by
  obtain ⟨t, ht, hs⟩ := exists_stripEnd_append s
  have hmem : ∀ c ∈ t.toList, c ∈ s.toList := by
    rw [hs, String.toList_append]
    exact fun c => List.mem_append_right _
  have hnil : t.toList = [] := List.eq_nil_iff_forall_not_mem.2 fun c hc =>
    Bool.false_ne_true ((h c (hmem c hc)).symm.trans (List.all_eq_true.1 ht c hc))
  rw [String.toList_eq_nil_iff.1 hnil, String.append_empty] at hs
  exact hs.symm

/-! ## A carriage return at the end -/

/-- A text without one carriage return at its end. -/
def dropReturn (s : String) : String :=
  if s.toList.getLast? = some '\r' then dropEnd s 1 else s

/-- One carriage return is dropped. -/
theorem dropReturn_append_return (s : String) : dropReturn (s ++ "\r") = s := by
  rw [dropReturn, if_pos (by simp)]
  exact dropEnd_append s "\r"

theorem dropReturn_of_ne (h : s.toList.getLast? ≠ some '\r') : dropReturn s = s :=
  if_neg h

/-- A text ends with a carriage return, or stays as it is. -/
theorem dropReturn_cases (s : String) :
    (∃ t, s = t ++ "\r" ∧ dropReturn s = t) ∨
      s.toList.getLast? ≠ some '\r' ∧ dropReturn s = s := by
  by_cases h : s.toList.getLast? = some '\r'
  · obtain ⟨cs, hcs⟩ := List.getLast?_eq_some_iff.1 h
    have hs : s = String.ofList cs ++ "\r" := String.toList_inj.1 (by simp [hcs])
    exact .inl ⟨String.ofList cs, hs, by rw [hs, dropReturn_append_return]⟩
  · exact .inr ⟨h, dropReturn_of_ne h⟩

theorem mem_of_mem_dropReturn {c : Char} (h : c ∈ (dropReturn s).toList) : c ∈ s.toList := by
  obtain ⟨t, hs, hdrop⟩ | ⟨-, hdrop⟩ := dropReturn_cases s
  · rw [hdrop] at h
    rw [hs, String.toList_append]
    exact List.mem_append_left _ h
  · rwa [hdrop] at h

/-- What stands before a text that is not empty keeps its carriage returns. -/
theorem dropReturn_append (s : String) (h : t ≠ "") : dropReturn (s ++ t) = s ++ dropReturn t := by
  obtain ⟨u, rfl, hdrop⟩ | ⟨ht, hdrop⟩ := dropReturn_cases t
  · rw [← String.append_assoc, dropReturn_append_return, hdrop]
  · have hst : (s ++ t).toList.getLast? ≠ some '\r' := by
      rwa [String.toList_append, List.getLast?_append_of_ne_nil _ (by simpa using h)]
    rw [hdrop, dropReturn_of_ne hst]

@[simp] theorem stripEnd_dropReturn (s : String) : stripEnd (dropReturn s) = stripEnd s := by
  obtain ⟨t, rfl, hdrop⟩ | ⟨-, hdrop⟩ := dropReturn_cases s
  · rw [hdrop, stripEnd_append_of_isBlank rfl]
  · rw [hdrop]

@[simp] theorem isBlank_dropReturn (s : String) : isBlank (dropReturn s) = isBlank s := by
  rw [← isBlank_stripEnd, stripEnd_dropReturn, isBlank_stripEnd]

/-- A text that ends without white space ends without a carriage return. -/
theorem dropReturn_of_stripEnd_eq (h : stripEnd s = s) : dropReturn s = s := by
  obtain ⟨t, rfl, -⟩ | ⟨-, hdrop⟩ := dropReturn_cases s
  · obtain ⟨u, -, hu⟩ := exists_stripEnd_append t
    rw [stripEnd_append_of_isBlank rfl] at h
    rw [h] at hu
    have hlength := congrArg (·.toList.length) hu
    simp at hlength
  · exact hdrop

end MdxPages.Text
