import MdxPages.Bytes.Basic

/-!
# Proofs/Bytes — a text is read back from its bytes

The UTF-8 form of a text stands for that text (`text?_ofText`), also where line ends are unified, if
no `\r` is in it (`linesText?_ofText`).
-/

namespace MdxPages

theorem Text.unifyLineEnds_eq_self {cs : List Char} (h : '\r' ∉ cs) : unifyLineEnds cs = cs := by
  induction cs with
  | nil => rfl
  | cons c cs ih =>
    rw [List.mem_cons, not_or] at h
    rw [unifyLineEnds, if_neg (Ne.symm h.1), ih h.2]
    rintro rest rfl
    exact absurd rfl h.1

namespace Bytes

/-- Decoding undoes encoding, for every text. -/
theorem text?_ofText (s : String) : text? (ofText s) = some s := by
  have hvalid : (ByteArray.mk s.toUTF8.data.toList.toArray).IsValidUTF8 := s.isValidUTF8
  rw [text?, ofText, String.fromUTF8?, dif_pos hvalid]
  rfl

/-- **A text without `\r` is read back from its bytes.** -/
theorem linesText?_ofText {s : String} (h : '\r' ∉ s.toList) : linesText? (ofText s) = some s := by
  rw [linesText?, text?_ofText, Option.map_some, Text.unifyLineEnds_eq_self h, String.ofList_toList]

end Bytes

end MdxPages
