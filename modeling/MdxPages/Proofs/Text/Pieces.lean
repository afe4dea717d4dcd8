import MdxPages.Text.Search

/-!
# Proofs/Text/Pieces — cutting a text, joining its pieces, and collapsing runs

Cutting after joining gives the pieces back (`split_join`): no piece holds the character that the
text is cut at.  Runs are collapsed on both sides of any other character alone
(`collapse_append_cons`).
-/

namespace MdxPages.Text

variable {p q : Char → Bool} {c : Char} {cs : List Char}

/-! ## Beginnings -/

theorem startsWith_append (start s : String) : startsWith (start ++ s) start = true := by
  simp [startsWith]

/-- A text is what it starts with, and a rest. -/
theorem exists_append_of_startsWith {s start : String} (h : startsWith s start = true) :
    ∃ t, s = start ++ t := by
  obtain ⟨cs, hcs⟩ := List.isPrefixOf_iff_prefix.1 h
  exact ⟨String.ofList cs, String.toList_inj.1 (by simp [hcs])⟩

theorem startsWith_eq_head? {s start : String} (h : start.toList = [c]) :
    startsWith s start = (s.toList.head? == some c) := by
  rw [startsWith, h]
  cases s.toList with
  | nil => rfl
  | cons d cs => simp [List.isPrefixOf, BEq.comm (a := c)]

/-! ## Ends -/

theorem endsWith_eq_getLast? {s ending : String} (h : ending.toList = [c]) :
    endsWith s ending = (s.toList.getLast? == some c) := by
  have hreverse : (String.ofList s.toList.reverse).toList = s.toList.reverse := String.toList_ofList
  rw [← List.head?_reverse, ← hreverse, ← startsWith_eq_head? h, endsWith, startsWith, hreverse, h]
  rfl

theorem endsWith_append (s ending : String) : endsWith (s ++ ending) ending = true := by
  simp [endsWith]

/-- A text is a rest, and what it ends with. -/
theorem exists_append_of_endsWith {s ending : String} (h : endsWith s ending = true) :
    ∃ t, s = t ++ ending := by
  obtain ⟨cs, hcs⟩ := List.isSuffixOf_iff_suffix.1 h
  exact ⟨String.ofList cs, String.toList_inj.1 (by simp [hcs])⟩

/-- As many characters as the ending has are dropped. -/
theorem dropEnd_append (s ending : String) : dropEnd (s ++ ending) ending.length = s := by
  rw [dropEnd, ← String.length_toList, ← String.toList_inj]
  simp

/-! ## Pieces

Cutting goes from left to right, so a text without separators in front only grows the first piece.
-/

/-- A text is cut on both sides of a separator alike. -/
theorem splitOn_append_cons (hc : p c = true) (cs ds : List Char) :
    splitOn p (cs ++ c :: ds) = splitOn p cs ++ splitOn p ds := by
  induction cs with
  | nil => simp [splitOn, hc]
  | cons d cs ih =>
    rw [List.cons_append, splitOn, splitOn, ih]
    cases hd : p d with
    | true => simp
    | false =>
      cases hcs : splitOn p cs with
      | nil => exact absurd hcs (splitOn_ne_nil p cs)
      | cons piece pieces => simp

/-- A text without separators is one piece. -/
theorem splitOn_of_forall (h : ∀ c ∈ cs, p c = false) : splitOn p cs = [cs] := by
  induction cs with
  | nil => rfl
  | cons c cs ih =>
    rw [List.forall_mem_cons] at h
    rw [splitOn, ih h.2, h.1]
    rfl

/-- Pieces hold characters of the text, and no separators. -/
theorem mem_of_mem_splitOn {piece : List Char} (h : piece ∈ splitOn p cs) :
    ∀ c ∈ piece, c ∈ cs ∧ p c = false := by
  induction cs generalizing piece with
  | nil =>
    rw [splitOn, List.mem_singleton] at h
    simp [h]
  | cons c cs ih =>
    have hlater : ∀ piece ∈ splitOn p cs, ∀ d ∈ piece, d ∈ c :: cs ∧ p d = false :=
      fun _ hpiece d hd => (ih hpiece d hd).imp_left (List.mem_cons_of_mem _)
    rw [splitOn] at h
    cases hc : p c with
    | true =>
      rw [hc, if_pos rfl] at h
      obtain rfl | h := List.mem_cons.1 h
      · simp
      · exact hlater piece h
    | false =>
      cases hcs : splitOn p cs with
      | nil => exact absurd hcs (splitOn_ne_nil p cs)
      | cons first pieces =>
        rw [hcs, List.forall_mem_cons] at hlater
        rw [hc, hcs, if_neg Bool.false_ne_true] at h
        obtain rfl | h := List.mem_cons.1 h
        · exact List.forall_mem_cons.2 ⟨⟨List.mem_cons_self, hc⟩, hlater.1⟩
        · exact hlater.2 piece h

/-- A character that does not separate is in some piece. -/
theorem exists_mem_splitOn (hc : c ∈ cs) (h : p c = false) : ∃ piece ∈ splitOn p cs, c ∈ piece := by
  induction cs with
  | nil => cases hc
  | cons d cs ih =>
    rw [splitOn]
    cases hd : p d with
    | true =>
      have hdc : c ≠ d := by
        rintro rfl
        exact Bool.false_ne_true (h.symm.trans hd)
      obtain ⟨piece, hpiece, hmem⟩ := ih ((List.mem_cons.1 hc).resolve_left hdc)
      exact ⟨piece, List.mem_cons_of_mem _ hpiece, hmem⟩
    | false =>
      cases hcs : splitOn p cs with
      | nil => exact absurd hcs (splitOn_ne_nil p cs)
      | cons first pieces =>
        rw [hcs] at ih
        rw [if_neg Bool.false_ne_true]
        obtain rfl | hc := List.mem_cons.1 hc
        · exact ⟨_, List.mem_cons_self, List.mem_cons_self⟩
        · obtain ⟨piece, hpiece, hmem⟩ := ih hc
          obtain rfl | hpiece := List.mem_cons.1 hpiece
          · exact ⟨_, List.mem_cons_self, List.mem_cons_of_mem _ hmem⟩
          · exact ⟨piece, List.mem_cons_of_mem _ hpiece, hmem⟩

/-- A separator between two texts puts their pieces one after the other. -/
theorem split_append {separator : String} (hseparator : separator.toList = [c]) (s t : String) :
    split c (s ++ separator ++ t) = split c s ++ split c t := by
  rw [split, split, split, String.toList_append, String.toList_append, hseparator,
    List.append_assoc, List.singleton_append,
    splitOn_append_cons (p := (· == c)) (beq_self_eq_true c), List.map_append]

theorem split_of_notMem {s : String} (h : c ∉ s.toList) : split c s = [s] := by
  have hcut : splitOn (· == c) s.toList = [s.toList] :=
    splitOn_of_forall fun d hd => beq_false_of_ne fun hdc : d = c => h (hdc ▸ hd)
  rw [split, hcut, List.map_singleton, String.ofList_toList]

theorem split_cons {separator : String} (hseparator : separator.toList = [c]) {s : String}
    (h : c ∉ s.toList) (t : String) : split c (s ++ separator ++ t) = s :: split c t := by
  rw [split_append hseparator, split_of_notMem h, List.singleton_append]

theorem split_ne_nil (c : Char) (s : String) : split c s ≠ [] :=
  fun h => splitOn_ne_nil (· == c) s.toList (List.map_eq_nil_iff.1 h)

/-- A piece is put before others with a separator. -/
theorem join_cons (separator piece : String) {pieces : List String} (h : pieces ≠ []) :
    join separator (piece :: pieces) = piece ++ separator ++ join separator pieces := by
  cases pieces with
  | nil => exact absurd rfl h
  | cons next pieces => exact String.intercalate_cons_cons

/-- **Pieces that are joined are cut apart again.** -/
theorem splitOn_join {separator : String} (hseparator : separator.toList = [c]) (hc : p c = true)
    {pieces : List String} (hpieces : pieces ≠ [])
    (h : ∀ piece ∈ pieces, ∀ d ∈ piece.toList, p d = false) :
    (splitOn p (join separator pieces).toList).map String.ofList = pieces := by
  induction pieces with
  | nil => exact absurd rfl hpieces
  | cons piece pieces ih =>
    rw [List.forall_mem_cons] at h
    have hpiece : (splitOn p piece.toList).map String.ofList = [piece] := by
      rw [splitOn_of_forall h.1, List.map_singleton, String.ofList_toList]
    by_cases hrest : pieces = []
    · subst hrest
      exact hpiece
    · rw [join_cons _ _ hrest, String.toList_append, String.toList_append, hseparator,
        List.append_assoc, List.singleton_append, splitOn_append_cons hc, List.map_append, hpiece,
        ih hrest h.2, List.singleton_append]

/-- Pieces that are joined are cut apart again. -/
theorem split_join {separator : String} (hseparator : separator.toList = [c])
    {pieces : List String} (hpieces : pieces ≠ []) (h : ∀ piece ∈ pieces, c ∉ piece.toList) :
    split c (join separator pieces) = pieces :=
  splitOn_join (p := (· == c)) hseparator (beq_self_eq_true c) hpieces fun piece hpiece _ hd =>
    beq_false_of_ne fun heq => h piece hpiece (heq ▸ hd)

/-- Texts that are joined are cut one by one. -/
theorem split_join_eq_flatten {separator : String} (hseparator : separator.toList = [c])
    {texts : List String} (htexts : texts ≠ []) :
    split c (join separator texts) = (texts.map (split c)).flatten := by
  induction texts with
  | nil => exact absurd rfl htexts
  | cons text texts ih =>
    by_cases hrest : texts = []
    · subst hrest
      exact (List.append_nil _).symm
    · rw [join_cons _ _ hrest, split_append hseparator, ih hrest, List.map_cons, List.flatten_cons]

/-- What holds of texts without a separator, and of a text with one more piece in front, holds of
all texts. -/
theorem pieceInduction {separator : String} (hseparator : separator.toList = [c])
    {P : String → Prop} (last : ∀ s : String, c ∉ s.toList → P s)
    (more : ∀ s t : String, c ∉ s.toList → P t → P (s ++ separator ++ t)) (s : String) : P s := by
  induction hn : s.toList.length using Nat.strongRecOn generalizing s with
  | ind n ih =>
    by_cases hc : c ∈ s.toList
    · obtain ⟨front, rest, hs, hfront⟩ := List.eq_append_cons_of_mem hc
      have hcut : s = String.ofList front ++ separator ++ String.ofList rest := by
        rw [← String.toList_inj]
        simp [hs, hseparator]
      rw [hcut]
      refine more _ _ (by simpa using hfront) (ih rest.length ?_ _ (by simp))
      rw [← hn, hs, List.length_append, List.length_cons]
      omega
    · exact last s hc

/-- **A text that is cut apart is joined again.** -/
theorem join_split {separator : String} (hseparator : separator.toList = [c]) (s : String) :
    join separator (split c s) = s := by
  induction s using pieceInduction hseparator with
  | last s h => rw [split_of_notMem h]; rfl
  | more s t h ih => rw [split_cons hseparator h, join_cons _ _ (split_ne_nil c t), ih]

/-- Where two texts meet, the last piece of the one and the first piece of the other are one. -/
theorem split_append_of_split {s t last first : String} {front back : List String}
    (hs : split c s = front ++ [last]) (ht : split c t = first :: back) :
    split c (s ++ t) = front ++ (last ++ first) :: back := by
  have hseparator : (String.singleton c).toList = [c] := String.toList_singleton c
  induction s using pieceInduction hseparator generalizing front with
  | last s hs' =>
    rw [split_of_notMem hs', eq_comm, List.append_eq_singleton_iff] at hs
    obtain ⟨rfl, hlast⟩ | ⟨-, hlast⟩ := hs
    · obtain rfl := List.singleton_inj.1 hlast
      induction t using pieceInduction hseparator with
      | last t ht' =>
        rw [split_of_notMem ht'] at ht
        obtain ⟨rfl, rfl⟩ := List.cons.inj ht
        exact split_of_notMem (by simp [hs', ht'])
      | more t u ht' =>
        rw [split_cons hseparator ht'] at ht
        obtain ⟨rfl, rfl⟩ := List.cons.inj ht
        rw [← String.append_assoc, ← String.append_assoc]
        exact split_cons hseparator (by simp [hs', ht']) u
    · cases hlast
  | more s u hs' ih =>
    rw [split_cons hseparator hs'] at hs
    cases front with
    | nil => exact absurd (List.cons.inj hs).2 (split_ne_nil c u)
    | cons piece front =>
      obtain ⟨rfl, hu⟩ := List.cons.inj hs
      rw [String.append_assoc, split_cons hseparator hs', ih hu]
      rfl

/-- No piece holds the separator. -/
theorem notMem_of_mem_split {s piece : String} (h : piece ∈ split c s) : c ∉ piece.toList := by
  obtain ⟨cs, hcs, rfl⟩ := List.mem_map.1 h
  rw [String.toList_ofList]
  exact fun hc => by simpa using (mem_of_mem_splitOn hcs c hc).2

theorem mem_of_mem_split {s piece : String} (h : piece ∈ split c s) :
    ∀ d ∈ piece.toList, d ∈ s.toList := by
  obtain ⟨cs, hcs, rfl⟩ := List.mem_map.1 h
  rw [String.toList_ofList]
  exact fun d hd => (mem_of_mem_splitOn hcs d hd).1

/-- A piece stands in the text as a whole. -/
theorem infix_of_mem_split {s piece : String} (h : piece ∈ split c s) :
    piece.toList <:+: s.toList := by
  have hseparator : (String.singleton c).toList = [c] := String.toList_singleton c
  induction s using pieceInduction hseparator with
  | last s hs =>
    rw [split_of_notMem hs, List.mem_singleton] at h
    exact h ▸ List.infix_refl _
  | more s t hs ih =>
    rw [String.toList_append, String.toList_append]
    rw [split_cons hseparator hs] at h
    obtain rfl | h := List.mem_cons.1 h
    · exact ((List.prefix_append _ _).trans (List.prefix_append _ _)).isInfix
    · exact (ih h).trans (List.suffix_append _ _).isInfix

/-- Joined texts hold no other characters than the texts and the separator. -/
theorem forall_mem_join {P : Char → Prop} {separator : String}
    (hseparator : ∀ c ∈ separator.toList, P c) {pieces : List String}
    (h : ∀ piece ∈ pieces, ∀ c ∈ piece.toList, P c) :
    ∀ c ∈ (join separator pieces).toList, P c := by
  rw [join]
  induction pieces with
  | nil => simp
  | cons piece pieces ih =>
    rw [List.forall_mem_cons] at h
    cases pieces with
    | nil => simpa using h.1
    | cons next pieces =>
      rw [String.intercalate_cons_cons, String.toList_append, String.toList_append]
      exact List.forall_mem_append.2 ⟨List.forall_mem_append.2 ⟨h.1, hseparator⟩, ih h.2⟩

/-! ## Runs

A run is replaced by one mark, and the texts on both sides of another character are collapsed by
themselves. -/

/-- A character of another kind stays. -/
theorem collapse_cons_of_neg (hc : q c = false) (mark : Char) (cs : List Char) :
    collapse q mark (c :: cs) = c :: collapse q mark cs := by
  rw [collapse.eq_def]
  simp [hc]

/-- A character outside of all runs is a border between what is collapsed before and after it. -/
theorem collapse_append_cons (hc : q c = false) (mark : Char) (cs ds : List Char) :
    collapse q mark (cs ++ c :: ds) = collapse q mark cs ++ c :: collapse q mark ds := by
  induction cs with
  | nil => exact collapse_cons_of_neg hc mark ds
  | cons b cs ih =>
    cases hb : q b with
    | false => simp [collapse_cons_of_neg hb, ih]
    | true =>
      cases cs with
      | nil => simp [collapse, hb, hc]
      | cons d cs => cases hd : q d <;> simp_all [collapse]

theorem collapse_of_forall (mark : Char) (h : ∀ c ∈ cs, q c = false) : collapse q mark cs = cs := by
  induction cs with
  | nil => rfl
  | cons c cs ih =>
    rw [List.forall_mem_cons] at h
    rw [collapse_cons_of_neg h.1, ih h.2]

/-- Nothing of the kind is left but the mark. -/
theorem eq_false_of_mem_collapse {mark : Char} (hmark : q mark = false) :
    ∀ c ∈ collapse q mark cs, q c = false := by
  induction cs using collapse.induct q with
  | case1 => simp [collapse]
  | case2 c hc d cs hd ih => simpa [collapse, hc, hd] using ih
  | case3 c hc d cs hd ih => simpa [collapse, hc, hd, hmark] using ih
  | case4 c hc => simpa [collapse, hc] using hmark
  | case5 c cs hc ih =>
    rw [Bool.not_eq_true] at hc
    simpa [collapse_cons_of_neg hc, hc] using ih

theorem mem_of_mem_collapse {mark : Char} {c : Char} (h : c ∈ collapse q mark cs) :
    c ∈ cs ∨ c = mark := by
  induction cs using collapse.induct q with
  | case1 => exact .inl h
  | case2 b hb d cs hd ih =>
    rw [collapse, if_pos hb, if_pos hd] at h
    exact (ih h).imp_left (List.mem_cons_of_mem b)
  | case3 b hb d cs hd ih =>
    rw [collapse, if_pos hb, if_neg hd, List.mem_cons] at h
    obtain h | h := h
    · exact .inr h
    · exact (ih h).imp_left (List.mem_cons_of_mem b)
  | case4 b hb =>
    rw [collapse, if_pos hb] at h
    exact .inr (List.mem_singleton.1 h)
  | case5 b cs hb ih =>
    rw [Bool.not_eq_true] at hb
    rw [collapse_cons_of_neg hb, List.mem_cons] at h
    obtain rfl | h := h
    · exact .inl List.mem_cons_self
    · exact (ih h).imp_left (List.mem_cons_of_mem b)

/-- A text starts as before, or with the mark. -/
theorem head?_collapse (q : Char → Bool) (mark : Char) (cs : List Char) :
    (collapse q mark cs).head? = cs.head?.map fun c => if q c then mark else c := by
  induction cs using collapse.induct q with
  | case1 => rfl
  | case2 c hc d cs hd ih => simpa [collapse, hc, hd] using ih
  | case3 c hc d cs hd ih => simp [collapse, hc, hd]
  | case4 c hc => simp [collapse, hc]
  | case5 c cs hc ih =>
    rw [Bool.not_eq_true] at hc
    simp [collapse_cons_of_neg hc, hc]

end MdxPages.Text
