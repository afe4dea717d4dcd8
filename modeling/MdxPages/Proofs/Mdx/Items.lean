import MdxPages.Proofs.Json.Scalar
import MdxPages.Proofs.Mdx.Nesting
import MdxPages.Proofs.Mdx.Render
import MdxPages.Proofs.Mdx.Renderer

/-!
# Proofs/Mdx/Items — the items of a list in its text

Of the lines of an item only the first begins without a space, for it begins with the marker
(`isGroup_itemText`).  So **the text of a list is cut into its items again** (`groups_of_list`):
each group of lines begins with the marker of its item, and behind the marker, and the margin below
it, stand the blocks of the item as they are rendered by themselves.
-/

namespace MdxPages

namespace Text

/-! ## Groups of lines

Cutting before each element of a kind puts what comes before the first of them aside, and starts a
group at each of them. -/

section

variable {α : Type} {p : α → Bool} {groups : List (List α)}

/-- A list cut before each element of a kind: what stands before the first cut, and the groups that
begin at the cuts. -/
def cutBefore (p : α → Bool) : List α → List α × List (List α)
  | [] => ([], [])
  | x :: xs =>
    let (head, groups) := cutBefore p xs
    if p x then ([], (x :: head) :: groups) else (x :: head, groups)

/-- A list that is cut before its first element only. -/
def IsGroup (p : α → Bool) (group : List α) : Prop :=
  ∃ first later, group = first :: later ∧ p first = true ∧ ∀ x ∈ later, p x = false

/-- Elements that begin no group are left in front. -/
theorem cutBefore_append {xs : List α} (h : ∀ x ∈ xs, p x = false) (ys : List α) :
    cutBefore p (xs ++ ys) = (xs ++ (cutBefore p ys).1, (cutBefore p ys).2) := by
  induction xs with
  | nil => rfl
  | cons x xs ih =>
    rw [List.forall_mem_cons] at h
    rw [List.cons_append, cutBefore, ih h.2, h.1]
    rfl

/-- **Groups are cut apart again.** -/
theorem cutBefore_flatten (h : ∀ group ∈ groups, IsGroup p group) :
    cutBefore p groups.flatten = ([], groups) := by
  induction groups with
  | nil => rfl
  | cons group groups ih =>
    rw [List.forall_mem_cons] at h
    obtain ⟨⟨first, later, rfl, hfirst, hlater⟩, hgroups⟩ := h
    rw [List.flatten_cons, List.cons_append, cutBefore, cutBefore_append hlater, ih hgroups]
    simp only [hfirst, if_true, List.append_nil]

end

/-- Lines with the blank ones emptied, and without those at the end. -/
def inked (lines : List String) : List String :=
  (lines.map (clearIf true)).rdropWhile (·.isEmpty)

end Text

namespace Mdx

open Text

variable {o : RenderOptions} {marker content : String}

/-! ## The lines of an item

The margin below a marker is blank and as wide as the marker, so the lines of an item stand in one
column. -/

/-- Whether a line begins an item: it is not empty and does not start with a space. -/
def beginsItem (line : String) : Bool :=
  !line.isEmpty && !startsWith line " "

theorem beginsItem_eq (line : String) :
    beginsItem line = line.toList.head?.any (· != ' ') := by
  have hspace : (" " : String).toList = [' '] := rfl
  rw [beginsItem, startsWith_eq_head? hspace]
  cases hline : line.toList with
  | nil =>
    rw [String.toList_eq_nil_iff.1 hline]
    rfl
  | cons c cs =>
    have hne : line ≠ "" := fun h => by simp [h] at hline
    simp [hne, bne]

/-- What a list item can be led by. -/
structure IsMarker (marker : String) : Prop where
  ne_empty : marker ≠ ""
  chars : ∀ c ∈ marker.toList, isSpace c = false

/-- What stands before the lines of a list item: the marker and a space, and as many spaces. -/
def underMarker (marker : String) : Margin :=
  ⟨marker ++ " ", itemMargin marker, false, endsWith_append _ _, endsWith_itemMargin marker⟩

/-- Some lines show an item: they begin with its marker, and behind the marker and the margin below
it they hold its content, up to blank lines and line ends at the end. -/
def ShowsItem (marker content : String) (group : List String) : Prop :=
  (∃ first later, group = first :: later ∧ startsWith first marker = true) ∧
    ∃ lines, (underMarker marker).remove? group = some lines ∧
      inked lines = inked (split '\n' content)

/-- A bullet is a marker. -/
theorem isMarker_bullet (o : RenderOptions) : IsMarker o.bullet.text := by
  refine ⟨Renderer.bullet_ne_empty o, ?_⟩
  cases o.bullet <;> exact List.forall_mem_singleton.2 rfl

theorem isSpace_of_isDigit {c : Char} (h : c.isDigit = true) : isSpace c = false := by
  have hrange : 48 ≤ c.toNat ∧ c.toNat ≤ 57 := Char.isDigit_iff_toNat.1 h
  simp [isSpace]
  omega

/-- A number and a point are a marker. -/
theorem isMarker_number (i : Int) : IsMarker (toString i ++ ".") := by
  have hdigits (n : Nat) : ∀ c ∈ Nat.toDigits 10 n, isSpace c = false := fun c hc =>
    isSpace_of_isDigit (Nat.isDigit_of_mem_toDigits (by decide) (by decide) hc)
  have hchars : ∀ c ∈ (toString i).toList, isSpace c = false := by
    cases i with
    | ofNat n =>
      rw [show toString (Int.ofNat n) = n.repr from rfl, Nat.toList_repr]
      exact hdigits n
    | negSucc n =>
      rw [Json.toList_toString_negSucc]
      exact List.forall_mem_cons.2 ⟨rfl, hdigits (n + 1)⟩
  refine ⟨by simp, ?_⟩
  rw [String.toList_append]
  exact List.forall_mem_append.2 ⟨hchars, List.forall_mem_singleton.2 rfl⟩

namespace IsMarker

/-- A marker by itself loses the blank behind it. -/
theorem stripEnd_append (h : IsMarker marker) : stripEnd (marker ++ " ") = marker := by
  rw [stripEnd_append_of_isBlank rfl, stripEnd_of_forall h.chars]

theorem notMem (h : IsMarker marker) : '\n' ∉ marker.toList := fun hmem =>
  Bool.false_ne_true ((h.chars _ hmem).symm.trans rfl)

/-- A line that begins with a marker begins an item. -/
theorem beginsItem (h : IsMarker marker) (s : String) : beginsItem (marker ++ s) = true := by
  rw [beginsItem_eq, String.toList_append]
  cases hmarker : marker.toList with
  | nil => exact absurd (String.toList_eq_nil_iff.1 hmarker) h.ne_empty
  | cons c cs =>
    have hc : c ≠ ' ' := by
      rintro rfl
      exact Bool.false_ne_true ((h.chars _ (hmarker ▸ List.mem_cons_self)).symm.trans rfl)
    simp [hc]

end IsMarker

/-- No line below the first begins an item. -/
theorem not_beginsItem_setLine (marker line : String) :
    beginsItem (setLine (itemMargin marker) line) = false := by
  cases h : isBlank line with
  | true =>
    rw [setLine_of_isBlank (isBlank_itemMargin marker) h]
    rfl
  | false =>
    rw [setLine_of_not_isBlank _ h, beginsItem_eq]
    simp [itemMargin, List.replicate_succ]

/-- The first line of an item starts with its marker. -/
theorem startsWith_behind (h : IsMarker marker) (first : String) :
    ∃ s, behind (marker ++ " ") first = marker ++ s := by
  rw [behind, h.stripEnd_append]
  split
  · exact ⟨"", String.append_empty.symm⟩
  · exact ⟨" " ++ first, String.append_assoc⟩

/-- The text of an item hangs behind its marker. -/
theorem itemText_eq (h : IsMarker marker) (content : String) :
    itemText marker content = hangingText (behind (marker ++ " ")) (itemMargin marker) content := by
  have hhead : behind (marker ++ " ") = fun first =>
      if first.isEmpty then marker else marker ++ " " ++ first := by
    funext first
    rw [behind, h.stripEnd_append]
  rw [hhead]
  rfl

/-- The lines of an item: the first behind the marker, the others in the margin below it. -/
theorem split_itemText (h : IsMarker marker) {first : String} {rest : List String}
    (hcontent : split '\n' content = first :: rest) :
    split '\n' (itemText marker content) = behind (marker ++ " ") first ::
      if rest = [] ∨ rest = [""] then [] else rest.map (setLine (itemMargin marker)) := by
  have hfirst : '\n' ∉ first.toList := notMem_of_mem_split (hcontent ▸ List.mem_cons_self)
  have hline : '\n' ∉ (behind (marker ++ " ") first).toList := by
    rw [behind, h.stripEnd_append]
    split
    · exact h.notMem
    · simp [h.notMem, hfirst]
  rw [itemText_eq h, split_hangingText _ (isBlank_itemMargin marker) (notMem_itemMargin marker)
    hcontent, split_of_notMem hline]
  rfl

/-- **Of the lines of an item only the first begins an item.** -/
theorem isGroup_itemText (h : IsMarker marker) (content : String) :
    IsGroup beginsItem (split '\n' (itemText marker content)) := by
  obtain ⟨first, rest, hcontent⟩ := List.exists_cons_of_ne_nil (split_ne_nil '\n' content)
  obtain ⟨s, hs⟩ := startsWith_behind h first
  refine ⟨_, _, split_itemText h hcontent, hs ▸ h.beginsItem s, ?_⟩
  split
  · exact fun _ hline => absurd hline List.not_mem_nil
  · exact List.forall_mem_map.2 fun line _ => not_beginsItem_setLine marker line

/-- An empty line at the end does not show. -/
theorem inked_append_empty (lines : List String) : inked (lines ++ [""]) = inked lines := by
  rw [inked, List.map_append]
  exact List.rdropWhile_concat_pos _ _ _ rfl

theorem inked_map_clearIf (first : String) (rest : List String) :
    inked (first :: rest.map (clearIf true)) = inked (first :: rest) := by
  have hclear : clearIf true ∘ clearIf true = clearIf true :=
    funext fun line => clearIf_clearIf true true line
  rw [inked, inked, List.map_cons, List.map_map, hclear, List.map_cons]

/-- **The lines of an item show it.** -/
theorem showsItem_itemText (h : IsMarker marker) (content : String) :
    ShowsItem marker content (split '\n' (itemText marker content)) := by
  obtain ⟨first, rest, hcontent⟩ := List.exists_cons_of_ne_nil (split_ne_nil '\n' content)
  obtain ⟨s, hs⟩ := startsWith_behind h first
  have hfirst : dropMargin (marker ++ " ") (behind (marker ++ " ") first) = some first :=
    dropMargin_behind (endsWith_append _ _) first
  have hrest : (rest.map (setLine (itemMargin marker))).mapM (dropMargin (itemMargin marker)) =
      some (rest.map (clearIf true)) := by
    rw [mapM_eq_some_iff, List.forall₂_map_left_iff, List.forall₂_map_right_iff, List.forall₂_same]
    intro line _
    rw [← isBlank_itemMargin marker]
    exact dropMargin_behind (endsWith_itemMargin marker) _
  have hremove {lines lines' : List String}
      (hlines : lines.mapM (dropMargin (itemMargin marker)) = some lines') :
      (underMarker marker).remove? (behind (marker ++ " ") first :: lines) =
        some (first :: lines') := by
    simp [underMarker, Margin.remove?, hfirst, hlines]
  rw [split_itemText h hcontent]
  refine ⟨⟨_, _, rfl, hs ▸ startsWith_append marker s⟩, ?_⟩
  split
  · next hbare =>
    refine ⟨[first], hremove rfl, ?_⟩
    rw [hcontent]
    obtain rfl | rfl := hbare
    · rfl
    · exact (inked_append_empty [first]).symm
  · exact ⟨first :: rest.map (clearIf true), hremove hrest, by rw [hcontent, inked_map_clearIf]⟩

/-! ## The items of a list

Each item has a marker of its own, and the text of a list is that of its items, one line end between
them. -/

/-- A list counts from a number: the one that it starts with, or one. -/
def CountsFrom (start : Value) (first : Int) : Prop :=
  start = .null ∧ first = 1 ∨ start.number? = some (.int first)

/-- What the item at an index of a list is led by. -/
def itemLead (o : RenderOptions) (ordered : Bool) (first : Int) (index : Nat) : String :=
  if ordered then toString (first + index) ++ "." else o.bullet.text

/-- What an item is led by is a marker. -/
theorem isMarker_itemLead (o : RenderOptions) (ordered : Bool) (first : Int) (index : Nat) :
    IsMarker (itemLead o ordered first index) := by
  cases ordered with
  | false => exact isMarker_bullet o
  | true => exact isMarker_number _

variable {ordered : Bool} {start : Value} {first : Int}

/-- The marker at an index counts from the start of the list. -/
theorem orderedMarker_eq (h : CountsFrom start first) (index : Nat) :
    orderedMarker start index = wholeMarker (first + index) := by
  obtain ⟨rfl, rfl⟩ | h := h
  · rw [Int.add_comm]
    rfl
  · cases start with
    | null => cases h
    | num n =>
      cases n with
      | int i =>
        obtain rfl : i = first := by simpa [Value.number?, Value.num?] using h
        rfl
      | float x => simp [Value.number?, Value.num?] at h
    | _ => simp [orderedMarker, h]

/-- A marker that can be written is the one that leads the item. -/
theorem listMarker_eq_ok {index : Nat} (hstart : ordered = true → CountsFrom start first)
    (h : listMarker o ordered start index = .ok marker) :
    marker = itemLead o ordered first index := by
  unfold listMarker at h
  cases ordered with
  | false => exact (Except.ok.inj h).symm
  | true =>
    rw [if_pos rfl, orderedMarker_eq (hstart rfl), wholeMarker] at h
    split at h
    · exact (Except.ok.inj h).symm
    · cases h

/-- The texts of items are made of their markers and of their blocks. -/
theorem forall₂_itemTexts (hstart : ordered = true → CountsFrom start first) {index : Nat}
    {items : List (List Node)} {texts : List String}
    (h : itemTexts o ordered start index (items.map .listItem) = .ok texts) :
    List.Forall₂ (fun item text => ∃ blocks, item.1.mapM (Renderer.textAlone o) = .ok blocks ∧
        text = itemText (itemLead o ordered first item.2) (joinBlocks blocks))
      (items.zipIdx index) texts := by
  induction items generalizing index texts with
  | nil =>
    obtain rfl := Except.ok.inj h
    exact .nil
  | cons item items ih =>
    rw [List.map_cons, itemTexts_cons] at h
    obtain ⟨text, htext, h⟩ := exists_of_bind h
    obtain ⟨marker, hmarker, htext⟩ := exists_of_bind htext
    obtain ⟨rest, hrest, h⟩ := exists_of_bind h
    obtain rfl := Except.ok.inj h
    rw [nodeText] at htext
    obtain ⟨blocks, hblocks, htext⟩ := exists_of_bind htext
    rw [← Renderer.mapM_textAlone] at hblocks
    obtain rfl := Except.ok.inj htext
    rw [listMarker_eq_ok hstart hmarker, List.zipIdx_cons]
    exact .cons ⟨blocks, hblocks, rfl⟩ (ih hrest)

/-- The items of a list can be rendered if each of their blocks has a text by itself. -/
theorem renderable_listItems_iff (o : RenderOptions) (items : List (List Node)) :
    (∀ m ∈ Node.preorders (items.map .listItem), Renderable m) ↔
      ∀ blocks ∈ items, ∀ block ∈ blocks, Succeeds (Renderer.textAlone o block) := by
  induction items with
  | nil => simp [Node.preorders]
  | cons blocks items ih =>
    rw [List.map_cons, Node.preorders, List.forall_mem_append, List.forall_mem_cons,
      ← succeeds_nodeText o o.bullet.text, nodeText, succeeds_map, ← Renderer.mapM_textAlone,
      succeeds_mapM, ih]

/-- A list has a text if its numbers and the blocks of its items have. -/
theorem succeeds_itemTexts_listItem (hstart : ordered = true → CountsFrom start first)
    (items : List (List Node)) :
    Succeeds (itemTexts o ordered start 0 (items.map .listItem)) ↔
      (ordered = true → ∀ index < items.length, Number.Writable (first + index)) ∧
        ∀ blocks ∈ items, ∀ block ∈ blocks, Succeeds (Renderer.textAlone o block) := by
  rw [succeeds_itemTexts, renderable_listItems_iff]
  refine and_congr_left fun _ => forall_congr' fun hordered => ?_
  simp only [orderedMarker_eq (hstart hordered), succeeds_wholeMarker, List.length_map,
    Nat.zero_add]

/-- **The text of a list is cut into its items again**, whatever the list is rendered within.  It
has a text exactly if each of its numbers can be written and each block of its items has a text by
itself.  Then a group of lines for each item begins with the bullet or with the number of the item,
and shows the blocks of the item, each as it is rendered by itself, with blank lines between
them. -/
theorem groups_of_list (o : RenderOptions) (marker : String) {ordered : Bool} {start : Value}
    {first : Int} (hstart : ordered = true → CountsFrom start first) (items : List (List Node)) :
    (Succeeds (nodeText o marker (.list ordered start (items.map .listItem))) ↔
      (ordered = true → ∀ index < items.length, Number.Writable (first + index)) ∧
        ∀ blocks ∈ items, ∀ block ∈ blocks, Succeeds (Renderer.textAlone o block)) ∧
    ∀ text, nodeText o marker (.list ordered start (items.map .listItem)) = .ok text →
      ∃ groups, cutBefore beginsItem (split '\n' text) =
          (if items.isEmpty then [""] else [], groups) ∧
        List.Forall₂ (fun item group => ∃ blocks, item.1.mapM (Renderer.textAlone o) = .ok blocks ∧
            ShowsItem (itemLead o ordered first item.2)
              ("\n\n".intercalate (blocks.filter (· ≠ ""))) group)
          items.zipIdx groups := by
  refine ⟨?_, fun text htext => ?_⟩
  · rw [nodeText, succeeds_map, succeeds_itemTexts_listItem hstart]
  · rw [nodeText] at htext
    obtain ⟨texts, htexts, htext⟩ := exists_of_bind htext
    obtain rfl := Except.ok.inj htext
    have hitems := forall₂_itemTexts hstart htexts
    refine ⟨texts.map (split '\n'), ?_, ?_⟩
    · cases items with
      | nil =>
        obtain rfl := List.forall₂_nil_left_iff.1 hitems
        rfl
      | cons item items =>
        have hne : texts ≠ [] := by
          rintro rfl
          cases hitems
        have hgroups : ∀ group ∈ texts.map (split '\n'), IsGroup beginsItem group := by
          refine List.forall_mem_map.2 fun text htext => ?_
          obtain ⟨index, hindex, rfl⟩ := List.mem_iff_getElem.1 htext
          obtain ⟨blocks, -, htext⟩ := hitems.get (hitems.length_eq ▸ hindex) hindex
          rw [List.get_eq_getElem, List.get_eq_getElem] at htext
          rw [htext]
          exact isGroup_itemText (isMarker_itemLead o ordered first _) _
        rw [split_join_eq_flatten rfl hne, cutBefore_flatten hgroups]
        rfl
    · rw [List.forall₂_map_right_iff]
      refine hitems.imp ?_
      rintro item text ⟨blocks, hblocks, rfl⟩
      rw [joinBlocks_eq]
      exact ⟨blocks, hblocks, showsItem_itemText (isMarker_itemLead o ordered first item.2) _⟩

/-- Two items: one holds a list of another kind, and the number of the other has a digit more. -/
def sampleItems : List (List Node) :=
  [[.paragraph [.text "a"], .list false .null [.listItem [.paragraph [.text "b"]]]],
    [.code "c" .null]]

theorem mapM_textAlone_sampleItems : sampleItems.map (·.mapM (Renderer.textAlone {})) =
    [.ok ["a", "- b"], .ok ["```\nc\n```"]] := by
  rfl

/-- The numbers of the two items can be written. -/
theorem writable_sampleItems : ∀ index < sampleItems.length, Number.Writable (9 + index) := by
  intro index hindex
  rw [Number.writable_iff_length]
  obtain rfl | rfl : index = 0 ∨ index = 1 := by
    simp only [sampleItems, List.length_cons, List.length_nil] at hindex
    omega
  all_goals decide

/-- The text of the two items, cut into its groups. -/
theorem groups_of_list_nested :
    CountsFrom (.int 9) 9 ∧ ∃ text first second,
      nodeText {} "" (.list true (.int 9) (sampleItems.map .listItem)) = .ok text ∧
      cutBefore beginsItem (split '\n' text) = ([], [first, second]) ∧
      ShowsItem "9." "a\n\n- b" first ∧ ShowsItem "10." "```\nc\n```" second := by
  have hstart : CountsFrom (.int 9) 9 := .inr rfl
  obtain ⟨hnested, hcode⟩ := List.cons.inj mapM_textAlone_sampleItems
  have hcode := List.singleton_inj.1 hcode
  have hblocks : ∀ blocks ∈ sampleItems, Succeeds (blocks.mapM (Renderer.textAlone {})) :=
    List.forall_mem_cons.2 ⟨⟨_, hnested⟩, List.forall_mem_singleton.2 ⟨_, hcode⟩⟩
  obtain ⟨htext, hgroups⟩ := groups_of_list {} "" (fun _ : true = true => hstart) sampleItems
  obtain ⟨text, h⟩ := htext.2
    ⟨fun _ => writable_sampleItems, fun blocks hmem => succeeds_mapM.1 (hblocks blocks hmem)⟩
  obtain ⟨groups, hcut, hitems⟩ := hgroups text h
  obtain ⟨first, later, ⟨_, hblocks₁, hfirst⟩, hlater, rfl⟩ := List.forall₂_cons_left_iff.1 hitems
  obtain ⟨second, rest, ⟨_, hblocks₂, hsecond⟩, hrest, rfl⟩ := List.forall₂_cons_left_iff.1 hlater
  obtain rfl := List.forall₂_nil_left_iff.1 hrest
  obtain rfl := Except.ok.inj (hnested.symm.trans hblocks₁)
  obtain rfl := Except.ok.inj (hcode.symm.trans hblocks₂)
  exact ⟨hstart, text, first, second, h, hcut, hfirst, hsecond⟩

end Mdx

end MdxPages
