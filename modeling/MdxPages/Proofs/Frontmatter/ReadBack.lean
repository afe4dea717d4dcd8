import Mathlib.Tactic.Choose
import MdxPages.Proofs.Frontmatter.Nodes
import MdxPages.Proofs.Yaml.Denotation

/-!
# Proofs/Frontmatter/ReadBack — metadata of texts, written and read back

A text that stands bare is read by its form.  One that has the form of a truth value, of a number,
of null or of a moment is therefore not read as a text, and a dash that stands alone starts a list;
all others are read as what they were (`texts_read_back`).
-/

namespace MdxPages.Frontmatter

open Yaml

variable {s key : String} {fuel level : Nat} {f : String × Datum} {fields : List (String × Datum)}

/-- Metadata is read from its text as what it was. -/
def ReadsBack (entries : Entries Value) : Prop :=
  (Yaml.read (text entries)).map Tree.toValue = .ok (.obj entries)

/-- What stands bare has the form of a text. -/
def HasTextForm (s : String) : Prop :=
  standsBare s = true → Tag.ofPlain s.toList = .text

/-- A text that is read as something else: one with a character that no document may hold, or one
that stands bare and means something else so. -/
def Misread (s : String) : Prop :=
  '\uFFFE' ∈ s.toList ∨ '\uFFFF' ∈ s.toList ∨
    standsBare s = true ∧ (s = "-" ∨ Tag.ofPlain s.toList ≠ .text)

/-! ## Values

The node of a text is a scalar with the tag that its form has.  It stands for the text if that is
the tag of texts. -/

/-- A text stands for itself if it has its form. -/
theorem exists_tree_scalarNode_iff (s : String) (level : Nat) (hfuel : fuel ≠ 0) :
    (∃ t, (scalarNode s).denote fuel level = .ok t ∧ t.toValue = .str s) ↔ HasTextForm s := by
  obtain ⟨fuel, rfl⟩ := Nat.exists_eq_succ_of_ne_zero hfuel
  constructor
  · rintro ⟨t, ht, hvalue⟩ hbare
    rw [scalarNode, if_pos hbare] at ht
    exact tag_of_denote ht hvalue
  · intro h
    have hnode : scalarNode s = .scalar .text s := by
      rw [scalarNode]
      split
      · next hbare => rw [h hbare]
      · rfl
    exact ⟨_, hnode ▸ denote_text, rfl⟩

/-- An item stands for its text if that has its form and is no dash. -/
theorem exists_tree_itemNode_iff (s : String) (level : Nat) (hfuel : fuel ≠ 0) :
    (∃ t, (itemNode s).denote fuel level = .ok t ∧ t.toValue = .str s) ↔
      s ≠ "-" ∧ HasTextForm s := by
  rw [itemNode]
  split
  · next hdash =>
    obtain ⟨fuel, rfl⟩ := Nat.exists_eq_succ_of_ne_zero hfuel
    refine iff_of_false ?_ fun h => h.1 hdash
    rintro ⟨t, ht, hvalue⟩
    rw [← List.map_id [Yaml.Node.empty], denote_list_iff] at ht
    obtain ⟨tree, -, rfl⟩ := ht
    cases hvalue
  · next hne => rw [exists_tree_scalarNode_iff s level hfuel, and_iff_right hne]

theorem height_pos_itemNode (s : String) : 1 ≤ (itemNode s).height := by
  rw [itemNode]
  split <;> exact Nat.succ_le_succ (Nat.zero_le _)

/-- **A datum stands for itself if its texts have their form**, and none is a dash. -/
theorem exists_tree_datum_iff {d : Datum} (hd : d ≠ .text "-") (level : Nat)
    (hfuel : d.node.height ≤ fuel) :
    (∃ t, d.node.denote fuel level = .ok t ∧ t.toValue = d.value) ↔
      ∀ s ∈ d.strings, s ≠ "-" ∧ HasTextForm s := by
  cases d with
  | text s =>
    have hfuel' : fuel ≠ 0 := Nat.ne_of_gt hfuel
    have hne : s ≠ "-" := fun heq => hd (congrArg Datum.text heq)
    simpa [Datum.strings, Datum.node, Datum.value, hne] using
      exists_tree_scalarNode_iff s level hfuel'
  | texts s more =>
    have hheight : (Datum.texts s more).node.height =
        max (itemNode s).height (Yaml.Node.heightOfItems (more.map itemNode)) + 1 := rfl
    have hpos := height_pos_itemNode s
    obtain ⟨fuel, rfl⟩ : ∃ k, fuel = k + 1 := ⟨fuel - 1, by omega⟩
    have hfuel' : fuel ≠ 0 := by omega
    have hitems (s : String) := exists_tree_itemNode_iff s (level + 1) hfuel'
    rw [Datum.strings, Datum.node, Datum.value]
    simp only [denote_list_iff, ← hitems]
    have hvalue (tree : String → Tree) : (Tree.list ((s :: more).map tree)).toValue =
        .arr (.str s :: more.map .str) ↔ ∀ s' ∈ s :: more, (tree s').toValue = .str s' := by
      rw [Tree.toValue, toValues_eq_map, List.map_map, ← List.map_cons, Value.arr.injEq,
        List.map_inj_left]
      rfl
    constructor
    · rintro ⟨_, ⟨tree, htree, rfl⟩, hlist⟩ s' hs'
      exact ⟨_, htree s' hs', (hvalue tree).1 hlist s' hs'⟩
    · intro h
      choose! tree htree using h
      exact ⟨_, ⟨tree, fun s' hs' => (htree s' hs').1, rfl⟩,
        (hvalue tree).2 fun s' hs' => (htree s' hs').2⟩

/-- No field is higher than the table. -/
theorem height_le_heightOfPairs (hf : f ∈ fields) :
    f.2.node.height ≤ Yaml.Node.heightOfPairs (fields.map fieldNode) := by
  induction fields with
  | nil => cases hf
  | cons g fields ih =>
    rw [List.map_cons, fieldNode, Yaml.Node.heightOfPairs]
    obtain rfl | hf := List.mem_cons.1 hf
    · omega
    · have hrest := ih hf
      omega

/-- **Metadata stands for itself if its texts have their form**, and none is a dash. -/
theorem toTree_fields_iff (hnodup : (fields.map Prod.fst).Nodup)
    (hfields : ∀ f ∈ fields, f.2 ≠ .text "-") :
    (Yaml.Node.table .table (fields.map fieldNode)).toTree.map Tree.toValue =
        .ok (.obj (valuesOf fields)) ↔
      ∀ f ∈ fields, ∀ s ∈ f.2.strings, s ≠ "-" ∧ HasTextForm s := by
  have hpairs : fields.map fieldNode = textPairs fields Datum.node := rfl
  have htoTree {t : Tree} : (Yaml.Node.table .table (fields.map fieldNode)).toTree = .ok t ↔
      (Yaml.Node.table .table (textPairs fields Datum.node)).denote
        (Yaml.Node.heightOfPairs (fields.map fieldNode) + 1) 0 = .ok t := by
    rw [Yaml.Node.toTree, Yaml.Node.height, hpairs, mapError_eq_ok_iff]
  have hdatum (f : String × Datum) (hf : f ∈ fields) :=
    exists_tree_datum_iff (hfields f hf) 1 (height_le_heightOfPairs hf)
  have hvalue (tree : String × Datum → Tree) :
      (Tree.ofPairs (fields.map fun f => (⟨.str f.1⟩, tree f))).toValue = .obj (valuesOf fields) ↔
        ∀ f ∈ fields, (tree f).toValue = f.2.value := by
    have htable := toValue_ofPairs (fields.map fun f => (f.1, tree f)) (by rwa [List.map_map])
    rw [List.map_map] at htable
    rw [show (fields.map fun f => (Key.mk (.str f.1), tree f)) = fields.map
      ((fun f => (Key.mk (.str f.1), f.2)) ∘ fun f => (f.1, tree f)) from rfl, htable, List.map_map,
      valuesOf, Value.obj.injEq, List.map_inj_left]
    simp
  rw [map_eq_ok_iff]
  simp only [htoTree, denote_table_iff]
  constructor
  · rintro ⟨_, ⟨tree, htree, rfl⟩, hobj⟩ f hf
    exact (hdatum f hf).1 ⟨_, htree f hf, (hvalue tree).1 hobj f hf⟩
  · intro h
    choose! tree htree using fun f hf => (hdatum f hf).2 (h f hf)
    exact ⟨_, ⟨tree, fun f hf => (htree f hf).1, rfl⟩,
      (hvalue tree).2 fun f hf => (htree f hf).2⟩

/-! ## Characters

What is not allowed in a document cannot be read at all, and the whole text is refused for it. -/

/-- All but two characters that are neither control characters nor line separators are allowed. -/
theorem isAllowed_iff_of_isInk {c : Char} (h : isInk c = true) :
    isAllowed c = true ↔ c ≠ '\uFFFE' ∧ c ≠ '\uFFFF' := by
  have hne (d : Char) : c ≠ d ↔ c.toNat ≠ d.toNat := not_congr Char.toNat_inj.symm
  have hlast : ('\uFFFE'.toNat = 0xFFFE) ∧ ('\uFFFF'.toNat = 0xFFFF) := ⟨rfl, rfl⟩
  rw [hne, hne, hlast.1, hlast.2]
  simp only [isInk, Bool.and_eq_true, decide_eq_true_eq, Bool.not_eq_true', Bool.and_eq_false_iff,
    decide_eq_false_iff_not, bne_iff_ne] at h
  simp only [isAllowed, Bool.or_eq_true, Bool.and_eq_true, decide_eq_true_eq, beq_iff_eq]
  omega

/-- Plain characters may stand in a document. -/
theorem isAllowed_of_isPlain {c : Char} (h : isPlain c = true) : isAllowed c = true :=
  of_isPlain (P := fun c => isAllowed c = true) (by decide) h

/-- What is written for a text is allowed if its characters are. -/
theorem forall_mem_scalarText_iff (hs : ∀ c ∈ s.toList, isInk c = true) :
    (∀ c ∈ (scalarText s).toList, isAllowed c = true) ↔ ∀ c ∈ s.toList, isAllowed c = true := by
  have hchar (c : Char) (hc : c ∈ s.toList) :
      (∀ d ∈ Json.charText false c, isAllowed d = true) ↔ isAllowed c = true := by
    rw [charText_of_isInk (hs c hc)]
    split
    · next h =>
      obtain rfl | rfl := h
      all_goals exact iff_of_true (List.all_eq_true.1 rfl) rfl
    · simp
  rw [scalarText]
  split
  · have hquote : isAllowed '"' = true := rfl
    rw [Json.quote, String.toList_ofList, Json.stringText]
    simp only [List.cons_append, List.forall_mem_cons, List.forall_mem_append, List.mem_flatMap,
      hquote, true_and, List.not_mem_nil, false_implies, implies_true, and_true]
    constructor
    · exact fun h c hc => (hchar c hc).1 fun d hd => h d ⟨c, hc, hd⟩
    · rintro h d ⟨c, hc, hd⟩
      exact (hchar c hc).2 (h c hc) d hd
  · rfl

/-- A line end and the blanks behind it are allowed. -/
theorem forall_mem_newLine_iff (w : Nat) (next : List Char) :
    (∀ c ∈ newLine w next, isAllowed c = true) ↔ ∀ c ∈ next, isAllowed c = true := by
  have hblanks : ∀ c ∈ List.replicate w ' ', isAllowed c = true := fun c hc =>
    List.eq_of_mem_replicate hc ▸ rfl
  rw [newLine, List.forall_mem_cons, List.forall_mem_append]
  exact ⟨fun h => h.2.2, fun h => ⟨rfl, hblanks, h⟩⟩

/-- What is written for a field is allowed if the characters of its texts are. -/
theorem forall_mem_fieldChars_iff (hkey : IsKey f.1)
    (hs : ∀ s ∈ f.2.strings, ∀ c ∈ s.toList, isInk c = true) :
    (∀ c ∈ fieldChars f, isAllowed c = true) ↔
      ∀ s ∈ f.2.strings, ∀ c ∈ s.toList, isAllowed c = true := by
  obtain ⟨name, d⟩ := f
  have hname : ∀ c ∈ name.toList, isAllowed c = true := fun c hc =>
    isAllowed_of_isPlain (hkey.2 c hc)
  have hmarks : isAllowed ':' = true ∧ isAllowed ' ' = true ∧ isAllowed '-' = true :=
    ⟨rfl, rfl, rfl⟩
  have hdatum : (∀ c ∈ d.chars, isAllowed c = true) ↔
      ∀ s ∈ d.strings, ∀ c ∈ s.toList, isAllowed c = true := by
    cases d with
    | text s =>
      have htext := forall_mem_scalarText_iff (hs s List.mem_cons_self)
      simp [Datum.chars, Datum.strings, hmarks.2.1, htext]
    | texts s more =>
      have hitem (s' : String) (hs' : s' ∈ s :: more) :
          (∀ c ∈ newLine 2 ('-' :: ' ' :: (scalarText s').toList), isAllowed c = true) ↔
            ∀ c ∈ s'.toList, isAllowed c = true := by
        rw [forall_mem_newLine_iff, List.forall_mem_cons, List.forall_mem_cons,
          forall_mem_scalarText_iff (hs s' hs')]
        simp [hmarks]
      simp only [Datum.chars, Datum.strings, List.mem_flatMap]
      constructor
      · exact fun h s' hs' => (hitem s' hs').1 fun c hc => h c ⟨s', hs', hc⟩
      · rintro h c ⟨s', hs', hc⟩
        exact (hitem s' hs').2 (h s' hs') c hc
  rw [fieldChars, List.forall_mem_append, List.forall_mem_cons, hdatum]
  exact ⟨fun h => h.2.2, fun h => ⟨hname, hmarks.1, h⟩⟩

/-- **A text of metadata is a document** if the characters of its texts are allowed. -/
theorem all_isAllowed_text_iff (hkeys : ∀ g ∈ f :: fields, IsKey g.1)
    (hs : ∀ g ∈ f :: fields, ∀ s ∈ g.2.strings, ∀ c ∈ s.toList, isInk c = true) :
    (text (valuesOf (f :: fields))).toList.all isAllowed = true ↔
      ∀ g ∈ f :: fields, ∀ s ∈ g.2.strings, ∀ c ∈ s.toList, isAllowed c = true := by
  have hfield (g : String × Datum) (hg : g ∈ f :: fields) :=
    forall_mem_fieldChars_iff (hkeys g hg) (hs g hg)
  rw [List.all_eq_true, toList_text, fieldsChars, List.forall_mem_append,
    hfield f List.mem_cons_self, List.forall_mem_cons]
  refine and_congr_right fun _ => ?_
  simp only [linesChars, List.mem_flatMap]
  constructor
  · exact fun h g hg => (hfield g (List.mem_cons_of_mem _ hg)).1 <| (forall_mem_newLine_iff 0 _).1
      fun c hc => h c ⟨g, hg, hc⟩
  · rintro h c ⟨g, hg, hc⟩
    exact (forall_mem_newLine_iff 0 _).2
      ((hfield g (List.mem_cons_of_mem _ hg)).2 (h g hg)) c hc

/-! ## Reading back

Reading is done in steps: characters, tokens, nodes, values.  Each of them is known for metadata of
texts, so they are put together here. -/

/-- The text of metadata starts with a key, and so with no byte order mark. -/
theorem dropOrderMark_text (hkey : IsKey f.1) :
    dropOrderMark (text (valuesOf (f :: fields))).toList =
      (text (valuesOf (f :: fields))).toList := by
  obtain ⟨c, cs, hcs⟩ := List.exists_cons_of_ne_nil (show f.1.toList ≠ [] by simpa using hkey.1)
  have hc := (ordinary_of_isPlain (hkey.2 c (by simp [hcs]))).orderMark
  rw [toList_text, fieldsChars, fieldChars, hcs, List.cons_append, List.cons_append, dropOrderMark,
    if_neg hc]

/-- **Reading metadata with tokens**: it is read back if its characters are allowed, and its texts
stand for themselves. -/
theorem readsBack_iff_of_tokened (hkeys : ∀ g ∈ f :: fields, ReadsAsKey g.1)
    (hnodup : ((f :: fields).map Prod.fst).Nodup) (hd : ∀ g ∈ f :: fields, g.2.Tokened) :
    ReadsBack (valuesOf (f :: fields)) ↔
      (∀ g ∈ f :: fields, ∀ s ∈ g.2.strings, ∀ c ∈ s.toList, isAllowed c = true) ∧
        ∀ g ∈ f :: fields, ∀ s ∈ g.2.strings, s ≠ "-" ∧ HasTextForm s := by
  have hkeys' : ∀ g ∈ f :: fields, IsKey g.1 := fun g hg => (hkeys g hg).isKey
  rw [← all_isAllowed_text_iff hkeys' fun g hg => (hd g hg).ink,
    ← toTree_fields_iff hnodup fun g hg => (hd g hg).ne_dash, ReadsBack, Yaml.read,
    dropOrderMark_text (hkeys' f List.mem_cons_self), toList_text, scan_fields hkeys hd,
    ofTokens?_fields _ hkeys]
  split
  · next hall => exact (and_iff_right hall).symm
  · next hall => simp [hall, Except.map]

/-- **A dash behind a key makes metadata unreadable.** -/
theorem not_readsBack_of_dash (hkeys : ∀ g ∈ f :: fields, ReadsAsKey g.1)
    (hink : ∀ g ∈ f :: fields, ∀ s ∈ g.2.strings, ∀ c ∈ s.toList, isInk c = true)
    (hdash : ∃ g ∈ f :: fields, g.2 = .text "-") : ¬ ReadsBack (valuesOf (f :: fields)) := by
  obtain ⟨⟨key, d⟩, hfind⟩ : ∃ g, (f :: fields).find? (·.2 = .text "-") = some g := by
    rw [← Option.isSome_iff_exists, List.find?_isSome]
    simpa using hdash
  obtain ⟨heq, before, after, hsplit, hbefore⟩ := List.find?_eq_some_iff_append.1 hfind
  obtain rfl : d = .text "-" := by simpa using heq
  have hmem {g} (hg : g ∈ before) : g ∈ f :: fields := hsplit ▸ List.mem_append_left _ hg
  have hscan := scan_dash hsplit hkeys fun g hg => ⟨hink g (hmem hg), by simpa using hbefore g hg⟩
  rw [ReadsBack, Yaml.read, dropOrderMark_text (hkeys f List.mem_cons_self).isKey, toList_text,
    hscan, ofTokens?_broken before fun g hg => hkeys g (hmem hg)]
  split <;> rintro ⟨⟩

/-! ## Which texts are read back

Whether a text is misread depends on its characters alone, and `Misread` says how. -/

/-- A text is not misread if it is no dash, is allowed and has the form of a text. -/
theorem not_misread_iff (hs : ∀ c ∈ s.toList, isInk c = true) :
    ¬ Misread s ↔ s ≠ "-" ∧ (∀ c ∈ s.toList, isAllowed c = true) ∧ HasTextForm s := by
  have hallowed : (∀ c ∈ s.toList, isAllowed c = true) ↔
      '\uFFFE' ∉ s.toList ∧ '\uFFFF' ∉ s.toList := by
    constructor
    · exact fun h => ⟨fun hc => absurd (h _ hc) (by decide), fun hc => absurd (h _ hc) (by decide)⟩
    · rintro ⟨hfst, hsnd⟩ c hc
      exact (isAllowed_iff_of_isInk (hs c hc)).2
        ⟨fun heq => hfst (heq ▸ hc), fun heq => hsnd (heq ▸ hc)⟩
  have hdash : standsBare "-" = true := rfl
  rw [Misread, hallowed, HasTextForm]
  constructor
  · intro h
    simp only [not_or, not_and, not_not] at h
    exact ⟨fun heq => (h.2.2 (heq ▸ hdash)).1 heq, ⟨h.1, h.2.1⟩, fun hbare => (h.2.2 hbare).2⟩
  · rintro ⟨hne, ⟨hfst, hsnd⟩, hform⟩ (h | h | ⟨hbare, h | h⟩)
    · exact hfst h
    · exact hsnd h
    · exact hne h
    · exact h (hform hbare)

/-- A text that is misread: the word of a truth value stands bare and is read as one. -/
theorem read_trueText : (Yaml.read (text [("draft", .str "true")])).map Tree.toValue =
    .ok (.obj [("draft", .bool true)]) := by
  have hkey : ∀ f ∈ [("draft", Datum.text "true")], ReadsAsKey f.1 := by
    simp only [List.mem_singleton, forall_eq]
    exact ⟨⟨by decide, List.all_eq_true.1 rfl⟩, by decide, by decide +kernel⟩
  have htokened : ∀ f ∈ [("draft", Datum.text "true")], f.2.Tokened := by
    rw [List.forall_mem_singleton]
    refine ⟨?_, by decide⟩
    rw [Datum.strings, List.forall_mem_singleton]
    exact List.all_eq_true.1 rfl
  have hform : Tag.ofPlain "true".toList = .bool := by decide +kernel
  have hnode : [("draft", Datum.text "true")].map fieldNode =
      [(.scalar .text "draft", .scalar .bool "true")] := by
    simp only [List.map_cons, List.map_nil, fieldNode, Datum.node, scalarNode, hform]
    rfl
  have hallowed : (text (valuesOf [("draft", .text "true")])).toList.all isAllowed = true := by
    rw [toList_text]
    decide
  change (Yaml.read (text (valuesOf [("draft", .text "true")]))).map _ = _
  rw [Yaml.read, if_pos hallowed, dropOrderMark_text (hkey _ List.mem_cons_self).isKey, toList_text,
    scan_fields hkey htokened, ofTokens?_fields _ hkey, hnode]
  rfl

/-- **Which metadata is read back as what it was**: texts and lists of texts are, exactly if none of
the texts is misread. -/
theorem texts_read_back (fields : List (String × Datum)) (hne : fields ≠ [])
    (hnodup : (fields.map Prod.fst).Nodup)
    (hfields : ∀ f ∈ fields, ReadsAsKey f.1 ∧ ∀ s ∈ f.2.strings, ∀ c ∈ s.toList, isInk c = true) :
    ReadsBack (valuesOf fields) ↔ ∀ f ∈ fields, ∀ s ∈ f.2.strings, ¬ Misread s := by
  obtain ⟨f, fields, rfl⟩ := List.exists_cons_of_ne_nil hne
  have hkeys : ∀ g ∈ f :: fields, ReadsAsKey g.1 := fun g hg => (hfields g hg).1
  have hink : ∀ g ∈ f :: fields, ∀ s ∈ g.2.strings, ∀ c ∈ s.toList, isInk c = true :=
    fun g hg => (hfields g hg).2
  by_cases hdash : ∃ g ∈ f :: fields, g.2 = .text "-"
  · refine iff_of_false (not_readsBack_of_dash hkeys hink hdash) fun h => ?_
    obtain ⟨g, hg, hd⟩ := hdash
    exact h g hg "-" (by simp [hd, Datum.strings]) (.inr (.inr ⟨rfl, .inl rfl⟩))
  · have htokened : ∀ g ∈ f :: fields, g.2.Tokened := fun g hg =>
      ⟨hink g hg, fun heq => hdash ⟨g, hg, heq⟩⟩
    rw [readsBack_iff_of_tokened hkeys hnodup htokened]
    constructor
    · rintro ⟨hallowed, hform⟩ g hg s hs
      obtain ⟨hne, hform⟩ := hform g hg s hs
      exact (not_misread_iff (hink g hg s hs)).2 ⟨hne, hallowed g hg s hs, hform⟩
    · intro h
      have hread {g} (hg : g ∈ f :: fields) {s} (hs : s ∈ g.2.strings) :=
        (not_misread_iff (hink g hg s hs)).1 (h g hg s hs)
      exact ⟨fun g hg s hs => (hread hg hs).2.1,
        fun g hg s hs => ⟨(hread hg hs).1, (hread hg hs).2.2⟩⟩

/-- The metadata of a page that is read back, and of one where a version looks like a number. -/
theorem texts_read_back_page :
    ReadsBack [("title", .str "Quick start: 1.0"), ("tags", .arr [.str "go", .str "1.0-beta"])] ∧
      ¬ ReadsBack [("title", .str "Quick start: 1.0"), ("tags", .arr [.str "go", .str "1.0"])] := by
  have hkey : ReadsAsKey "title" ∧ ReadsAsKey "tags" := by
    refine ⟨⟨⟨?_, List.all_eq_true.1 rfl⟩, ?_, ?_⟩, ⟨⟨?_, List.all_eq_true.1 rfl⟩, ?_, ?_⟩⟩ <;>
      decide +kernel
  have hread (version : String) (hink : ∀ c ∈ version.toList, isInk c = true) :
      ReadsBack (valuesOf [("title", .text "Quick start: 1.0"), ("tags", .texts "go" [version])]) ↔
        ¬ Misread version := by
    rw [texts_read_back [("title", .text "Quick start: 1.0"), ("tags", .texts "go" [version])]
      (by simp) (by simp) (by
        simp only [List.forall_mem_cons, List.not_mem_nil, false_implies, implies_true, and_true,
          Datum.strings, hkey.1, hkey.2, true_and]
        exact ⟨List.all_eq_true.1 rfl, List.all_eq_true.1 rfl, hink⟩)]
    have htitle : ¬ Misread "Quick start: 1.0" := by
      rw [Misread]
      decide +kernel
    have hgo : ¬ Misread "go" := by
      rw [Misread]
      decide +kernel
    simp [Datum.strings, htitle, hgo]
  refine ⟨(hread "1.0-beta" (List.all_eq_true.1 rfl)).2 ?_, fun h =>
    (hread "1.0" (List.all_eq_true.1 rfl)).1 h (.inr (.inr (by decide +kernel)))⟩
  rw [Misread]
  decide +kernel

end MdxPages.Frontmatter
