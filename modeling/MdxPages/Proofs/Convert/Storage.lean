import MdxPages.Proofs.Convert.Imports

/-!
# Proofs/Convert/Storage — what is stored under the path of a fragment

An emitter that stores each fragment under its path keeps the last one that has the path
(`stored_tree_of_include`).  Nothing compares the contents of two includes of one path, so an
include may show the content of a later one.
-/

namespace MdxPages.Convert

open MdxPages.Source

variable {o : ConversionOptions} {f g : Draft}

/-- An emitter that stores each tree under its path, in the place of an earlier one. -/
def Emitter.storing : Emitter (Entries Node) := fun path tree kept =>
  ({}, kept.put path tree)

/-- Storing emissions one after the other is merging them. -/
theorem foldl_deliver_storing (kept : Entries Node) (emissions : List (String × Node)) :
    emissions.foldl (deliver (some Emitter.storing)) kept = kept.merge emissions := by
  induction emissions generalizing kept with
  | nil => rfl
  | cons emission emissions ih =>
    rw [List.foldl_cons, ih, Entries.merge_cons]
    rfl

/-- What is stored once a page has come out: its fragments under their paths. -/
theorem stored_eq_ofList {path : String} {root : Entries Value} {tree : Node}
    {s : Session (Entries Node)}
    (h : convertPage ⟨o, some .storing⟩ path root [] = (.ok tree, s)) :
    (Draft.page path root).Faultless o ∧
      s.emitter = Entries.ofList
        (((Draft.page path root).outline o).fragments.map (Draft.emission o)) := by
  obtain ⟨hpage, -, -, hemitter⟩ := faultless_of_convertPage h
  exact ⟨hpage, hemitter.trans (foldl_deliver_storing _ _)⟩

/-- **The last fragment of a path is the one that is stored.**  Once a page has come out, each
include that left a component in the page or in a fragment finds under its path the tree of the
last fragment that was emitted under that path: its own one, or one that was emitted later. -/
theorem stored_tree_of_include {path : String} {root : Entries Value} {tree : Node}
    {s : Session (Entries Node)}
    (h : convertPage ⟨o, some .storing⟩ path root [] = (.ok tree, s)) {v : Visit}
    (hf : f ∈ (Draft.page path root).files o) (hv : v ∈ f.visits o)
    (hm : v.mention? o = some (.inclusion g)) :
    (f.tree o).Uses (Path.fragmentComponent g.place.path o.fragmentExtension) ∧
      ∃ earlier last later,
        ((Draft.page path root).outline o).fragments = earlier ++ last :: later ∧
        g ∈ earlier ++ [last] ∧ last.place.path = g.place.path ∧
        (∀ k ∈ later, k.place.path ≠ g.place.path) ∧
        s.emitter.get? g.place.path = some (last.tree o) := by
  obtain ⟨hpage, hstored⟩ := stored_eq_ofList h
  have hg : g ∈ ((Draft.page path root).outline o).fragments :=
    Draft.mem_fragments_of_inclusion hf (Draft.mem_mentions_of_visit hv hm)
  refine ⟨Draft.uses_of_visit (hpage.of_mem_files hf) hv hm rfl, ?_⟩
  -- the last fragment of the path cannot come before `g`, which has the path itself
  have hpath : ∃ k ∈ ((Draft.page path root).outline o).fragments,
      k.place.path = g.place.path := ⟨g, hg, rfl⟩
  obtain ⟨earlier, last, later, hfragments, hlast, hlater⟩ := Entries.exists_last hpath
  refine ⟨earlier, last, later, hfragments, ?_, hlast, hlater, ?_⟩
  · rw [hfragments, List.append_cons] at hg
    exact (List.mem_append.1 hg).resolve_right fun hin => hlater g hin rfl
  · rw [hstored, hfragments, List.map_append, List.map_cons, Draft.emission, hlast]
    refine Entries.get?_ofList_of_last fun entry hentry => ?_
    obtain ⟨k, hk, rfl⟩ := List.mem_map.1 hentry
    exact hlater k hk

/-- A node of a type, with children. -/
def nodeValue (type : String) (children : List Value) : Value :=
  .obj [("type", .str type), ("children", .arr children)]

/-- A text of a document. -/
def textValue (text : String) : Value :=
  .obj [("type", .str "text"), ("value", .str text)]

/-- A page with two includes of one path and different contents. -/
def onePathRoot : Entries Value :=
  rootOf [directiveValue "include" "/a.rst" [textValue "x"],
    directiveValue "include" "/a.rst" [textValue "y"]]

/-- The include of a text in it. -/
def onePathVisit (text : String) : Visit :=
  ⟨⟨"index.mdx", []⟩, (directiveValue "include" "/a.rst" [textValue text]).fields,
    ofValues [textValue text]⟩

/-- The fragment of a text in it. -/
def onePathDraft (text : String) : Draft :=
  draftOf ⟨"index.mdx", []⟩ "a.mdx" (ofValues [textValue text])

/-- Neither include of the page meets a fault. -/
theorem onePath_faultless : (Draft.page "index.mdx" onePathRoot).Faultless {} := by rfl

/-- Both includes are visited. -/
theorem onePath_visits : (Draft.page "index.mdx" onePathRoot).visits {} =
    [onePathVisit "x", onePathVisit "y"] := by rfl

/-- Both are emitted, the one of `x` first. -/
theorem onePath_fragments : ((Draft.page "index.mdx" onePathRoot).outline {}).fragments =
    [onePathDraft "x", onePathDraft "y"] := by rfl

theorem onePath_mention :
    (onePathVisit "x").mention? {} = some (.inclusion (onePathDraft "x")) := by rfl

/-- The fragment of a text is a paragraph of it. -/
theorem onePath_tree (text : String) :
    (onePathDraft text).tree {} = .root [.paragraph [.text text]] := by rfl

/-- The first include of the page finds a tree under its path. -/
theorem stored_tree_of_include_onePath :
    ∃ tree s, convertPage ⟨{}, some .storing⟩ "index.mdx" onePathRoot [] = (.ok tree, s) ∧
      ∃ k ∈ [onePathDraft "x", onePathDraft "y"], s.emitter.get? "a.mdx" = some (k.tree {}) := by
  obtain ⟨s, hs, -⟩ := convertPage_of_faultless ⟨{}, some .storing⟩ onePath_faultless []
  have hvisit : onePathVisit "x" ∈ (Draft.page "index.mdx" onePathRoot).visits {} := by
    simp [onePath_visits]
  obtain ⟨-, earlier, last, later, hfragments, -, -, -, hlast⟩ := stored_tree_of_include hs
    (List.mem_append_right _ (List.mem_singleton_self _)) hvisit onePath_mention
  refine ⟨_, s, hs, last, ?_, hlast⟩
  rw [← onePath_fragments, hfragments]
  exact List.mem_append_right _ List.mem_cons_self

/-- **An include need not show its own content**: the first of two includes of one path shows the
content of the second. -/
theorem exists_include_of_other_content :
    ∃ tree s, convertPage ⟨{}, some .storing⟩ "index.mdx" onePathRoot [] = (.ok tree, s) ∧
      ∃ v ∈ (Draft.page "index.mdx" onePathRoot).visits {}, ∃ g,
        v.mention? {} = some (.inclusion g) ∧ tree.Uses "A" ∧ g.place.path = "a.mdx" ∧
        g.tree {} = .root [.paragraph [.text "x"]] ∧
        s.emitter.get? "a.mdx" = some (.root [.paragraph [.text "y"]]) := by
  obtain ⟨s, hs, -⟩ := convertPage_of_faultless ⟨{}, some .storing⟩ onePath_faultless []
  have hvisit : onePathVisit "x" ∈ (Draft.page "index.mdx" onePathRoot).visits {} := by
    simp [onePath_visits]
  have hstored : s.emitter =
      Entries.ofList
        [("a.mdx", (onePathDraft "x").tree {}), ("a.mdx", (onePathDraft "y").tree {})] := by
    rw [(stored_eq_ofList hs).2, onePath_fragments]
    rfl
  refine ⟨_, s, hs, _, hvisit, _, onePath_mention, ?_, rfl, onePath_tree "x", ?_⟩
  · exact Draft.uses_of_visit onePath_faultless hvisit onePath_mention (by rfl)
  · rw [hstored, Entries.get?_ofList, onePath_tree "x", onePath_tree "y"]
    rfl

end MdxPages.Convert
