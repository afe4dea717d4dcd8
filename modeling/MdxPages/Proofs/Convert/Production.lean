import MdxPages.Proofs.Convert.Closure
import MdxPages.Proofs.Convert.Pass
import MdxPages.Proofs.Entries

/-!
# Proofs/Convert/Production — what a page comes out as

A page whose visits meet no fault comes out as the tree of its draft, and its fragments are emitted
as the trees of theirs (`convertPage_of_faultless`); otherwise its conversion stops at the first
fault (`convertPage_of_fault`).  The imports of a file are those of its own mentions, a later one
of a name in the place of an earlier one (`Draft.imports_eq`), and its tree refers to all of them.
-/

namespace MdxPages

/-! ## Import paths are never empty

An import without a path would not be registered.  Those that a page asks for always have one. -/

namespace Path

/-- A relative path starts with a point. -/
theorem dotted_ne_empty (path : String) : dotted path ≠ "" := by
  unfold dotted
  split
  · rintro rfl
    contradiction
  · simp

/-- A fragment is imported from some path. -/
theorem fragmentImport_ne_empty (importer fragment : String) :
    fragmentImport importer fragment ≠ "" :=
  dotted_ne_empty _

/-- An image is imported from some path. -/
theorem imageImport_ne_empty (importer target : String) : imageImport importer target ≠ "" := by
  simp only [imageImport]
  split <;> simp

end Path

namespace Convert

open MdxPages.Source

variable {o : ConversionOptions} {place : Place} {d f : Draft}

/-! ## Drafts without faults

If no visit meets a fault, the account of a draft is known in full, and every run performs it. -/

/-- The conversion of a draft follows its outline. -/
theorem Draft.follows (o : ConversionOptions) (d : Draft) :
    Follows o d.place (fun _ run => convertAll run d.place 1 d.content) id (d.outline o) :=
  convertAll_follows o d.place 1 d.content

/-- No visit of the draft meets a fault. -/
def Draft.Faultless (o : ConversionOptions) (d : Draft) : Prop :=
  (d.outline o).faults o = []

/-- The files of a draft without faults have none. -/
theorem Draft.Faultless.of_mem_files (h : d.Faultless o) (hf : f ∈ d.files o) : f.Faultless o := by
  refine List.filterMap_eq_nil_iff.2 fun v hv => ?_
  exact List.filterMap_eq_nil_iff.1 h v (visits_subset_of_mem_files hf hv)

/-- What the conversion of a draft does if it meets no fault. -/
def Draft.account (o : ConversionOptions) (d : Draft) : Account (List Node) :=
  ⟨.ok (d.nodes o), (d.outline o).mentions, (d.outline o).fragments.map (emission o)⟩

namespace Draft.Faultless

/-- Any account that tells of the outline is that of the draft. -/
theorem tells (h : d.Faultless o) {a : Account (List Node)} (ha : a.Tells o id (d.outline o))
    (hperf : Performs (⟨o, none⟩ : Run Unit) d.place (convertAll ⟨o, none⟩ d.place 1 d.content) a) :
    a = d.account o ∧ ((d.outline o).names o).Sublist (Node.references (d.nodes o)) := by
  cases ha with
  | stopped f answer first =>
    rw [h] at first
    cases first
  | completed ns answer faults mentions emissions references =>
    have hnodes : d.nodes o = ns := by
      rw [nodes, outcome, (hperf ⟨{}, (), []⟩).1, answer]
    obtain ⟨_, _, _⟩ := a
    subst hnodes answer mentions emissions
    exact ⟨rfl, references⟩

/-- Every run does the same. -/
theorem performs (h : d.Faultless o) {σ : Type} (run : Run σ) (hrun : run.options = o) :
    Performs run d.place (convertAll run d.place 1 d.content) (d.account o) := by
  obtain ⟨a, ha, hperf⟩ := d.follows o
  exact (h.tells ha (hperf Unit ⟨o, none⟩ rfl)).1 ▸ hperf σ run hrun

/-- Every name that is mentioned is referred to, in the order of the mentions. -/
theorem names_sublist_nodes (h : d.Faultless o) :
    ((d.outline o).names o).Sublist (Node.references (d.nodes o)) := by
  obtain ⟨a, ha, hperf⟩ := d.follows o
  exact (h.tells ha (hperf Unit ⟨o, none⟩ rfl)).2

/-- The state of the file is what its mentions leave, noted one after the other. -/
theorem state_eq (h : d.Faultless o) :
    d.state o = (d.outline o).mentions.foldl (FileState.note o d.place) {} :=
  (h.performs ⟨o, none⟩ rfl ⟨{}, (), []⟩).2.1

/-- The conversion of a file ends with the nodes and the state of its draft, and emits its
fragments. -/
theorem convertAll_eq (h : d.Faultless o) {σ : Type} (run : Run σ) (hrun : run.options = o)
    {s : Session σ} (hs : s.file = {}) :
    ∃ s', convertAll run d.place 1 d.content s = (.ok (d.nodes o), s') ∧
      s'.file = d.state o ∧
      s'.emitter =
        ((d.outline o).fragments.map (emission o)).foldl (deliver run.emitter) s.emitter := by
  subst hrun
  obtain ⟨hanswer, hfile, hemitter⟩ := h.performs run rfl s
  rw [hs] at hfile
  exact ⟨(convertAll run d.place 1 d.content s).2, Prod.ext hanswer rfl,
    hfile.trans h.state_eq.symm, hemitter⟩

end Draft.Faultless

namespace Draft

/-- A draft is without faults if its outline has no first one. -/
theorem faultless_of_no_fault (h : ∀ fault, ((d.outline o).faults o).head? ≠ some fault) :
    d.Faultless o :=
  List.head?_eq_none_iff.1 (Option.eq_none_iff_forall_ne_some.2 h)

/-- A conversion stops at the first fault that a visit meets. -/
theorem convertAll_of_fault {σ : Type} (d : Draft) (run : Run σ) {fault : Fault}
    (h : ((d.outline run.options).faults run.options).head? = some fault) (s : Session σ) :
    (convertAll run d.place 1 d.content s).1 = .error fault := by
  obtain ⟨a, ha, hperf⟩ := d.follows run.options
  cases ha with
  | completed _ _ faults =>
    rw [faults] at h
    cases h
  | stopped f answer first =>
    obtain rfl := Option.some.inj (first.symm.trans h)
    rw [← answer]
    exact (hperf σ run rfl s).1

/-- **A conversion that ends well** met no fault, and its nodes and its state are those of the
draft. -/
theorem faultless_of_convertAll {σ : Type} {run : Run σ} {s s' : Session σ} {ns : List Node}
    (hs : s.file = {}) (h : convertAll run d.place 1 d.content s = (.ok ns, s')) :
    d.Faultless run.options ∧ ns = d.nodes run.options ∧ s'.file = d.state run.options := by
  have hd : d.Faultless run.options := by
    refine faultless_of_no_fault fun fault hfault => ?_
    have hstopped := d.convertAll_of_fault run hfault s
    rw [h] at hstopped
    cases hstopped
  obtain ⟨t, ht, hfile, -⟩ := hd.convertAll_eq run rfl hs
  obtain ⟨hns, rfl⟩ := Prod.mk.inj (h.symm.trans ht)
  exact ⟨hd, Except.ok.inj hns, hfile⟩

end Draft

/-! ## Imports

The imports are read off the mentions alone, so the order of the nodes decides which of two wins. -/

/-- The import that a mention asks for: a name, and the path that it is to stand for. -/
def Mention.import? (o : ConversionOptions) (place : Place) : Mention → Option (String × String)
  | metadata _ => none
  | figure target =>
    some (Path.imageIdentifier target, Path.imageImport (importerOf o place) target)
  | inclusion fragment =>
    some (Path.fragmentComponent fragment.place.path o.fragmentExtension,
      Path.fragmentImport (importerOf o place) fragment.place.path)

/-- A mention uses the name that it imports. -/
theorem Mention.name?_eq (o : ConversionOptions) (place : Place) (m : Mention) :
    m.name? o = (m.import? o place).map Prod.fst := by
  cases m <;> rfl

theorem Mention.name?_of_import? {m : Mention} {entry : String × String}
    (h : m.import? o place = some entry) : m.name? o = some entry.1 := by
  rw [m.name?_eq o place, h, Option.map_some]

namespace Draft

/-- The imports that the mentions of a draft ask for, in order; an empty name imports nothing. -/
def registrations (o : ConversionOptions) (d : Draft) : List (String × String) :=
  ((d.outline o).mentions.filterMap (Mention.import? o d.place)).filter fun entry =>
    !entry.1.isEmpty

/-- The imports of a file when its conversion ends. -/
def imports (o : ConversionOptions) (d : Draft) : Entries String :=
  (d.state o).imports

end Draft

/-- An import with a path is added to those of the file, unless its name is empty. -/
theorem FileState.imports_importing {name path : String} (file : FileState) (h : path ≠ "") :
    (file.importing name path).imports =
      file.imports.merge ([(name, path)].filter fun entry => !entry.1.isEmpty) := by
  have hpath : path.isEmpty = false := String.isEmpty_eq_false_iff.2 h
  cases hname : name.isEmpty <;> simp [FileState.importing, hpath, hname, Entries.merge]

theorem FileState.imports_note (file : FileState) (m : Mention) :
    (file.note o place m).imports =
      file.imports.merge ((m.import? o place).toList.filter fun entry => !entry.1.isEmpty) := by
  cases m with
  | metadata fields => rfl
  | figure target => exact imports_importing file (Path.imageImport_ne_empty _ _)
  | inclusion fragment => exact imports_importing file (Path.fragmentImport_ne_empty _ _)

/-- Mentions add their imports one after the other, a later one over an earlier one. -/
theorem FileState.imports_foldl_note (file : FileState) (ms : List Mention) :
    (ms.foldl (FileState.note o place) file).imports =
      file.imports.merge ((ms.filterMap (Mention.import? o place)).filter fun entry =>
        !entry.1.isEmpty) := by
  induction ms generalizing file with
  | nil => rfl
  | cons m ms ih =>
    rw [List.foldl_cons, ih, imports_note, ← Entries.merge_append, ← List.filter_append,
      List.filterMap_cons]
    cases m.import? o place <;> rfl

/-- **The imports of a file are those that its own mentions ask for**: nothing that a fragment
imports is among them, and a later import of a name takes the place of an earlier one. -/
theorem Draft.imports_eq (h : d.Faultless o) :
    d.imports o = Entries.ofList (d.registrations o) := by
  rw [imports, h.state_eq, FileState.imports_foldl_note]
  rfl

/-! ## Trees

Of the tree of a file only the content refers to names, and wrapping its inline runs loses none. -/

/-- The frontmatter refers to nothing. -/
theorem references_frontmatterBlock (options metadata : Entries Value) :
    Node.references (frontmatterBlock options metadata) = [] := by
  simp only [frontmatterBlock]
  split <;> rfl

/-- The imports themselves refer to nothing. -/
theorem references_importBlock (imports : Entries String) :
    Node.references (importBlock imports) = [] := by
  simp only [importBlock]
  split <;> rfl

/-- Only the content of a file refers to anything. -/
theorem references_assemble (options : Entries Value) (file : FileState) (content : List Node) :
    Node.references (assemble options file content).children = Node.references content := by
  rw [assemble, Node.children, Node.references_wrapInlineRuns, Node.references_append,
    Node.references_append, references_frontmatterBlock, references_importBlock]
  rfl

/-- The imports of a file are written at its top level. -/
theorem importBlock_subset_assemble (options : Entries Value) (file : FileState)
    (content : List Node) :
    importBlock file.imports ⊆ (assemble options file content).children := by
  intro n hn
  rw [assemble, Node.children]
  have hblock : n ∈ frontmatterBlock options file.metadata ++ importBlock file.imports ++ content :=
    List.mem_append_left _ (List.mem_append_right _ hn)
  simp only [importBlock] at hn
  split at hn
  · cases hn
  · obtain rfl := List.mem_singleton.1 hn
    exact Node.mem_wrapInlineRuns hblock rfl rfl

/-- **Every name that is mentioned in a file is used in its tree.** -/
theorem Draft.uses_of_mention (h : d.Faultless o) {m : Mention} {name : String}
    (hm : m ∈ (d.outline o).mentions) (hname : m.name? o = some name) : (d.tree o).Uses name := by
  refine Node.uses_of_mem_references ?_
  rw [tree, references_assemble]
  exact h.names_sublist_nodes.subset (List.mem_filterMap.2 ⟨m, hm, hname⟩)

/-- What a node of a file mentions is used in the tree of the file. -/
theorem Draft.uses_of_visit (h : d.Faultless o) {v : Visit} {m : Mention} {name path : String}
    (hv : v ∈ d.visits o) (hm : v.mention? o = some m)
    (himport : m.import? o d.place = some (name, path)) : (d.tree o).Uses name :=
  uses_of_mention h (mem_mentions_of_visit hv hm) (Mention.name?_of_import? himport)

/-! ## Pages

Every run does what the account says.  So the answer, the emissions and the fault of a page are the
same for all emitters. -/

variable {σ : Type}

/-- A page is the conversion of its children, with the file put together at its end. -/
theorem convertPage_eq (run : Run σ) (path : String) (root : Entries Value) (emitter : σ) :
    convertPage run path root emitter =
      match convertAll run ⟨path, []⟩ 1 (ofField "children" root) ⟨{}, emitter, []⟩ with
      | (.ok ns, s) => (.ok (assemble (Value.field "options" root).fields s.file ns), s)
      | (.error f, s) => (.error f, s) := by
  simp only [convertPage, convertRoot, bind_apply, get_apply, pure_apply]
  generalize convertAll run ⟨path, []⟩ 1 (ofField "children" root) ⟨{}, emitter, []⟩ = p
  obtain ⟨_ | _, _⟩ := p <;> rfl

/-- **Every run over a page does the same**: it gives one answer, notes the same mentions and hands
over the same emissions, whatever its emitter is. -/
theorem exists_page_account (o : ConversionOptions) (path : String) (root : Entries Value) :
    ∃ a : Account Node, ∀ {σ : Type} (run : Run σ) (kept : σ), run.options = o →
      (convertPage run path root kept).1 = a.answer ∧
        (convertPage run path root kept).2.file =
          a.mentions.foldl (FileState.note o ⟨path, []⟩) {} ∧
        (convertPage run path root kept).2.emitter =
          a.emissions.foldl (deliver run.emitter) kept := by
  obtain ⟨a, -, hperforms⟩ := (Draft.page path root).follows o
  refine ⟨⟨a.answer.map (assemble (Value.field "options" root).fields
    (a.mentions.foldl (FileState.note o ⟨path, []⟩) {})), a.mentions, a.emissions⟩, ?_⟩
  rintro σ run kept rfl
  obtain ⟨hanswer, hfile, hemitter⟩ := hperforms σ run rfl ⟨{}, kept, []⟩
  simp only [Draft.page] at hanswer hfile hemitter
  rw [convertPage_eq, ← hanswer, ← hfile, ← hemitter]
  generalize convertAll run ⟨path, []⟩ 1 (ofField "children" root) ⟨{}, kept, []⟩ = p
  obtain ⟨_ | _, _⟩ := p <;> exact ⟨rfl, rfl, rfl⟩

/-- **A page without faults comes out as its tree**, and its fragments are emitted in order. -/
theorem convertPage_of_faultless (run : Run σ) {path : String} {root : Entries Value}
    (h : (Draft.page path root).Faultless run.options) (emitter : σ) :
    let page := Draft.page path root
    ∃ s, convertPage run path root emitter = (.ok (page.tree run.options), s) ∧
      s.file = page.state run.options ∧
      s.emitter = ((page.outline run.options).fragments.map (Draft.emission run.options)).foldl
        (deliver run.emitter) emitter := by
  obtain ⟨s, hs, hfile, hemitter⟩ := h.convertAll_eq run rfl (s := ⟨{}, emitter, []⟩) rfl
  refine ⟨s, ?_, hfile, hemitter⟩
  rw [Draft.page] at hs
  rw [convertPage_eq, hs, Draft.tree, ← hfile]
  rfl

/-- A page stops at the first fault that a visit meets. -/
theorem convertPage_of_fault (run : Run σ) {path : String} {root : Entries Value} {fault : Fault}
    (h : (((Draft.page path root).outline run.options).faults run.options).head? = some fault)
    (emitter : σ) : (convertPage run path root emitter).1 = .error fault := by
  have hrun := (Draft.page path root).convertAll_of_fault run h ⟨{}, emitter, []⟩
  simp only [Draft.page] at hrun
  rw [convertPage_eq]
  split
  · next hok =>
    rw [hok] at hrun
    cases hrun
  · next herror =>
    rw [herror] at hrun
    exact congrArg _ (Except.error.inj hrun)

/-- A page that has come out met no fault, and it came out as its tree. -/
theorem faultless_of_convertPage {run : Run σ} {path : String} {root : Entries Value}
    {emitter : σ} {tree : Node} {s : Session σ}
    (h : convertPage run path root emitter = (.ok tree, s)) :
    let page := Draft.page path root
    page.Faultless run.options ∧ tree = page.tree run.options ∧
      s.file = page.state run.options ∧
      s.emitter = ((page.outline run.options).fragments.map (Draft.emission run.options)).foldl
        (deliver run.emitter) emitter := by
  have hpage : (Draft.page path root).Faultless run.options := by
    refine Draft.faultless_of_no_fault fun fault hfault => ?_
    have hstopped := convertPage_of_fault run hfault emitter
    rw [h] at hstopped
    cases hstopped
  obtain ⟨s', hs, hfile, hemitter⟩ := convertPage_of_faultless run hpage emitter
  obtain ⟨htree, rfl⟩ := Prod.mk.inj (h.symm.trans hs)
  exact ⟨hpage, Except.ok.inj htree, hfile, hemitter⟩

/-- A page comes out exactly if none of its visits meets a fault. -/
theorem faultless_iff_convertPage_ok (run : Run σ) (path : String) (root : Entries Value)
    (emitter : σ) :
    (Draft.page path root).Faultless run.options ↔
      ∃ tree, (convertPage run path root emitter).1 = .ok tree := by
  constructor
  · intro h
    obtain ⟨s, hs, -⟩ := convertPage_of_faultless run h emitter
    exact ⟨_, congrArg Prod.fst hs⟩
  · rintro ⟨tree, htree⟩
    have h : convertPage run path root emitter =
        (.ok tree, (convertPage run path root emitter).2) := Prod.ext htree rfl
    exact (faultless_of_convertPage h).1

end Convert

end MdxPages
