import Mathlib.Data.List.Induction
import Mathlib.Data.List.Infix
import MdxPages.Proofs.References.Canonical
import MdxPages.Proofs.Site.Registry

/-!
# Proofs/Site/Runs — what any number of runs leave in the registry module

Each run fills a registry of its own and persists it.  After every one of them the module holds all
registries so far, merged in order, and its text says what they stand for and no more
(`module_of_runs`): it does not show in which order entries without a common key came, and it stays
as it is when a registry is persisted once more.
-/

namespace MdxPages.Registry

open References

variable {w w' : Workplace} {l : Location} {r : References} {added added' : List References}
  {runs runs' : List (List References)}

/-! ## Runs

A run is given by the references that it counts, in order. -/

/-- Count references one after the other. -/
def addAll : List References → Work Unit
  | [] => return
  | r :: added => do
    add r
    addAll added

/-- A registry of its own, filled with references in order. -/
def fill (added : List References) : Work Unit := do
  clear
  addAll added

/-- Registries that are filled and persisted one after the other. -/
def persistRuns (l : Location) : List (List References) → Work Unit
  | [] => return
  | added :: runs => do
    fill added
    let _ ← persist l
    persistRuns l runs

/-- The registries of runs merged in order, each of them merged of what was added to it. -/
def mergedRuns (runs : List (List References)) : References :=
  mergeAll (runs.map mergeAll)

/-- Counting references one after the other merges them in order. -/
theorem addAll_apply (added : List References) (w : Workplace) :
    addAll added w = (.ok (), { w with registry := added.foldl References.merge w.registry }) := by
  induction added generalizing w with
  | nil => rfl
  | cons a added ih =>
    have hadd : add a w = (.ok (), { w with registry := w.registry.merge a }) := rfl
    rw [addAll, Work.bind_of_ok hadd, ih]
    rfl

/-- A registry of its own starts empty. -/
theorem fill_apply (added : List References) (w : Workplace) :
    fill added w = (.ok (), { w with registry := mergeAll added }) := by
  have hclear : clear w = (.ok (), { w with registry := {} }) := rfl
  rw [fill, Work.bind_of_ok hclear, addAll_apply]
  rfl

/-- The last of several runs comes after the others. -/
theorem persistRuns_concat (h : persistRuns l runs w = (.ok (), w')) {answer : References}
    {w'' : Workplace}
    (hpersist : persist l { w' with registry := mergeAll added } = (.ok answer, w'')) :
    persistRuns l (runs ++ [added]) w = (.ok (), w'') := by
  induction runs generalizing w with
  | nil =>
    obtain ⟨-, rfl⟩ := Prod.mk.inj h
    rw [List.nil_append, persistRuns, Work.bind_of_ok (fill_apply added w),
      Work.bind_of_ok hpersist]
    rfl
  | cons first runs ih =>
    rw [List.cons_append, persistRuns, Work.bind_of_ok (fill_apply first w), bind_apply]
    rw [persistRuns, Work.bind_of_ok (fill_apply first w), bind_apply] at h
    split at h
    · exact ih h
    · cases h

/-! ## Lawful runs -/

/-- Runs whose references stand under their own URLs, and in whose modules no literal is mistaken
for code. -/
structure Lawful (runs : List (List References)) : Prop where
  keyed : ∀ added ∈ runs, ∀ r ∈ added, r.WellKeyed
  plain : ∀ earlier, earlier <+: runs → (mergedRuns earlier).Unmistakable

/-- One more run is merged behind the others. -/
theorem mergedRuns_concat (runs : List (List References)) (added : List References) :
    mergedRuns (runs ++ [added]) = (mergedRuns runs).merge (mergeAll added) := by
  rw [mergedRuns, List.map_append, mergeAll, List.foldl_append]
  rfl

/-- Runs whose registries have no common name or URL. -/
def Separate (runs : List (List References)) : Prop :=
  runs.Pairwise fun xs ys => ∀ a ∈ xs, ∀ b ∈ ys, a.Disjoint b

theorem disjoint_mergeAll {xs ys : List References} (h : ∀ a ∈ xs, ∀ b ∈ ys, a.Disjoint b) :
    (mergeAll xs).Disjoint (mergeAll ys) := by
  have hleft (b : References) (hb : b ∈ ys) : (mergeAll xs).Disjoint b :=
    (disjoint_empty b).foldl_merge fun a ha => h a ha b hb
  exact ((disjoint_empty _).foldl_merge fun b hb => (hleft b hb).symm).symm

/-- The registries of separate runs have no key in common, pair by pair. -/
theorem Separate.pairwise (h : Separate runs) : (runs.map mergeAll).Pairwise Disjoint :=
  List.pairwise_map.2 (h.imp disjoint_mergeAll)

namespace Lawful

/-- The first of lawful runs are lawful. -/
theorem of_prefix (h : Lawful runs') (hstart : runs <+: runs') : Lawful runs :=
  ⟨fun added hadded => h.keyed added (hstart.subset hadded),
    fun _ hearlier => h.plain _ (hearlier.trans hstart)⟩

theorem wellKeyed_merged (h : Lawful runs) : ∀ r ∈ runs.map mergeAll, r.WellKeyed :=
  List.forall_mem_map.2 fun added hadded => wellKeyed_mergeAll (h.keyed added hadded)

/-- The merged registry of lawful runs is well keyed. -/
theorem wellKeyed (h : Lawful runs) : (mergedRuns runs).WellKeyed :=
  wellKeyed_mergeAll h.wellKeyed_merged

/-- Runs without common keys may come in another order. -/
theorem perm (h : Lawful runs) (hperm : runs.Perm runs') (hseparate : Separate runs) :
    Lawful runs' ∧ (mergedRuns runs).Alike (mergedRuns runs') := by
  have halike : (mergedRuns runs).Alike (mergedRuns runs') :=
    alike_foldl_merge_of_perm (hperm.map mergeAll) h.wellKeyed_merged hseparate.pairwise {}
  have hkeyed : ∀ added ∈ runs', ∀ r ∈ added, r.WellKeyed :=
    fun added hadded => h.keyed added (hperm.mem_iff.2 hadded)
  have hwell : ∀ r ∈ runs'.map mergeAll, r.WellKeyed :=
    List.forall_mem_map.2 fun added hadded => wellKeyed_mergeAll (hkeyed added hadded)
  have hplain : (mergedRuns runs').Unmistakable :=
    (h.plain _ (List.prefix_refl _)).congr (wellKeyed_mergeAll hwell) h.wellKeyed halike.symm
  have hseparate' : (runs'.map mergeAll).Pairwise Disjoint :=
    (hperm.map mergeAll).pairwise hseparate.pairwise fun hxy => hxy.symm
  refine ⟨⟨hkeyed, ?_⟩, halike⟩
  rintro earlier ⟨rest, rfl⟩
  rw [List.map_append] at hwell hseparate'
  rw [mergedRuns, List.map_append] at hplain
  exact .of_foldl_merge wellKeyed_empty hwell (fun r _ => disjoint_empty r) hseparate' hplain

/-- Runs in which one registry is filled in another order, if its parts have no common keys. -/
theorem refill {before after : List (List References)} (h : Lawful (before ++ added :: after))
    (hperm : added.Perm added') (hdisjoint : added.Pairwise Disjoint) :
    Lawful (before ++ added' :: after) ∧
      (mergedRuns (before ++ added :: after)).Alike (mergedRuns (before ++ added' :: after)) := by
  have hadded : ∀ r ∈ added, r.WellKeyed := h.keyed added (by simp)
  have hadded' : ∀ r ∈ added', r.WellKeyed := fun r hr => hadded r (hperm.mem_iff.2 hr)
  have hkeyed : ∀ xs ∈ before ++ added' :: after, ∀ r ∈ xs, r.WellKeyed := by
    intro xs hxs
    obtain hxs | rfl | hxs : xs ∈ before ∨ xs = added' ∨ xs ∈ after := by simpa using hxs
    · exact h.keyed xs (by simp [hxs])
    · exact hadded'
    · exact h.keyed xs (by simp [hxs])
  -- up to any later run the merged registries are alike, since the refilled one is
  have halike {later : List (List References)} (hlater : later <+: after) :
      (mergedRuns (before ++ added :: later)).Alike (mergedRuns (before ++ added' :: later)) := by
    have hwell : ∀ r ∈ later.map mergeAll, r.WellKeyed := List.forall_mem_map.2 fun xs hxs =>
      wellKeyed_mergeAll (h.keyed xs (by simp [hlater.subset hxs]))
    have hrefilled : (mergeAll added).Alike (mergeAll added') :=
      alike_foldl_merge_of_perm hperm hadded hdisjoint {}
    simp only [mergedRuns, mergeAll, List.map_append, List.map_cons, List.foldl_append,
      List.foldl_cons]
    exact ((Alike.refl _).merge hrefilled (wellKeyed_mergeAll hadded)
      (wellKeyed_mergeAll hadded')).foldl_merge hwell
  refine ⟨⟨hkeyed, fun earlier hearlier => ?_⟩, halike (List.prefix_refl _)⟩
  obtain hbefore | ⟨tail, rfl⟩ :=
    List.prefix_or_prefix_of_prefix hearlier (List.prefix_append before (added' :: after))
  · exact h.plain _ (hbefore.trans (List.prefix_append _ _))
  · cases tail with
    | nil => exact h.plain _ (by simp)
    | cons first later =>
      obtain ⟨rfl, hlater⟩ := List.cons_prefix_cons.1 ((List.prefix_append_right_inj _).1 hearlier)
      have hplain := h.plain (before ++ added :: later)
        ((List.prefix_append_right_inj _).2 (List.cons_prefix_cons.2 ⟨rfl, hlater⟩))
      refine hplain.congr ?_ ?_ (halike hlater).symm
      · exact wellKeyed_mergeAll (List.forall_mem_map.2 fun xs hxs =>
          wellKeyed_mergeAll (hkeyed xs (hearlier.subset hxs)))
      · exact wellKeyed_mergeAll (List.forall_mem_map.2 fun xs hxs => by
          obtain hxs | rfl | hxs : xs ∈ before ∨ xs = added ∨ xs ∈ later := by simpa using hxs
          · exact wellKeyed_mergeAll (h.keyed xs (by simp [hxs]))
          · exact wellKeyed_mergeAll hadded
          · exact wellKeyed_mergeAll (h.keyed xs (by simp [hlater.subset hxs])))

end Lawful

/-! ## What a run leaves

The text of the module is said by what its registry is alike to, so that registries which are alike
leave the same text. -/

/-- The module at a location is that of a registry: it holds the registry, its text is the one that
is written for it, and it can be written again. -/
structure ModuleOf (w : Workplace) (l : Location) (r : References) : Prop where
  writable : w.Writable l
  holds : Holds w l r.kept
  text : w.disk.read w.directory l = .ok (Bytes.ofText (render r))

/-- The module of a registry is that of any registry that is alike. -/
theorem ModuleOf.congr {r' : References} (h : ModuleOf w l r) (hr : r.WellKeyed)
    (hr' : r'.WellKeyed) (halike : r.Alike r') : ModuleOf w l r' where
  writable := h.writable
  holds := kept_eq_of_alike hr hr' halike ▸ h.holds
  text := render_eq_of_alike hr hr' halike ▸ h.text

/-- **A run merges its registry into the module.** -/
theorem exists_persist_kept (hw : w.Writable l) (hold : Holds w l r.kept) (hr : r.WellKeyed)
    (hadded : w.registry.WellKeyed) (hplain : (r.merge w.registry).Unmistakable) :
    ∃ answer w', persist l w = (.ok answer, w') ∧ w'.registry = w.registry ∧
      ModuleOf w' l (r.merge w.registry) := by
  have hmerged := hr.merge hadded
  have hkept := hr.kept.merge hadded
  have halike : (r.kept.merge w.registry).Alike (r.merge w.registry) :=
    (alike_kept hr).merge (.refl _) hadded hadded
  obtain ⟨d, log, hpersist, hwritable, hbytes⟩ := exists_persist hw hold
  refine ⟨_, _, hpersist, rfl, hwritable, ?_, ?_⟩
  · have hparse := parse_render_eq_kept hkept (hplain.congr hkept hmerged halike)
    rw [← kept_eq_of_alike hkept hmerged halike, ← hparse]
    exact holds_of_read hbytes
  · exact hbytes.trans (by rw [render_eq_of_alike hkept hmerged halike])

/-- What runs leave for one more run: a location that can be written, and their registries in it. -/
structure Leaves (l : Location) (runs : List (List References)) (w w' : Workplace) : Prop where
  run : persistRuns l runs w = (.ok (), w')
  writable : w'.Writable l
  holds : Holds w' l (mergedRuns runs).kept

/-- **One more run leaves what runs leave**, with its registry merged behind the others. -/
theorem Leaves.concat (h : Leaves l runs w w') (hlawful : Lawful (runs ++ [added])) :
    ∃ w'', Leaves l (runs ++ [added]) w w'' ∧ w''.registry = mergeAll added ∧
      ModuleOf w'' l (mergedRuns (runs ++ [added])) := by
  have hbefore := hlawful.of_prefix (List.prefix_append runs [added])
  have hadded : (mergeAll added).WellKeyed :=
    wellKeyed_mergeAll (hlawful.keyed added (List.mem_append_right _ List.mem_cons_self))
  have hplain := hlawful.plain _ (List.prefix_refl _)
  rw [mergedRuns_concat] at hplain ⊢
  obtain ⟨answer, w'', hpersist, hregistry, hmodule⟩ :=
    exists_persist_kept (w := { w' with registry := mergeAll added }) h.writable
      (h.holds.congr rfl rfl) hbefore.wellKeyed hadded hplain
  refine ⟨w'', ⟨persistRuns_concat h.run hpersist, hmodule.writable, ?_⟩, hregistry, hmodule⟩
  rw [mergedRuns_concat]
  exact hmodule.holds

/-- Lawful runs into a place without references leave what runs leave. -/
theorem exists_leaves (hw : w.Writable l) (hold : Holds w l {}) (h : Lawful runs) :
    ∃ w', Leaves l runs w w' := by
  induction runs using List.reverseRecOn with
  | nil => exact ⟨w, rfl, hw, kept_empty.symm ▸ hold⟩
  | append_singleton runs added ih =>
    obtain ⟨w₁, hleaves⟩ := ih (h.of_prefix (List.prefix_append _ _))
    obtain ⟨w', h', -⟩ := hleaves.concat h
    exact ⟨w', h'⟩

/-- **Several runs merge their registries in order**; the last one is still there. -/
theorem exists_persistRuns (hw : w.Writable l) (hold : Holds w l {})
    (h : Lawful (runs ++ [added])) :
    ∃ w', persistRuns l (runs ++ [added]) w = (.ok (), w') ∧ w'.registry = mergeAll added ∧
      ModuleOf w' l (mergedRuns (runs ++ [added])) := by
  obtain ⟨w₁, hleaves⟩ := exists_leaves hw hold (h.of_prefix (List.prefix_append _ _))
  obtain ⟨w', h', hregistry, hmodule⟩ := hleaves.concat h
  exact ⟨w', h'.run, hregistry, hmodule⟩

/-- A registry that is persisted once more leaves the module as it is. -/
theorem ModuleOf.persist_again (h : ModuleOf w l (r.merge w.registry)) (hr : r.WellKeyed)
    (hadded : w.registry.WellKeyed) (hplain : (r.merge w.registry).Unmistakable) :
    ∃ answer w', persist l w = (.ok answer, w') ∧ ModuleOf w' l (r.merge w.registry) := by
  have hmerged := hr.merge hadded
  have halike : ((r.merge w.registry).merge w.registry).Alike (r.merge w.registry) :=
    alike_merge_again hadded
  obtain ⟨answer, w', hpersist, -, hmodule⟩ := exists_persist_kept h.writable h.holds hmerged hadded
    (hplain.congr (hmerged.merge hadded) hmerged halike)
  exact ⟨answer, w', hpersist, hmodule.congr (hmerged.merge hadded) hmerged halike⟩

/-- Runs that have entries in common for each name and URL leave the same module. -/
theorem read_eq_of_alike (hw : w.Writable l) (hold : Holds w l {}) (h : Lawful runs)
    (h' : Lawful runs') (hruns : runs = [] ↔ runs' = [])
    (halike : (mergedRuns runs).Alike (mergedRuns runs')) :
    ∃ w₁ w₂, persistRuns l runs w = (.ok (), w₁) ∧ persistRuns l runs' w = (.ok (), w₂) ∧
      w₁.disk.read w₁.directory l = w₂.disk.read w₂.directory l := by
  cases runs using List.reverseRecOn with
  | nil =>
    obtain rfl := hruns.1 rfl
    exact ⟨w, w, rfl, rfl, rfl⟩
  | append_singleton runs added =>
    cases runs' using List.reverseRecOn with
    | nil => simp at hruns
    | append_singleton runs' added' =>
      obtain ⟨w₁, hrun₁, -, hmodule₁⟩ := exists_persistRuns hw hold h
      obtain ⟨w₂, hrun₂, -, hmodule₂⟩ := exists_persistRuns hw hold h'
      refine ⟨w₁, w₂, hrun₁, hrun₂, ?_⟩
      rw [hmodule₁.text, hmodule₂.text, render_eq_of_alike h.wellKeyed h'.wellKeyed halike]

/-- **The registry module is a text of the merged registries alone.**  Registries are filled and
persisted one after the other to a location where a file can be written and there is none.  After
each of them the module is read as all registries so far, merged in order, with texts cut to the
greatest length; its bytes are those of any registry in which each name and URL stands for the same,
and persisting once more leaves them as they are.  So they are the same when references without a
common key come into one registry in another order, or when registries without a common key are
persisted in another order. -/
theorem module_of_runs (hw : w.Writable l) (hnone : w.disk.isFile w.directory l = false)
    (h : Lawful runs) :
    (∀ earlier added, earlier ++ [added] <+: runs →
      ∃ w' r bytes, persistRuns l (earlier ++ [added]) w = (.ok (), w') ∧ Holds w' l r ∧
        (∀ name, r.substitutions.get? name =
          ((mergedRuns (earlier ++ [added])).substitutions.get? name).map cutText) ∧
        (∀ url, r.refs.get? url =
          ((mergedRuns (earlier ++ [added])).refs.get? url).map RefTarget.cut) ∧
        w'.disk.read w'.directory l = .ok bytes ∧
        (∀ a : References, a.WellKeyed → a.Alike (mergedRuns (earlier ++ [added])) →
          bytes = Bytes.ofText (render a)) ∧
        ∃ answer w'', persist l w' = (.ok answer, w'') ∧
          w''.disk.read w''.directory l = .ok bytes) ∧
    (∀ before added added' after, runs = before ++ added :: after → added.Perm added' →
      added.Pairwise Disjoint →
      ∃ w₁ w₂, persistRuns l runs w = (.ok (), w₁) ∧
        persistRuns l (before ++ added' :: after) w = (.ok (), w₂) ∧
        w₁.disk.read w₁.directory l = w₂.disk.read w₂.directory l) ∧
    (∀ runs', runs.Perm runs' → Separate runs →
      ∃ w₁ w₂, persistRuns l runs w = (.ok (), w₁) ∧ persistRuns l runs' w = (.ok (), w₂) ∧
        w₁.disk.read w₁.directory l = w₂.disk.read w₂.directory l) := by
  have hold : Holds w l {} := holds_empty hw hnone
  refine ⟨fun earlier added hstart => ?_, ?_, fun runs' hperm hseparate => ?_⟩
  · have hlawful : Lawful (earlier ++ [added]) := h.of_prefix hstart
    have hbefore : Lawful earlier := hlawful.of_prefix (List.prefix_append _ _)
    have hadded : (mergeAll added).WellKeyed :=
      wellKeyed_mergeAll (hlawful.keyed added (List.mem_append_right _ List.mem_cons_self))
    have hplain := hlawful.plain _ (List.prefix_refl _)
    obtain ⟨w', hrun, hregistry, hmodule⟩ := exists_persistRuns hw hold hlawful
    refine ⟨w', _, _, hrun, hmodule.holds, get?_substitutions_kept hlawful.wellKeyed,
      get?_refs_kept hlawful.wellKeyed, hmodule.text, fun a ha halike => ?_, ?_⟩
    · rw [render_eq_of_alike ha hlawful.wellKeyed halike]
    · rw [mergedRuns_concat, ← hregistry] at hmodule hplain ⊢
      rw [← hregistry] at hadded
      obtain ⟨answer, w'', hpersist, hagain⟩ :=
        hmodule.persist_again hbefore.wellKeyed hadded hplain
      exact ⟨answer, w'', hpersist, hagain.text⟩
  · rintro before added added' after rfl hperm hdisjoint
    obtain ⟨h', halike⟩ := h.refill hperm hdisjoint
    exact read_eq_of_alike hw hold h h' (by simp) halike
  · obtain ⟨h', halike⟩ := h.perm hperm hseparate
    refine read_eq_of_alike hw hold h h' ?_ halike
    rw [← List.length_eq_zero_iff, hperm.length_eq, List.length_eq_zero_iff]

/-- Two runs into an empty directory, one of which has two references. -/
def twoRuns : List (List References) :=
  [[firstRun, laterRun], [secondRun]]

/-- The two runs are lawful. -/
theorem lawful_twoRuns : Lawful twoRuns := by
  constructor
  · intro added hadded r hr
    obtain rfl | rfl : added = [firstRun, laterRun] ∨ added = [secondRun] := by
      simpa [twoRuns] using hadded
    · obtain rfl | rfl : r = firstRun ∨ r = laterRun := by simpa using hr
      · constructor <;> decide
      · constructor <;> decide
    · obtain rfl : r = secondRun := by simpa using hr
      constructor <;> decide
  · intro earlier hearlier
    rw [← List.mem_inits] at hearlier
    have hcases : earlier = [] ∨ earlier = [[firstRun, laterRun]] ∨ earlier = twoRuns := by
      simpa [twoRuns] using hearlier
    obtain rfl | rfl | rfl := hcases
    · constructor <;> decide
    · constructor <;> decide
    · constructor <;> decide

theorem module_of_twoRuns :
    (∃ w' r bytes, persistRuns here twoRuns {} = (.ok (), w') ∧ Holds w' here r ∧
      r.substitutions.get? "c" = some "y" ∧ r.substitutions.get? "release" = some "2.0" ∧
      r.refs.get? "/install" = some ⟨"Install", "/install"⟩ ∧
      w'.disk.read w'.directory here = .ok bytes ∧
      ∃ answer w'', persist here w' = (.ok answer, w'') ∧
        w''.disk.read w''.directory here = .ok bytes) ∧
    ∃ w₁ w₂, persistRuns here twoRuns {} = (.ok (), w₁) ∧
      persistRuns here [[laterRun, firstRun], [secondRun]] {} = (.ok (), w₂) ∧
      w₁.disk.read w₁.directory here = w₂.disk.read w₂.directory here := by
  have hnone : ({} : Disk).isFile [] here = false := by
    rw [Disk.isFile, Disk.lookUp, find_here]
    rfl
  obtain ⟨hafter, hrefilled, -⟩ := module_of_runs writable_here hnone lawful_twoRuns
  constructor
  · obtain ⟨w', r, bytes, hrun, hholds, hnames, hurls, hbytes, -, hagain⟩ :=
      hafter [[firstRun, laterRun]] [secondRun] (List.prefix_refl _)
    refine ⟨w', r, bytes, hrun, hholds, ?_, ?_, ?_, hbytes, hagain⟩
    · rw [hnames]
      decide
    · rw [hnames]
      decide
    · rw [hurls]
      decide
  · have hdisjoint : firstRun.Disjoint laterRun := by
      constructor <;> exact List.disjoint_left.2 (by decide)
    exact hrefilled [] [firstRun, laterRun] [laterRun, firstRun] [[secondRun]] rfl
      (.swap _ _ _) (List.pairwise_pair.2 hdisjoint)

end MdxPages.Registry
