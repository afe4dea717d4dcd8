import Mathlib.Data.List.Nodup
import MdxPages.Proofs.References.Kept

/-!
# Proofs/References/Canonical — a module says what its registry stands for, and no more

Registries are alike if each name and each URL stands for the same in both, once texts are cut.  A
module keeps the same of registries that are alike (`kept_eq_of_alike`) and is the same text for
them (`render_eq_of_alike`); so the order in which entries came does not show.  Merging respects
this (`Alike.merge`), and registries without a common key may be merged in any order
(`alike_foldl_merge_of_perm`).
-/

namespace MdxPages

namespace Entries

variable {α : Type} {xs ys : Entries α}

theorem nodup_of_keys (h : xs.keys.Nodup) : xs.Nodup :=
  List.Nodup.of_map Prod.fst h

/-- Maps with the same value at each key have the same entries, in some order. -/
theorem perm_of_get?_eq (hx : xs.keys.Nodup) (hy : ys.keys.Nodup)
    (h : ∀ key, xs.get? key = ys.get? key) : xs.Perm ys := by
  refine (List.perm_ext_iff_of_nodup (nodup_of_keys hx) (nodup_of_keys hy)).2 fun e => ?_
  rw [← get?_eq_some_iff hx, ← get?_eq_some_iff hy, h]

/-- A merged map has the keys of the two maps. -/
theorem keys_merge_subset (xs ys : Entries α) {key : String} (h : key ∈ (xs.merge ys).keys) :
    key ∈ xs.keys ∨ key ∈ ys.keys := by
  obtain ⟨e, he, rfl⟩ := List.mem_map.1 h
  exact (mem_merge he).imp (fun h => List.mem_map.2 ⟨e, h, rfl⟩) fun h => List.mem_map.2 ⟨e, h, rfl⟩

end Entries

namespace References

variable {a b a' b' r : References} {α : Type}

/-! ## Sorting

Entries are sorted by their keys, so for distinct keys the sorted list depends on the entries only.
-/

/-- Entries are sorted to one list, in whatever order they come. -/
theorem sorted_eq_of_perm {xs ys : Entries α} (hx : xs.keys.Nodup) (h : xs.Perm ys) :
    sorted xs = sorted ys := by
  have hperm : (sorted xs).Perm (sorted ys) :=
    (List.mergeSort_perm xs _).trans (h.trans (List.mergeSort_perm ys _).symm)
  have hpairwise (zs : Entries α) : (sorted zs).Pairwise fun e f => e.1 ≤ f.1 := by
    refine (List.pairwise_mergeSort (fun e f g => ?_) (fun e f => ?_) zs).imp of_decide_eq_true
    · simpa using String.le_trans
    · simpa using String.le_total e.1 f.1
  refine hperm.eq_of_pairwise (fun e f he hf hef hfe => ?_) (hpairwise xs) (hpairwise ys)
  have hkey : e.1 = f.1 := String.le_antisymm hef hfe
  have hvalue : xs.get? f.1 = some e.2 :=
    (Entries.get?_eq_some_iff hx).2 (hkey ▸ mem_sorted.1 he)
  have hvalue' : xs.get? f.1 = some f.2 :=
    (Entries.get?_eq_some_iff hx).2 (h.mem_iff.2 (mem_sorted.1 hf))
  exact Prod.ext hkey (Option.some.inj (hvalue.symm.trans hvalue'))

/-- What is sorted once stays as it is when it is changed under its keys and sorted again. -/
theorem sorted_map_sorted {xs : Entries α} (f : α → α) :
    sorted ((sorted xs).map fun e => (e.1, f e.2)) = (sorted xs).map fun e => (e.1, f e.2) := by
  refine List.mergeSort_of_pairwise (List.pairwise_map.2 ?_)
  refine List.pairwise_mergeSort (fun e f g => ?_) (fun e f => ?_) xs
  · simpa using String.le_trans
  · simpa using String.le_total e.1 f.1

/-! ## Registries that are alike

Texts are cut in a module, so registries that differ behind the cut are not told apart. -/

/-- Registries in which each name and each URL stands for the same, once texts are cut. -/
structure Alike (a b : References) : Prop where
  names (name : String) :
    (a.substitutions.get? name).map cutText = (b.substitutions.get? name).map cutText
  urls (url : String) : (a.refs.get? url).map RefTarget.cut = (b.refs.get? url).map RefTarget.cut

namespace Alike

/-- A registry is alike to itself. -/
theorem refl (a : References) : a.Alike a :=
  ⟨fun _ => rfl, fun _ => rfl⟩

/-- Being alike goes both ways. -/
theorem symm (h : a.Alike b) : b.Alike a :=
  ⟨fun name => (h.names name).symm, fun url => (h.urls url).symm⟩

/-- Registries alike to one registry are alike. -/
theorem trans (h : a.Alike b) (h' : b.Alike r) : a.Alike r :=
  ⟨fun name => (h.names name).trans (h'.names name), fun url => (h.urls url).trans (h'.urls url)⟩

/-- **Merging does not tell registries apart that are alike.** -/
theorem merge (ha : a.Alike a') (hb : b.Alike b') (hkeys : b.WellKeyed) (hkeys' : b'.WellKeyed) :
    (a.merge b).Alike (a'.merge b') := by
  constructor
  · intro name
    change (Entries.get? name (Entries.merge _ _)).map _ =
      (Entries.get? name (Entries.merge _ _)).map _
    rw [Entries.get?_merge_of_nodup _ _ hkeys.names, Entries.get?_merge_of_nodup _ _ hkeys'.names,
      Option.map_or, Option.map_or, ha.names, hb.names]
  · intro url
    change (Entries.get? url (Entries.merge _ _)).map _ =
      (Entries.get? url (Entries.merge _ _)).map _
    rw [Entries.get?_merge_of_nodup _ _ hkeys.urls, Entries.get?_merge_of_nodup _ _ hkeys'.urls,
      Option.map_or, Option.map_or, ha.urls, hb.urls]

end Alike

/-- What a module keeps is alike to what it was written from. -/
theorem alike_kept (h : r.WellKeyed) : r.kept.Alike r := by
  constructor
  · intro name
    rw [get?_substitutions_kept h, Option.map_map]
    exact congrArg (Option.map · _) (funext cutText_cutText)
  · intro url
    rw [get?_refs_kept h, Option.map_map]
    exact congrArg (Option.map · _) (funext RefTarget.cut_cut)

/-- **A module keeps the same of registries that are alike.** -/
theorem kept_eq_of_alike (ha : a.WellKeyed) (hb : b.WellKeyed) (h : a.Alike b) :
    a.kept = b.kept := by
  have hnames : a.kept.substitutions.Perm b.kept.substitutions :=
    Entries.perm_of_get?_eq ha.kept.names hb.kept.names fun name => by
      rw [get?_substitutions_kept ha, get?_substitutions_kept hb, h.names]
  have hurls : a.kept.refs.Perm b.kept.refs :=
    Entries.perm_of_get?_eq ha.kept.urls hb.kept.urls fun url => by
      rw [get?_refs_kept ha, get?_refs_kept hb, h.urls]
  have hsorted : sorted a.kept.substitutions = sorted b.kept.substitutions ∧
      sorted a.kept.refs = sorted b.kept.refs :=
    ⟨sorted_eq_of_perm ha.kept.names hnames, sorted_eq_of_perm ha.kept.urls hurls⟩
  simp only [kept, sorted_map_sorted] at hsorted
  rw [kept, kept, hsorted.1, hsorted.2]

/-- Of the empty registry nothing is kept. -/
theorem kept_empty : ({} : References).kept = {} := by
  simp [kept, sorted]

/-- What a module keeps is written as it was. -/
theorem render_kept (r : References) : render r.kept = render r := by
  have hline (name text : String) :
      substitutionLine name (cutText text) = substitutionLine name text := by
    rw [substitutionLine, substitutionLine, encode_cutText]
  have href (url : String) (target : RefTarget) :
      refLine url target.cut = refLine url target := by
    rw [refLine, refLine, RefTarget.cut, encode_cutText]
  simp only [render, kept, sorted_map_sorted, List.map_map, Function.comp_def, hline, href]

/-- **A module is a text of what its registry stands for**: it is the same for registries that are
alike. -/
theorem render_eq_of_alike (ha : a.WellKeyed) (hb : b.WellKeyed) (h : a.Alike b) :
    render a = render b := by
  rw [← render_kept a, ← render_kept b, kept_eq_of_alike ha hb h]

/-- Literals are mistaken for code in neither of two registries that are alike, or in both. -/
theorem Unmistakable.congr (hb : b.WellKeyed) (ha : a.WellKeyed) (h : b.Alike a)
    (hplain : a.Unmistakable) : b.Unmistakable := by
  have hname {e : String × String} (he : e ∈ b.substitutions) :
      ∃ text, (e.1, text) ∈ a.substitutions ∧ encode e.2 = encode text := by
    have hget := h.names e.1
    rw [(Entries.get?_eq_some_iff hb.names).2 he, Option.map_some, eq_comm,
      Option.map_eq_some_iff] at hget
    obtain ⟨text, htext, hcut⟩ := hget
    exact ⟨text, (Entries.get?_eq_some_iff ha.names).1 htext, by
      rw [← encode_cutText e.2, ← hcut, encode_cutText]⟩
  have hurl {e : String × RefTarget} (he : e ∈ b.refs) :
      ∃ target, (e.1, target) ∈ a.refs ∧ encode e.2.title = encode target.title := by
    have hget := h.urls e.1
    rw [(Entries.get?_eq_some_iff hb.urls).2 he, Option.map_some, eq_comm,
      Option.map_eq_some_iff] at hget
    obtain ⟨target, htarget, hcut⟩ := hget
    have htitle : cutText target.title = cutText e.2.title := congrArg RefTarget.title hcut
    refine ⟨target, (Entries.get?_eq_some_iff ha.urls).1 htarget, ?_⟩
    rw [← encode_cutText e.2.title, ← htitle, encode_cutText]
  constructor
  · intro e he
    obtain ⟨text, hmem, -⟩ := hname he
    exact hplain.name (e.1, text) hmem
  · intro e he
    obtain ⟨text, hmem, htext⟩ := hname he
    rw [htext]
    exact hplain.text (e.1, text) hmem
  · intro e he
    obtain ⟨target, hmem, -⟩ := hurl he
    exact hplain.url (e.1, target) hmem
  · intro e he
    obtain ⟨target, hmem, htarget⟩ := hurl he
    rw [htarget]
    exact hplain.title (e.1, target) hmem

/-! ## Merging many registries

Two registries without a common key may change places.  A permutation is made of such changes. -/

/-- Registries merged from left to right. -/
def mergeAll (rs : List References) : References :=
  rs.foldl merge {}

/-- A registry that has just been merged changes nothing when it is merged once more. -/
theorem alike_merge_again (hb : b.WellKeyed) : ((a.merge b).merge b).Alike (a.merge b) := by
  have hagain {α : Type} (x other : Option α) : x.or (x.or other) = x.or other := by
    cases x <;> rfl
  constructor
  · intro name
    refine congrArg _ ?_
    change Entries.get? name (Entries.merge (Entries.merge _ _) _) =
      Entries.get? name (Entries.merge _ _)
    rw [Entries.get?_merge_of_nodup _ _ hb.names, Entries.get?_merge_of_nodup _ _ hb.names, hagain]
  · intro url
    refine congrArg _ ?_
    change Entries.get? url (Entries.merge (Entries.merge _ _) _) =
      Entries.get? url (Entries.merge _ _)
    rw [Entries.get?_merge_of_nodup _ _ hb.urls, Entries.get?_merge_of_nodup _ _ hb.urls, hagain]

/-- Registries without a common name or URL. -/
structure Disjoint (a b : References) : Prop where
  names : a.substitutions.keys.Disjoint b.substitutions.keys
  urls : a.refs.keys.Disjoint b.refs.keys

theorem Disjoint.symm (h : a.Disjoint b) : b.Disjoint a :=
  ⟨fun _ hb ha => h.names ha hb, fun _ hb ha => h.urls ha hb⟩

theorem wellKeyed_empty : ({} : References).WellKeyed where
  names := List.nodup_nil
  urls := List.nodup_nil
  own _ he := absurd he List.not_mem_nil

/-- Registries that are well keyed are merged to one. -/
theorem wellKeyed_foldl_merge {rs : List References} (ha : a.WellKeyed)
    (h : ∀ r ∈ rs, r.WellKeyed) : (rs.foldl merge a).WellKeyed := by
  induction rs generalizing a with
  | nil => exact ha
  | cons r rs ih =>
    rw [List.forall_mem_cons] at h
    exact ih (ha.merge h.1) h.2

theorem wellKeyed_mergeAll {rs : List References} (h : ∀ r ∈ rs, r.WellKeyed) :
    (mergeAll rs).WellKeyed :=
  wellKeyed_foldl_merge wellKeyed_empty h

/-- Merging the same registries into two that are alike leaves them alike. -/
theorem Alike.foldl_merge {rs : List References} (ha : a.Alike a')
    (h : ∀ r ∈ rs, r.WellKeyed) :
    (rs.foldl References.merge a).Alike (rs.foldl References.merge a') := by
  induction rs generalizing a a' with
  | nil => exact ha
  | cons r rs ih =>
    rw [List.forall_mem_cons] at h
    exact ih (ha.merge (.refl r) h.1 h.1) h.2

/-- Two registries without a common key may be merged in either order. -/
theorem Disjoint.alike_merge_merge (h : a.Disjoint b) (ha : a.WellKeyed) (hb : b.WellKeyed)
    (r : References) : ((r.merge a).merge b).Alike ((r.merge b).merge a) := by
  have hswap {α : Type} {x y : Entries α} (hxy : x.keys.Disjoint y.keys) (key : String)
      (other : Option α) :
      (y.get? key).or ((x.get? key).or other) = (x.get? key).or ((y.get? key).or other) := by
    by_cases hkey : key ∈ x.keys
    · rw [Entries.get?_eq_none_of_notMem (hxy hkey)]
      rfl
    · rw [Entries.get?_eq_none_of_notMem hkey]
      rfl
  constructor
  · intro name
    refine congrArg _ ?_
    change Entries.get? name (Entries.merge (Entries.merge _ _) _) =
      Entries.get? name (Entries.merge (Entries.merge _ _) _)
    rw [Entries.get?_merge_of_nodup _ _ hb.names, Entries.get?_merge_of_nodup _ _ ha.names,
      Entries.get?_merge_of_nodup _ _ ha.names, Entries.get?_merge_of_nodup _ _ hb.names,
      hswap h.names]
  · intro url
    refine congrArg _ ?_
    change Entries.get? url (Entries.merge (Entries.merge _ _) _) =
      Entries.get? url (Entries.merge (Entries.merge _ _) _)
    rw [Entries.get?_merge_of_nodup _ _ hb.urls, Entries.get?_merge_of_nodup _ _ ha.urls,
      Entries.get?_merge_of_nodup _ _ ha.urls, Entries.get?_merge_of_nodup _ _ hb.urls,
      hswap h.urls]

/-- **Registries without common keys may be merged in any order.** -/
theorem alike_foldl_merge_of_perm {rs rs' : List References} (hperm : rs.Perm rs')
    (h : ∀ r ∈ rs, r.WellKeyed) (hdisjoint : rs.Pairwise Disjoint) (r : References) :
    (rs.foldl merge r).Alike (rs'.foldl merge r) := by
  induction hperm generalizing r with
  | nil => exact .refl r
  | cons a _ ih =>
    rw [List.forall_mem_cons] at h
    exact ih h.2 (List.pairwise_cons.1 hdisjoint).2 _
  | @swap a b rs =>
    simp only [List.forall_mem_cons] at h
    have hab : b.Disjoint a := (List.pairwise_cons.1 hdisjoint).1 a List.mem_cons_self
    exact (hab.alike_merge_merge h.1 h.2.1 r).foldl_merge h.2.2
  | trans hab _ ih ih' =>
    refine (ih h hdisjoint r).trans (ih' (fun x hx => h x (hab.mem_iff.2 hx)) ?_ r)
    exact hab.pairwise hdisjoint fun hxy => hxy.symm

theorem Disjoint.merge (ha : a.Disjoint r) (hb : b.Disjoint r) : (a.merge b).Disjoint r where
  names _ hmem hr :=
    (Entries.keys_merge_subset _ _ hmem).elim (fun h => ha.names h hr) fun h => hb.names h hr
  urls _ hmem hr :=
    (Entries.keys_merge_subset _ _ hmem).elim (fun h => ha.urls h hr) fun h => hb.urls h hr

/-- A registry without a key of several has none of their merge. -/
theorem Disjoint.foldl_merge {rs : List References} (ha : a.Disjoint r)
    (h : ∀ x ∈ rs, x.Disjoint r) : (rs.foldl References.merge a).Disjoint r := by
  induction rs generalizing a with
  | nil => exact ha
  | cons x rs ih =>
    rw [List.forall_mem_cons] at h
    exact ih (ha.merge h.1) h.2

theorem disjoint_empty (r : References) : ({} : References).Disjoint r :=
  ⟨List.disjoint_nil_left _, List.disjoint_nil_left _⟩

/-- Where registries have no common key, all entries of the first are in the merged one. -/
theorem Unmistakable.of_merge (hdisjoint : a.Disjoint b) (ha : a.WellKeyed) (hb : b.WellKeyed)
    (h : (a.merge b).Unmistakable) : a.Unmistakable := by
  have happend {α : Type} {x y : Entries α} (hx : x.keys.Nodup) (hy : y.keys.Nodup)
      (hxy : x.keys.Disjoint y.keys) : x.merge y = x ++ y := by
    refine Entries.merge_eq_append ?_
    rw [Entries.keys, List.map_append]
    exact hx.append hy hxy
  have hnames : (a.merge b).substitutions = a.substitutions ++ b.substitutions :=
    happend ha.names hb.names hdisjoint.names
  have hurls : (a.merge b).refs = a.refs ++ b.refs := happend ha.urls hb.urls hdisjoint.urls
  constructor
  · exact fun e he => h.name e (hnames ▸ List.mem_append_left _ he)
  · exact fun e he => h.text e (hnames ▸ List.mem_append_left _ he)
  · exact fun e he => h.url e (hurls ▸ List.mem_append_left _ he)
  · exact fun e he => h.title e (hurls ▸ List.mem_append_left _ he)

/-- What holds of the literals of many registries without common keys holds of the first of them. -/
theorem Unmistakable.of_foldl_merge {first rest : List References} (ha : a.WellKeyed)
    (hkeyed : ∀ r ∈ first ++ rest, r.WellKeyed) (hfirst : ∀ r ∈ first ++ rest, a.Disjoint r)
    (hdisjoint : (first ++ rest).Pairwise Disjoint)
    (h : ((first ++ rest).foldl References.merge a).Unmistakable) :
    (first.foldl References.merge a).Unmistakable := by
  induction first generalizing a with
  | nil =>
    induction rest generalizing a with
    | nil => exact h
    | cons r rest ih =>
      simp only [List.nil_append, List.forall_mem_cons, List.pairwise_cons] at *
      have hmerged := ih (ha.merge hkeyed.1) hkeyed.2
        (fun x hx => (hfirst.2 x hx).merge (hdisjoint.1 x hx)) hdisjoint.2 h
      exact hmerged.of_merge hfirst.1 ha hkeyed.1
  | cons r first ih =>
    simp only [List.cons_append, List.forall_mem_cons, List.pairwise_cons] at *
    exact ih (ha.merge hkeyed.1) hkeyed.2
      (fun x hx => (hfirst.2 x hx).merge (hdisjoint.1 x hx)) hdisjoint.2 h

end References

end MdxPages
