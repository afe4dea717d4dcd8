import MdxPages.Proofs.References.Kept
import MdxPages.Proofs.Site.Work
import MdxPages.Proofs.Tree.Preorder
import MdxPages.Site.Registry

/-!
# Proofs/References/Collection — the references of a page are those of its parts

Collections merge like words: the order in which merges are made does not matter, and neither does
an empty collection (`merge_assoc`, `Keyed.empty_merge`).  Collecting takes trees that stand one
after the other to merged collections (`collect_root_append`), and a node to what it contributes
itself before what its children contribute (`collect_eq_merge`).  So **a page may be collected in
parts**, and the registry is that of the whole page (`collect_compositional`).
-/

namespace MdxPages.References

open Node (attribute? plainTexts)

variable {a b r : References} {n : Node}

/-! ## Collections

Merging adds new keys behind and overwrites old ones in place, so associativity is one of ordered
maps. -/

/-- **Merging is associative**, in order as well as in content. -/
theorem merge_assoc (a : References) (hb : b.Keyed) (c : References) :
    (a.merge b).merge c = a.merge (b.merge c) := by
  simp only [merge, Entries.merge_merge _ hb.names, Entries.merge_merge _ hb.urls]

/-- Nothing is added by an empty collection. -/
theorem merge_empty (a : References) : a.merge {} = a := rfl

/-! ## Nodes

Two kinds of nodes contribute something, if they have what it takes. -/

/-- What a node contributes itself, whatever its children contribute. -/
inductive Contributes : Node → References → Prop
  | substitution {attributes : List Attribute} {cs : List Node} {name : String}
      (literal : attribute? "name" attributes = some (.text name)) (named : name ≠ "")
      (filled : plainTexts "" cs ≠ "") :
      Contributes (.textComponent "SubstitutionReference" attributes cs)
        { substitutions := [(name, plainTexts "" cs)] }
  | ref {attributes : List Attribute} {cs : List Node} {url title : String}
      (literal : attribute? "url" attributes = some (.text url)) (leads : url ≠ "")
      (titled : title = if plainTexts "" cs = "" then url else plainTexts "" cs) :
      Contributes (.textComponent "Ref" attributes cs) { refs := [(url, ⟨title, url⟩)] }

/-- What is read off a node itself, nothing from most nodes. -/
def own (n : Node) : References :=
  ⟨(substitutionOf? n).toList, (refOf? n).toList⟩

theorem attribute?_of_literal {name : String} {attributes : List Attribute}
    (h : literal name attributes ≠ "") :
    attribute? name attributes = some (.text (literal name attributes)) := by
  unfold literal at h ⊢
  split at h
  · next s hs => exact hs
  · exact absurd rfl h

/-- What a node contributes is read off it. -/
theorem own_of_contributes (h : Contributes n r) : own n = r := by
  cases h with
  | substitution hliteral hnamed hfilled =>
    simp [own, substitutionOf?, refOf?, literal, hliteral, hnamed, hfilled]
  | ref hliteral hleads htitled =>
    simp [own, substitutionOf?, refOf?, literal, hliteral, hleads, htitled]

/-- A substitution needs a name and a text, a cross-reference a URL; no other node contributes
anything. -/
theorem contributes_own_or (n : Node) : Contributes n (own n) ∨ own n = {} := by
  cases hname : substitutionOf? n with
  | some e =>
    refine .inl ?_
    unfold substitutionOf? at hname
    split at hname
    · next attributes cs =>
      simp only [Bool.or_eq_true, String.isEmpty_iff, Option.ite_none_left_eq_some, not_or] at hname
      obtain ⟨⟨hnamed, hfilled⟩, -⟩ := hname
      have hgives := Contributes.substitution (attribute?_of_literal hnamed) hnamed hfilled
      rwa [own_of_contributes hgives]
    · cases hname
  | none =>
    cases hurl : refOf? n with
    | some e =>
      refine .inl ?_
      unfold refOf? at hurl
      split at hurl
      · next attributes cs =>
        simp only [String.isEmpty_iff, Option.ite_none_left_eq_some] at hurl
        have hgives : Contributes (.textComponent "Ref" attributes cs) _ :=
          .ref (attribute?_of_literal hurl.1) hurl.1 rfl
        rwa [own_of_contributes hgives]
      · cases hurl
    | none => exact .inr (by rw [own, hname, hurl]; rfl)

/-! ## Trees

A tree contributes in the order of the document: a node, then its children, from left to right. -/

/-- A collection has no key twice. -/
theorem keyed_collect (n : Node) : (collect n).Keyed where
  names := Entries.nodup_keys_ofList _
  urls := Entries.nodup_keys_ofList _

/-- The collection of a page is a map of what its nodes contribute, in their order. -/
theorem collect_root (cs : List Node) :
    collect (.root cs) = ⟨Entries.ofList ((Node.preorders cs).filterMap substitutionOf?),
      Entries.ofList ((Node.preorders cs).filterMap refOf?)⟩ := by
  rw [collect, Node.preorder_eq, Node.children, List.filterMap_cons_none rfl,
    List.filterMap_cons_none rfl]

/-- **Trees one after the other are collected one after the other.** -/
theorem collect_root_append (xs ys : List Node) :
    collect (.root (xs ++ ys)) = (collect (.root xs)).merge (collect (.root ys)) := by
  simp only [collect_root, merge, Node.preorders_append, List.filterMap_append,
    Entries.ofList_append]

/-- **What a node contributes itself comes before what its children contribute.** -/
theorem collect_eq_merge (n : Node) :
    collect n = (own n).merge (collect (.root n.children)) := by
  have hsplit {α : Type} (f : Node → Option (String × α)) :
      Entries.ofList (n.preorder.filterMap f) =
        Entries.merge (f n).toList
          (Entries.ofList ((Node.preorders n.children).filterMap f)) := by
    have hsingle : Entries.ofList (f n).toList = (f n).toList := by
      cases f n <;> rfl
    rw [Node.preorder_eq, ← List.singleton_append, List.filterMap_append, Entries.ofList_append]
    refine congrArg (Entries.merge · _) ?_
    rw [← hsingle]
    cases hf : f n <;> simp [hf]
  rw [collect_root, collect, hsplit, hsplit]
  rfl

/-! ## Pages

A page is a list of nodes, and may be counted in any parts. -/

/-- Counting a page merges its collection into the registry. -/
theorem add_apply (r : References) (w : Workplace) :
    Registry.add r w = (.ok (), { w with registry := w.registry.merge r }) := rfl

/-- A page is counted part by part as it is counted at once. -/
theorem forM_add_collect (parts : List (List Node)) (w : Workplace) :
    (forM parts fun part => Registry.add (collect (.root part))) w =
      Registry.add (collect (.root parts.flatten)) w := by
  induction parts generalizing w with
  | nil => rfl
  | cons part parts ih =>
    rw [List.forM_cons, Work.bind_of_ok (add_apply _ w), ih, add_apply, add_apply,
      List.flatten_cons, collect_root_append, merge_assoc _ (keyed_collect _)]

/-- **Collecting references is compositional.**  Lists of nodes put together give the collections
merged, a node gives what it contributes itself and then what its children give, merging is
associative with the empty collection on either side, and a page that is counted part by part leaves
the registry of the whole page. -/
theorem collect_compositional (xs ys : List Node) (n : Node) {a b : References} (ha : a.Keyed)
    (hb : b.Keyed) (c : References) (parts : List (List Node)) (w : Workplace) :
    collect (.root (xs ++ ys)) = (collect (.root xs)).merge (collect (.root ys)) ∧
      (∀ r, Contributes n r → collect n = r.merge (collect (.root n.children))) ∧
      ((∀ r, ¬Contributes n r) → collect n = collect (.root n.children)) ∧
      (a.merge b).merge c = a.merge (b.merge c) ∧
      ({} : References).merge a = a ∧ a.merge {} = a ∧
      (collect n).Keyed ∧ (a.merge b).Keyed ∧
      (forM parts fun part => Registry.add (collect (.root part))) w =
        (.ok (), { w with registry := w.registry.merge (collect (.root parts.flatten)) }) := by
  refine ⟨collect_root_append xs ys, fun r hgives => ?_, fun hnone => ?_, merge_assoc a hb c,
    ha.empty_merge, merge_empty a, keyed_collect n, ha.merge b, forM_add_collect parts w⟩
  · rw [collect_eq_merge, own_of_contributes hgives]
  · rcases contributes_own_or n with hgives | hnothing
    · exact absurd hgives (hnone _)
    · rw [collect_eq_merge, hnothing, (keyed_collect _).empty_merge]

/-- A substitution inside a cross-reference, and another text of its name further on: the later
text takes the place of the earlier one, at once as in parts. -/
theorem collect_compositional_nested :
    ∃ first later : Node,
      Contributes first { refs := [("/p", ⟨"1", "/p"⟩)] } ∧
      collect (.root [first]) = ⟨[("v", "1")], [("/p", ⟨"1", "/p"⟩)]⟩ ∧
      collect (.root [later]) = ⟨[("w", "x"), ("v", "2")], []⟩ ∧
      (collect (.root [first])).Keyed ∧ (collect (.root [later])).Keyed ∧
      collect (.root [first, later]) = ⟨[("v", "2"), ("w", "x")], [("/p", ⟨"1", "/p"⟩)]⟩ ∧
      collect first =
        merge { refs := [("/p", ⟨"1", "/p"⟩)] } (collect (.root first.children)) ∧
      (forM [[first], [later]] fun part => Registry.add (collect (.root part))) {} =
        (.ok (), { registry := ⟨[("v", "2"), ("w", "x")], [("/p", ⟨"1", "/p"⟩)]⟩ }) := by
  let first := Node.textComponent "Ref" [⟨"url", .text "/p"⟩]
    [.textComponent "SubstitutionReference" [⟨"name", .text "v"⟩] [.text "1"]]
  let later := Node.paragraph
    [.textComponent "SubstitutionReference" [⟨"name", .text "w"⟩] [.text "x"],
      .textComponent "SubstitutionReference" [⟨"name", .text "v"⟩] [.text "2"]]
  have hgives : Contributes first { refs := [("/p", ⟨"1", "/p"⟩)] } :=
    .ref rfl (by decide) rfl
  have hfirst : (collect (.root [first])).Keyed := keyed_collect _
  have hlater : (collect (.root [later])).Keyed := keyed_collect _
  obtain ⟨happend, hown, -, -, -, -, -, -, hparts⟩ :=
    collect_compositional [first] [later] first hfirst hlater {} [[first], [later]] {}
  have hwhole : collect (.root [first, later]) =
      ⟨[("v", "2"), ("w", "x")], [("/p", ⟨"1", "/p"⟩)]⟩ := by
    rw [← List.singleton_append, happend]
    rfl
  refine ⟨first, later, hgives, rfl, rfl, hfirst, hlater, hwhole, hown _ hgives, ?_⟩
  rw [hparts]
  exact congrArg (fun r => (Except.ok (), ({ registry := r } : Workplace))) hwhole

end MdxPages.References
