import MdxPages.Proofs.Entries
import MdxPages.Proofs.Results
import MdxPages.Yaml.Denotation

/-!
# Proofs/Yaml/Denotation — the values of texts, lists and tables

What scalars, lists and tables of texts stand for, and that nothing but the node of a text stands
for a text.
-/

namespace MdxPages.Yaml

variable {α β : Type} {tag : Tag} {fuel level : Nat} {s : String} {t : Tree} {v : Value}

/-! ## Results -/

namespace Leveled

/-- **All results are there exactly if each of them is.** -/
theorem all_map_eq_ok_iff [Inhabited β] {f : α → Leveled β} {xs : List α} {ys : List β} :
    all (xs.map f) = .ok ys ↔ ∃ g : α → β, (∀ x ∈ xs, f x = .ok (g x)) ∧ ys = xs.map g := by
  constructor
  · intro h
    refine ⟨fun x => (f x).toOption.getD default, ?_⟩
    induction xs generalizing ys with
    | nil => exact ⟨by simp, (Except.ok.inj h).symm⟩
    | cons x xs ih =>
      rw [List.map_cons, all] at h
      cases hx : f x with
      | error p => cases hxs : all (xs.map f) <;> simp [hx, hxs, both, Except.map] at h
      | ok y =>
        cases hxs : all (xs.map f) with
        | error p => simp [hx, hxs, both, Except.map] at h
        | ok ys' =>
          obtain ⟨hall, hmap⟩ := ih hxs
          obtain rfl : y :: ys' = ys := by simpa [hx, hxs, both, Except.map] using h
          rw [List.forall_mem_cons]
          refine ⟨⟨by simp [hx, Except.toOption], hall⟩, ?_⟩
          rw [List.map_cons, hx, ← hmap]
          rfl
  · rintro ⟨g, hall, rfl⟩
    induction xs with
    | nil => rfl
    | cons x xs ih =>
      rw [List.forall_mem_cons] at hall
      rw [List.map_cons, all, ih hall.2, hall.1]
      rfl

end Leveled

/-! ## Scalars

The form of a plain scalar decides its tag, and the tag how it is read. -/

/-- A truth value is no text. -/
theorem truthOf_ne_str (text : String) : truthOf text ≠ .ok (.str s) := by
  simp only [truthOf]
  split
  · simp
  · split <;> simp

/-- A number is none. -/
theorem intOf_ne_str (text : String) : intOf text ≠ .ok (.str s) := by
  intro h
  rw [intOf] at h
  obtain ⟨⟨negative, unsigned⟩, -, h⟩ := exists_of_bind h
  obtain ⟨i, -, h⟩ := exists_of_bind h
  cases h

theorem floatOf_ne_str (text : String) : floatOf text ≠ .ok (.str s) := by
  intro h
  rw [floatOf] at h
  obtain ⟨⟨negative, unsigned⟩, -, h⟩ := exists_of_bind h
  obtain ⟨x, -, h⟩ := exists_of_bind h
  cases h

theorem binaryOf_ne_str (text : String) : binaryOf text ≠ .ok (.str s) := by
  unfold binaryOf
  split
  · cases Bytes.ofBase64? text.toList <;> simp [Problem.orMalformed]
  · simp

theorem WrittenMoment.value?_ne_str (m : WrittenMoment) : m.value? ≠ some (.str s) := by
  unfold WrittenMoment.value?
  dsimp only
  repeat' split
  all_goals simp [Value.ofDate, Value.ofDateTime]

/-- A moment is none, even where it is shown as one. -/
theorem momentOf_ne_str (text : String) : momentOf text ≠ .ok (.str s) := by
  unfold momentOf
  split
  · simp
  · next m _ =>
    split
    · next v hv =>
      rintro ⟨⟩
      exact m.value?_ne_str hv
    · simp

/-- **Only texts are read as texts**, whatever is written. -/
theorem tag_of_scalarValue {node : Node} (h : scalarValue tag node = .ok (.str s)) :
    tag = .text := by
  rw [scalarValue] at h
  obtain ⟨text, -, h⟩ := exists_of_bind h
  cases tag with
  | text => rfl
  | bool => exact absurd h (truthOf_ne_str text)
  | int => exact absurd h (intOf_ne_str text)
  | float => exact absurd h (floatOf_ne_str text)
  | binary => exact absurd h (binaryOf_ne_str text)
  | moment =>
    dsimp only at h
    split at h
    · exact absurd h (momentOf_ne_str text)
    · cases h
  | _ => cases h

/-- The node of a text stands for the text. -/
theorem denote_text : (Node.scalar .text s).denote (fuel + 1) level = .ok (.scalar (.str s)) := rfl

/-- Nothing but the node of a text stands for a text. -/
theorem tag_of_denote {text : String} (h : (Node.scalar tag text).denote fuel level = .ok t)
    (ht : t.toValue = .str s) : tag = .text := by
  cases fuel with
  | zero => cases h
  | succ fuel =>
    have hscalar (h : Leveled.ofLevel level ((scalarValue tag (.scalar tag text)).map Tree.scalar) =
        .ok t) : tag = .text := by
      cases hvalue : scalarValue tag (.scalar tag text) with
      | error p =>
        rw [hvalue] at h
        cases h
      | ok v =>
        rw [hvalue] at h
        obtain rfl : Tree.scalar v = t := Except.ok.inj h
        obtain rfl : v = .str s := ht
        exact tag_of_scalarValue hvalue
    cases tag with
    | list | table | set | pairs => cases h
    | _ => exact hscalar h

/-! ## Lists and tables

A table may have a key twice, or merge others.  Those of texts have neither. -/

theorem map_eq_ok_iff {ε : Type} {e : Except ε α} {f : α → β} {b : β} :
    e.map f = .ok b ↔ ∃ a, e = .ok a ∧ f a = b := by
  cases e <;> simp [Except.map]

theorem mapError_eq_ok_iff {ε ε' : Type} {e : Except ε α} {f : ε → ε'} {a : α} :
    e.mapError f = .ok a ↔ e = .ok a := by
  cases e with
  | ok b => exact ⟨fun h => congrArg Except.ok (Except.ok.inj h), fun h => h ▸ rfl⟩
  | error p => exact iff_of_false (fun h => nomatch h) fun h => nomatch h

/-- The items of a list have values of their own. -/
theorem toValues_eq_map (ts : List Tree) : Tree.toValues ts = ts.map Tree.toValue := by
  induction ts with
  | nil => rfl
  | cons t ts ih => rw [Tree.toValues, ih, List.map_cons]

/-- **A list stands for what its items stand for.** -/
theorem denote_list_iff {items : List α} {node : α → Node} :
    (Node.list .list (items.map node)).denote (fuel + 1) level = .ok t ↔
      ∃ tree : α → Tree, (∀ x ∈ items, (node x).denote fuel (level + 1) = .ok (tree x)) ∧
        t = .list (items.map tree) := by
  have hstep : (Node.list .list (items.map node)).denote (fuel + 1) level =
      (Leveled.all ((items.map node).map (Node.denote fuel (level + 1)))).map Tree.list := rfl
  rw [hstep, List.map_map, map_eq_ok_iff]
  constructor
  · rintro ⟨ts, hall, rfl⟩
    obtain ⟨tree, htree, rfl⟩ := Leveled.all_map_eq_ok_iff.1 hall
    exact ⟨tree, htree, rfl⟩
  · rintro ⟨tree, htree, rfl⟩
    exact ⟨_, Leveled.all_map_eq_ok_iff.2 ⟨tree, htree, rfl⟩, rfl⟩

/-- The pairs of nodes of fields, whose keys are texts. -/
def textPairs (fields : List (String × α)) (node : α → Node) : List (Node × Node) :=
  fields.map fun f => (.scalar .text f.1, node f.2)

/-- A table of texts has nothing to merge. -/
theorem mergedPairs_textPairs (fields : List (String × α)) (node : α → Node) :
    (Node.table .table (textPairs fields node)).mergedPairs = .ok (textPairs fields node) := by
  have hsplit : Node.splitPairs (textPairs fields node) = .ok ([], textPairs fields node) := by
    induction fields with
    | nil => rfl
    | cons f fields ih =>
      rw [textPairs, List.map_cons, Node.splitPairs, if_neg (by simp [Node.tag]), ← textPairs, ih]
      rfl
  rw [Node.mergedPairs, Node.allPairs, hsplit]
  rfl

/-- **A table stands for what its fields stand for.** -/
theorem denote_table_iff {fields : List (String × α)} {node : α → Node} :
    (Node.table .table (textPairs fields node)).denote (fuel + 1) level = .ok t ↔
      ∃ tree : String × α → Tree,
        (∀ f ∈ fields, (node f.2).denote fuel (level + 1) = .ok (tree f)) ∧
        t = Tree.ofPairs (fields.map fun f => (⟨.str f.1⟩, tree f)) := by
  have hstep : (Node.table .table (textPairs fields node)).denote (fuel + 1) level =
      (Leveled.ofLevel (level + 1) (Node.table .table (textPairs fields node)).mergedPairs >>=
        fun pairs => (Leveled.all (pairs.map fun pair =>
          Leveled.both (Leveled.ofLevel (level + 1) pair.1.key)
            (pair.2.denote fuel (level + 1)))).map Tree.ofPairs) := rfl
  have hpair (f : String × α) :
      Leveled.both (Leveled.ofLevel (level + 1) (Node.scalar .text f.1).key)
        ((node f.2).denote fuel (level + 1)) =
      ((node f.2).denote fuel (level + 1)).map fun t => (⟨.str f.1⟩, t) := by
    cases (node f.2).denote fuel (level + 1) <;> rfl
  have hall : (textPairs fields node).map (fun pair =>
      Leveled.both (Leveled.ofLevel (level + 1) pair.1.key) (pair.2.denote fuel (level + 1))) =
      fields.map fun f => ((node f.2).denote fuel (level + 1)).map fun t => (⟨.str f.1⟩, t) := by
    rw [textPairs, List.map_map]
    exact List.map_congr_left fun f _ => hpair f
  rw [hstep, mergedPairs_textPairs]
  change (Leveled.all _).map _ = _ ↔ _
  rw [hall, map_eq_ok_iff]
  constructor
  · rintro ⟨pairs, hpairs, rfl⟩
    obtain ⟨pair, hpair, rfl⟩ := Leveled.all_map_eq_ok_iff.1 hpairs
    have hsplit : ∀ f ∈ fields, (node f.2).denote fuel (level + 1) = .ok (pair f).2 ∧
        pair f = (⟨.str f.1⟩, (pair f).2) := by
      intro f hf
      obtain ⟨t, ht, hpair⟩ := map_eq_ok_iff.1 (hpair f hf)
      rw [← hpair]
      exact ⟨ht, rfl⟩
    exact ⟨fun f => (pair f).2, fun f hf => (hsplit f hf).1,
      congrArg Tree.ofPairs (List.map_congr_left fun f hf => (hsplit f hf).2)⟩
  · rintro ⟨tree, htree, rfl⟩
    exact ⟨_, Leveled.all_map_eq_ok_iff.2
      ⟨fun f => (⟨.str f.1⟩, tree f), fun f hf => by rw [htree f hf]; rfl, rfl⟩, rfl⟩

/-- Pairs of other keys stay where they are. -/
theorem putPair_of_notMem {names : List (String × Tree)} (h : s ∉ names.map Prod.fst) :
    Tree.putPair ⟨.str s⟩ t (names.map fun f => (⟨.str f.1⟩, f.2)) =
      (names ++ [(s, t)]).map fun f => (⟨.str f.1⟩, f.2) := by
  induction names with
  | nil => rfl
  | cons f names ih =>
    rw [List.map_cons, List.mem_cons, not_or] at h
    have hsame : Key.same ⟨.str f.1⟩ ⟨.str s⟩ = false := by
      simpa [Key.same, Value.number?, Value.num?] using Ne.symm h.1
    rw [List.map_cons, Tree.putPair, hsame, if_neg (by simp), ih h.2]
    rfl

theorem toPairs_eq_map (pairs : List (Key × Tree)) :
    Tree.toPairs pairs = pairs.map fun p => (p.1, p.2.toValue) := by
  induction pairs with
  | nil => rfl
  | cons p pairs ih => rw [Tree.toPairs, ih, List.map_cons]

/-- A table whose keys are texts is an object. -/
theorem toValue_textKeys (pairs : List (String × Value)) :
    Pairs.toValue (pairs.map fun f => (⟨.str f.1⟩, f.2)) = .obj (Entries.ofList pairs) := by
  have htexts : (pairs.map fun f => (Key.mk (.str f.1), f.2)).all (fun p => p.1.isText) = true :=
    List.all_eq_true.2 fun p hp => by
      obtain ⟨f, -, rfl⟩ := List.mem_map.1 hp
      rfl
  rw [Pairs.toValue, if_pos htexts, Pairs.fields, List.map_map]
  exact congrArg (fun fs => Value.obj (Entries.ofList fs)) (List.map_id pairs)

/-- **The value of a table** whose keys are distinct texts has the values of its nodes. -/
theorem toValue_ofPairs (pairs : List (String × Tree)) (h : (pairs.map Prod.fst).Nodup) :
    (Tree.ofPairs (pairs.map fun f => (⟨.str f.1⟩, f.2))).toValue =
      .obj (pairs.map fun f => (f.1, f.2.toValue)) := by
  have hput (xs ys : List (String × Tree)) (h : ((xs ++ ys).map Prod.fst).Nodup) :
      (ys.map fun f => (Key.mk (.str f.1), f.2)).foldl (fun ps p => Tree.putPair p.1 p.2 ps)
        (xs.map fun f => (⟨.str f.1⟩, f.2)) = (xs ++ ys).map fun f => (⟨.str f.1⟩, f.2) := by
    induction ys generalizing xs with
    | nil => rw [List.append_nil]; rfl
    | cons y ys ih =>
      have hy : y.1 ∉ xs.map Prod.fst := by
        rw [List.map_append, List.map_cons, List.nodup_append] at h
        exact fun hmem => h.2.2 _ hmem _ List.mem_cons_self rfl
      have hsplit : xs ++ y :: ys = (xs ++ [y]) ++ ys := by simp
      rw [hsplit] at h ⊢
      rw [← ih _ h, ← putPair_of_notMem hy]
      rfl
  have htable := hput [] pairs h
  rw [List.map_nil, List.nil_append] at htable
  have hvalues : Tree.toPairs (pairs.map fun f => (⟨.str f.1⟩, f.2)) =
      (pairs.map fun f => (f.1, f.2.toValue)).map fun f => (⟨.str f.1⟩, f.2) := by
    rw [toPairs_eq_map, List.map_map, List.map_map]
    rfl
  have hkeys : (Entries.keys (pairs.map fun f => (f.1, f.2.toValue))).Nodup := by
    rwa [Entries.keys, List.map_map]
  rw [Tree.ofPairs, htable, Tree.toValue, hvalues, toValue_textKeys, Entries.ofList_eq_self hkeys]

end MdxPages.Yaml
