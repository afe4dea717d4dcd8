import MdxPages.Entries

/-!
# Proofs/Entries — what merging leaves behind

The keys of a merged map are distinct if those of the left one are (`nodup_keys_merge`), and under
each key stands what was put there last (`get?_merge`).  Merging is associative, in the order of
the keys as well (`merge_merge`).
-/

namespace MdxPages.Entries

variable {α : Type} {key : String} {value : α}

theorem merge_cons (left right : Entries α) (entry : String × α) :
    left.merge (entry :: right) = (left.put entry.1 entry.2).merge right := rfl

/-- Merging entries one after the other is merging them all. -/
theorem merge_append (left xs ys : Entries α) :
    left.merge (xs ++ ys) = (left.merge xs).merge ys := List.foldl_append

/-! ## Keys

An update keeps the key where it is, and a new key goes behind all others. -/

/-- Putting a value makes no key stand twice. -/
theorem nodup_keys_put {entries : Entries α} (h : entries.keys.Nodup) :
    (entries.put key value).keys.Nodup := by
  rw [keys_put]
  split
  · exact h
  · next hk => simpa [List.nodup_append] using ⟨h, fun a ha heq => hk (heq ▸ ha)⟩

/-- A merged map has no key twice if the left one has none. -/
theorem nodup_keys_merge {left : Entries α} (h : left.keys.Nodup) (right : Entries α) :
    (left.merge right).keys.Nodup := by
  induction right generalizing left with
  | nil => exact h
  | cons entry right ih => exact ih (nodup_keys_put h)

/-- A map has no key twice. -/
theorem nodup_keys_ofList (pairs : List (String × α)) : (ofList pairs).keys.Nodup := by
  have h : (keys ([] : Entries α)).Nodup := List.nodup_nil
  exact nodup_keys_merge h pairs

/-- Putting keeps all keys in their places. -/
theorem keys_prefix_put (entries : Entries α) : entries.keys <+: (entries.put key value).keys := by
  rw [keys_put]
  split
  · exact List.prefix_refl _
  · exact List.prefix_append _ _

/-- **Merging keeps all keys of the left map in their places**: new ones come after them. -/
theorem keys_prefix_merge (left right : Entries α) : left.keys <+: (left.merge right).keys := by
  induction right generalizing left with
  | nil => exact List.prefix_refl _
  | cons entry right ih => exact (keys_prefix_put left).trans (ih _)

/-- **New keys come in the order in which they are first met**, after those of the left map. -/
theorem keys_merge (left right : Entries α) :
    (left.merge right).keys = left.keys ++ ((keys right).removeAll left.keys).eraseDups := by
  induction right generalizing left with
  | nil => simp [merge, keys]
  | cons entry right ih =>
    obtain ⟨k, v⟩ := entry
    have hkeys : keys ((k, v) :: right) = k :: keys right := rfl
    rw [merge_cons, ih, keys_put, hkeys, List.cons_removeAll]
    by_cases h : k ∈ left.keys
    · simp [h]
    · have hrest : (keys right).removeAll (left.keys ++ [k]) =
          ((keys right).removeAll left.keys).filter fun key => !key == k := by
        rw [List.removeAll, List.removeAll, List.filter_filter]
        exact List.filter_congr fun key _ => by simp [← Bool.beq_eq_decide_eq, Bool.and_comm]
      simp [h, hrest, List.eraseDups_cons]

theorem eraseDups_eq_self {ks : List String} (h : ks.Nodup) : ks.eraseDups = ks := by
  induction ks with
  | nil => rfl
  | cons k ks ih =>
    rw [List.nodup_cons] at h
    have hrest : ks.filter (fun key => !key == k) = ks := by
      refine List.filter_eq_self.2 fun key hkey => ?_
      have hne : key ≠ k := fun heq => h.1 (heq ▸ hkey)
      simp [hne]
    rw [List.eraseDups_cons, hrest, ih h.2]

/-- The new keys come in their order if none of them stands twice. -/
theorem keys_merge_of_nodup (left : Entries α) {right : Entries α} (h : right.keys.Nodup) :
    (left.merge right).keys = left.keys ++ right.keys.removeAll left.keys := by
  have hnew : (right.keys.removeAll left.keys).Nodup := h.filter _
  rw [keys_merge, eraseDups_eq_self hnew]

/-- The keys of a map are those of the pairs that it is made of, each where it is first met. -/
theorem keys_ofList (pairs : List (String × α)) :
    (ofList pairs).keys = (keys pairs).eraseDups := by
  have hnone : (keys pairs).removeAll [] = keys pairs :=
    List.filter_eq_self.2 fun _ _ => rfl
  rw [ofList, keys_merge]
  exact congrArg List.eraseDups hnone

/-- A map has the keys of all pairs that it is made of. -/
theorem mem_keys_ofList {pairs : List (String × α)} (h : key ∈ keys pairs) :
    key ∈ (ofList pairs).keys := by
  rw [keys_ofList]
  exact List.mem_eraseDups.2 h

/-- A new key comes last. -/
theorem put_of_notMem {entries : Entries α} (h : key ∉ entries.keys) :
    entries.put key value = entries ++ [(key, value)] := by
  induction entries with
  | nil => rfl
  | cons entry rest ih =>
    rw [keys, List.map_cons, List.mem_cons, not_or] at h
    rw [put, if_neg (Ne.symm h.1), ih h.2, List.cons_append]

/-- Maps without a key in common are merged by putting one behind the other. -/
theorem merge_eq_append {left right : Entries α} (h : (keys (left ++ right)).Nodup) :
    left.merge right = left ++ right := by
  induction right generalizing left with
  | nil => exact (List.append_nil left).symm
  | cons entry right ih =>
    have hsplit : left ++ entry :: right = (left ++ [entry]) ++ right := by simp
    have hkey : entry.1 ∉ left.keys := by
      rw [keys, List.map_append, List.map_cons, List.nodup_append] at h
      exact fun hmem => h.2.2 _ hmem _ List.mem_cons_self rfl
    rw [hsplit] at h ⊢
    rw [merge_cons, put_of_notMem hkey, ih h]

/-- Pairs of distinct keys are the map that they denote. -/
theorem ofList_eq_self {pairs : List (String × α)} (h : (keys pairs).Nodup) :
    ofList pairs = pairs :=
  merge_eq_append h

/-! ## Entries -/

/-- After a value is put, the entries are that one and those from before. -/
theorem mem_put {entries : Entries α} {entry : String × α} (h : entry ∈ entries.put key value) :
    entry = (key, value) ∨ entry ∈ entries := by
  induction entries with
  | nil => exact .inl (List.mem_singleton.1 h)
  | cons first rest ih =>
    rw [put] at h
    split at h
    · next hk =>
      obtain h | h := List.mem_cons.1 h
      · exact .inl (hk ▸ h)
      · exact .inr (List.mem_cons_of_mem _ h)
    · obtain h | h := List.mem_cons.1 h
      · exact .inr (h ▸ List.mem_cons_self)
      · exact (ih h).imp_right (List.mem_cons_of_mem _)

/-- A merged map has entries of the two maps only. -/
theorem mem_merge {left right : Entries α} {entry : String × α} (h : entry ∈ left.merge right) :
    entry ∈ left ∨ entry ∈ right := by
  induction right generalizing left with
  | nil => exact .inl h
  | cons next right ih =>
    obtain h | h := ih h
    · obtain h | h := mem_put h
      · exact .inr (h ▸ List.mem_cons_self)
      · exact .inl h
    · exact .inr (List.mem_cons_of_mem _ h)

/-- A map has no entry but the pairs that it was made of. -/
theorem mem_of_mem_ofList {pairs : List (String × α)} {entry : String × α}
    (h : entry ∈ ofList pairs) : entry ∈ pairs :=
  (mem_merge h).resolve_left List.not_mem_nil

/-! ## Merging more than two

Putting a value under a key commutes with putting one under another key, as long as the first is
there already.  That is why merging is associative, with the order of keys. -/

/-- What is put under a key again replaces what was put there. -/
theorem put_put_self (entries : Entries α) (key : String) (first value : α) :
    (entries.put key first).put key value = entries.put key value := by
  induction entries with
  | nil => simp [put]
  | cons entry rest ih =>
    by_cases hkey : entry.1 = key
    · simp [put, hkey]
    · simp [put, hkey, ih]

/-- A key that is there keeps its place, so another one may be put before or after it. -/
theorem put_put_of_ne {entries : Entries α} {other : String} {v : α} (hkey : key ∈ entries.keys)
    (hne : key ≠ other) :
    (entries.put other v).put key value = (entries.put key value).put other v := by
  induction entries with
  | nil => cases hkey
  | cons entry rest ih =>
    obtain ⟨k, v₀⟩ := entry
    by_cases hk : k = key
    · subst hk
      simp [put, hne]
    · have hrest : key ∈ keys rest := (List.mem_cons.1 hkey).resolve_left (Ne.symm hk)
      by_cases ho : k = other
      · simp [put, ho, hne.symm]
      · simp [put, hk, ho, ih hrest]

/-- What is put under a key that is there may be put before entries of other keys are merged. -/
theorem put_merge {left right : Entries α} (hkey : key ∈ left.keys) (hother : key ∉ right.keys) :
    (left.merge right).put key value = (left.put key value).merge right := by
  induction right generalizing left with
  | nil => rfl
  | cons entry right ih =>
    rw [keys, List.map_cons, List.mem_cons, not_or] at hother
    rw [merge_cons, merge_cons, ih ((keys_prefix_put left).subset hkey) hother.2,
      put_put_of_ne hkey hother.1]

/-- A value put on the right is put after merging. -/
theorem merge_put {right : Entries α} (left : Entries α) (h : right.keys.Nodup) :
    left.merge (right.put key value) = (left.merge right).put key value := by
  induction right generalizing left with
  | nil => rfl
  | cons entry right ih =>
    obtain ⟨k, v⟩ := entry
    rw [keys, List.map_cons, List.nodup_cons] at h
    by_cases hk : k = key
    · subst hk
      have hmem : k ∈ (left.put k v).keys := by
        rw [keys_put]
        split
        · next hleft => exact hleft
        · simp
      rw [put, if_pos rfl, merge_cons, merge_cons, put_merge hmem h.1, put_put_self]
    · rw [put, if_neg hk, merge_cons, merge_cons, ih _ h.2]

/-- **Merging is associative**, in the order of the keys as well. -/
theorem merge_merge (left : Entries α) {right : Entries α} (h : right.keys.Nodup)
    (third : Entries α) : left.merge (right.merge third) = (left.merge right).merge third := by
  induction third generalizing right with
  | nil => rfl
  | cons entry third ih => rw [merge_cons, merge_cons, ih (nodup_keys_put h), merge_put left h]

/-- It does not matter whether pairs are made a map before they are merged. -/
theorem merge_ofList (left : Entries α) (pairs : List (String × α)) :
    left.merge (ofList pairs) = left.merge pairs := by
  have hnone : (keys ([] : Entries α)).Nodup := List.nodup_nil
  rw [ofList, merge_merge left hnone]
  rfl

/-- Pairs in sequence denote the map of the first merged with that of the rest. -/
theorem ofList_append (xs ys : List (String × α)) :
    ofList (xs ++ ys) = (ofList xs).merge (ofList ys) := by
  rw [merge_ofList, ofList, merge_append]
  rfl

/-! ## Lookup

A map may hold a key twice, where it was made of pairs.  Looking up takes the first entry, and
merging puts the later ones over it. -/

/-- Of entries in sequence the first that fits is found. -/
theorem get?_append (key : String) (xs ys : Entries α) :
    (xs ++ ys).get? key = (xs.get? key).or (ys.get? key) := by
  induction xs with
  | nil => rfl
  | cons entry xs ih =>
    rw [List.cons_append, get?, get?]
    split
    · rfl
    · exact ih

/-- Under its key a new value is found, and under another one what was there. -/
theorem get?_put (entries : Entries α) (entry : String × α) :
    (entries.put entry.1 entry.2).get? key = (get? key [entry]).or (entries.get? key) := by
  by_cases h : entry.1 = key
  · rw [← h, get?_put_self]
    simp [get?]
  · rw [get?_put_of_ne _ (Ne.symm h)]
    simp [get?, h]

/-- **The last entry of a key wins**: the last one on the right, if there is any there. -/
theorem get?_merge (key : String) (left right : Entries α) :
    (left.merge right).get? key = (get? key right.reverse).or (left.get? key) := by
  induction right generalizing left with
  | nil => rfl
  | cons entry right ih =>
    rw [merge_cons, ih, get?_put, List.reverse_cons, get?_append, Option.or_assoc]

/-- In a map made of pairs the last one of a key is found. -/
theorem get?_ofList (key : String) (pairs : List (String × α)) :
    (ofList pairs).get? key = get? key pairs.reverse := by
  rw [ofList, get?_merge]
  exact Option.or_none

theorem get?_eq_none {entries : Entries α} (h : ∀ entry ∈ entries, entry.1 ≠ key) :
    entries.get? key = none := by
  induction entries with
  | nil => rfl
  | cons entry rest ih =>
    rw [get?, if_neg (h entry List.mem_cons_self)]
    exact ih fun other hother => h other (List.mem_cons_of_mem _ hother)

theorem get?_eq_none_of_notMem {entries : Entries α} (h : key ∉ entries.keys) :
    entries.get? key = none :=
  get?_eq_none fun _ he heq => h (List.mem_map.2 ⟨_, he, heq⟩)

/-- Looking up and changing values can be done in either order. -/
theorem get?_map {β : Type} (f : α → β) (entries : Entries α) :
    get? key (entries.map fun e => (e.1, f e.2)) = (entries.get? key).map f := by
  induction entries with
  | nil => rfl
  | cons entry rest ih =>
    rw [List.map_cons, get?, get?]
    split
    · rfl
    · exact ih

theorem keys_filterMap_sublist {β : Type} (name : β → String) (f : β → Option α) (xs : List β) :
    (keys (xs.filterMap fun x => (f x).map fun v => (name x, v))).Sublist (xs.map name) := by
  induction xs with
  | nil => exact .slnil
  | cons x xs ih =>
    rw [List.filterMap_cons]
    cases f x with
    | none => exact ih.cons _
    | some v => exact ih.cons_cons _

/-- Among values under distinct names each is found under its own. -/
theorem get?_filterMap {β : Type} {name : β → String} {f : β → Option α} {xs : List β} {x : β}
    (hnodup : (xs.map name).Nodup) (hx : x ∈ xs) :
    get? (name x) (xs.filterMap fun y => (f y).map fun v => (name y, v)) = f x := by
  induction xs with
  | nil => cases hx
  | cons y xs ih =>
    rw [List.map_cons, List.nodup_cons] at hnodup
    obtain rfl | hx := List.mem_cons.1 hx
    · cases hf : f x with
      | some v => simp [hf, get?]
      | none =>
        rw [List.filterMap_cons_none (by simp [hf])]
        refine get?_eq_none fun entry hentry hname => hnodup.1 ?_
        obtain ⟨y, hy, hentry⟩ := List.mem_filterMap.1 hentry
        obtain ⟨v, -, rfl⟩ := Option.map_eq_some_iff.1 hentry
        exact hname ▸ List.mem_map_of_mem hy
    · have hne : name y ≠ name x := fun heq => hnodup.1 (heq ▸ List.mem_map_of_mem hx)
      cases hf : f y with
      | some v =>
        rw [List.filterMap_cons_some (by simp [hf]; rfl), get?, if_neg hne]
        exact ih hnodup.2 hx
      | none =>
        rw [List.filterMap_cons_none (by simp [hf])]
        exact ih hnodup.2 hx

/-- Where no key stands twice, a value is found exactly if it is there. -/
theorem get?_eq_some_iff {entries : Entries α} (h : entries.keys.Nodup) :
    entries.get? key = some value ↔ (key, value) ∈ entries := by
  induction entries with
  | nil => simp [get?]
  | cons entry rest ih =>
    obtain ⟨k, v⟩ := entry
    rw [keys, List.map_cons, List.nodup_cons] at h
    rw [get?, List.mem_cons, Prod.mk.injEq]
    split
    · next hk =>
      subst hk
      have hrest : (k, value) ∉ rest :=
        fun hmem => h.1 (List.mem_map.2 ⟨_, hmem, rfl⟩)
      simp [hrest, eq_comm]
    · next hk => simp [ih h.2, Ne.symm hk]

theorem mem_of_get? {entries : Entries α} (h : entries.get? key = some value) :
    (key, value) ∈ entries := by
  induction entries with
  | nil => cases h
  | cons entry rest ih =>
    obtain ⟨k, v⟩ := entry
    rw [get?] at h
    split at h
    · next hk =>
      obtain rfl := Option.some.inj h
      exact hk ▸ List.mem_cons_self
    · exact List.mem_cons_of_mem _ (ih h)

/-- The order of entries does not matter where no key stands twice. -/
theorem get?_of_perm {xs ys : Entries α} (h : xs.keys.Nodup) (hperm : xs.Perm ys) :
    xs.get? key = ys.get? key := by
  have hys : ys.keys.Nodup := (hperm.map Prod.fst).nodup_iff.1 h
  refine Option.ext fun v => ?_
  rw [get?_eq_some_iff h, get?_eq_some_iff hys, hperm.mem_iff]

/-- What is merged wins where it has no key twice. -/
theorem get?_merge_of_nodup {right : Entries α} (key : String) (left : Entries α)
    (h : right.keys.Nodup) :
    (left.merge right).get? key = (right.get? key).or (left.get? key) := by
  rw [get?_merge, ← get?_of_perm h right.reverse_perm.symm]

/-- Of the elements of a list that satisfy a condition, one is the last. -/
theorem exists_last {β : Type} {p : β → Prop} {xs : List β} (h : ∃ x ∈ xs, p x) :
    ∃ earlier last later, xs = earlier ++ last :: later ∧ p last ∧ ∀ x ∈ later, ¬ p x := by
  induction xs with
  | nil =>
    obtain ⟨x, hx, -⟩ := h
    cases hx
  | cons y xs ih =>
    by_cases hlater : ∃ x ∈ xs, p x
    · obtain ⟨earlier, last, later, rfl, hlast⟩ := ih hlater
      exact ⟨y :: earlier, last, later, rfl, hlast⟩
    · have hnone : ∀ x ∈ xs, ¬ p x := fun x hx hp => hlater ⟨x, hx, hp⟩
      obtain ⟨x, hx, hp⟩ := h
      obtain rfl | hx := List.mem_cons.1 hx
      · exact ⟨[], x, xs, rfl, hp, hnone⟩
      · exact absurd hp (hnone x hx)

/-- The last pair of a key is the one that is found. -/
theorem get?_ofList_of_last {xs ys : List (String × α)} (h : ∀ entry ∈ ys, entry.1 ≠ key) :
    (ofList (xs ++ (key, value) :: ys)).get? key = some value := by
  have hlater : get? key ys.reverse = none :=
    get?_eq_none fun entry hentry => h entry (List.mem_reverse.1 hentry)
  rw [get?_ofList, List.reverse_append, List.reverse_cons, List.append_assoc, get?_append, hlater,
    Option.none_or, List.singleton_append, get?, if_pos rfl]

end MdxPages.Entries
