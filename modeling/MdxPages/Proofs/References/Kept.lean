import MdxPages.Proofs.Entries
import MdxPages.Proofs.References.Module

/-!
# Proofs/References/Kept — what a module keeps of a registry

Of a registry whose references stand under their own URLs a module keeps every entry, its text cut
to the greatest length (`parse_render_eq_kept`), and what it keeps is such a registry again.  Its
text holds no carriage return and no half of a surrogate pair.
-/

namespace MdxPages

/-- A target whose title is cut to the greatest length. -/
def RefTarget.cut (t : RefTarget) : RefTarget :=
  ⟨References.cutText t.title, t.url⟩

/-- A title that has been cut stays as it is. -/
theorem RefTarget.cut_cut (t : RefTarget) : t.cut.cut = t.cut := by
  rw [cut, cut, References.cutText_cutText]

namespace References

variable {r left right : References}

/-- No key stands twice, and each reference stands under its own URL, which is not too long to be
kept. -/
structure WellKeyed (r : References) : Prop where
  names : r.substitutions.keys.Nodup
  urls : r.refs.keys.Nodup
  own : ∀ e ∈ r.refs, e.2.url = e.1 ∧ e.1.toList.length ≤ maxLength

/-- No key stands twice. -/
structure Keyed (r : References) : Prop where
  names : r.substitutions.keys.Nodup
  urls : r.refs.keys.Nodup

/-- Such a registry has no key twice. -/
theorem WellKeyed.keyed (h : r.WellKeyed) : r.Keyed :=
  ⟨h.names, h.urls⟩

/-- A merged registry has no key twice if the left one has none. -/
theorem Keyed.merge (hleft : left.Keyed) (right : References) : (left.merge right).Keyed where
  names := Entries.nodup_keys_merge hleft.names _
  urls := Entries.nodup_keys_merge hleft.urls _

/-- Merging into nothing changes nothing. -/
theorem Keyed.empty_merge (h : r.Keyed) : References.merge {} r = r :=
  congr (congrArg References.mk (Entries.ofList_eq_self h.names)) (Entries.ofList_eq_self h.urls)

/-- In a merged registry each reference stands under its own URL if that is so in both. -/
theorem WellKeyed.merge (hleft : left.WellKeyed) (hright : right.WellKeyed) :
    (left.merge right).WellKeyed where
  names := Entries.nodup_keys_merge hleft.names _
  urls := Entries.nodup_keys_merge hleft.urls _
  own e he := (Entries.mem_merge he).elim (hleft.own e) (hright.own e)

/-- No literal of a merged registry is mistaken for code if none of the two is. -/
theorem Unmistakable.merge (hleft : left.Unmistakable) (hright : right.Unmistakable) :
    (left.merge right).Unmistakable where
  name e he := (Entries.mem_merge he).elim (hleft.name e) (hright.name e)
  text e he := (Entries.mem_merge he).elim (hleft.text e) (hright.text e)
  url e he := (Entries.mem_merge he).elim (hleft.url e) (hright.url e)
  title e he := (Entries.mem_merge he).elim (hleft.title e) (hright.title e)

theorem empty_merge (h : r.WellKeyed) : merge {} r = r :=
  h.keyed.empty_merge

/-- What a module keeps of a registry. -/
def kept (r : References) : References :=
  ⟨(sorted r.substitutions).map fun e => (e.1, cutText e.2),
    (sorted r.refs).map fun e => (e.1, e.2.cut)⟩

theorem keys_sorted {α : Type} {entries : Entries α} (h : entries.keys.Nodup) :
    (sorted entries).keys.Nodup :=
  ((List.mergeSort_perm entries _).map Prod.fst).nodup_iff.2 h

/-- Sorting moves no value to another key. -/
theorem get?_sorted {α : Type} {entries : Entries α} (h : entries.keys.Nodup) (key : String) :
    (sorted entries).get? key = entries.get? key :=
  (Entries.get?_of_perm h (List.mergeSort_perm entries _).symm).symm

/-- What a module keeps is well keyed. -/
theorem WellKeyed.kept (h : r.WellKeyed) : r.kept.WellKeyed where
  names := by
    have hkeys := keys_sorted h.names
    simpa [Entries.keys, References.kept, Function.comp_def] using hkeys
  urls := by
    have hkeys := keys_sorted h.urls
    simpa [Entries.keys, References.kept, Function.comp_def] using hkeys
  own e he := by
    obtain ⟨e, hmem, rfl⟩ := List.mem_map.1 he
    exact h.own e (mem_sorted.1 hmem)

/-- Cutting makes no literal look like code. -/
theorem Unmistakable.kept (h : r.Unmistakable) : r.kept.Unmistakable where
  name e he := by
    obtain ⟨e, hmem, rfl⟩ := List.mem_map.1 he
    exact h.name e (mem_sorted.1 hmem)
  text e he := by
    obtain ⟨e, hmem, rfl⟩ := List.mem_map.1 he
    simpa [Harmless, Unopening, encode_cutText] using h.text e (mem_sorted.1 hmem)
  url e he := by
    obtain ⟨e, hmem, rfl⟩ := List.mem_map.1 he
    exact h.url e (mem_sorted.1 hmem)
  title e he := by
    obtain ⟨e, hmem, rfl⟩ := List.mem_map.1 he
    simpa [Harmless, RefTarget.cut, encode_cutText] using h.title e (mem_sorted.1 hmem)

/-- **A module keeps the registry that it was written from**, its texts cut. -/
theorem parse_render_eq_kept (hkeys : r.WellKeyed) (h : r.Unmistakable) :
    parse (render r) = r.kept := by
  have hrefs : (sorted r.refs).map (fun e => (cutText e.1,
      (⟨cutText e.2.title, cutText e.1⟩ : RefTarget))) = r.kept.refs := by
    refine List.map_congr_left fun e he => ?_
    obtain ⟨hurl, hlength⟩ := hkeys.own e (mem_sorted.1 he)
    rw [cutText_of_length_le hlength, RefTarget.cut, hurl]
  have hnames : Entries.ofList ((sorted r.substitutions).map fun e => (e.1, cutText e.2)) =
      r.kept.substitutions :=
    Entries.ofList_eq_self hkeys.kept.names
  rw [parse_render h, hrefs, hnames, Entries.ofList_eq_self hkeys.kept.urls]

/-- A name stands for its text, which is cut. -/
theorem get?_substitutions_kept (h : r.WellKeyed) (name : String) :
    r.kept.substitutions.get? name = (r.substitutions.get? name).map cutText := by
  rw [kept, Entries.get?_map, get?_sorted h.names]

/-- A URL stands for its target, with the title cut. -/
theorem get?_refs_kept (h : r.WellKeyed) (url : String) :
    r.kept.refs.get? url = (r.refs.get? url).map RefTarget.cut := by
  rw [kept, Entries.get?_map, get?_sorted h.urls]

theorem map_or_map {α : Type} {f : α → α} (hf : ∀ v, f (f v) = f v) (x y : Option α) :
    (x.or (y.map f)).map f = (x.or y).map f := by
  cases x <;> cases y <;> simp [hf]

/-- In what a module keeps of two collections, the entries of the second win. -/
theorem get?_substitutions_kept_merge (hleft : left.WellKeyed) (hright : right.WellKeyed)
    (name : String) :
    (left.merge right).kept.substitutions.get? name =
      ((right.substitutions.get? name).or (left.substitutions.get? name)).map cutText := by
  rw [get?_substitutions_kept (hleft.merge hright)]
  exact congrArg _ (Entries.get?_merge_of_nodup _ _ hright.names)

/-- …and the same of the references. -/
theorem get?_refs_kept_merge (hleft : left.WellKeyed) (hright : right.WellKeyed) (url : String) :
    (left.merge right).kept.refs.get? url =
      ((right.refs.get? url).or (left.refs.get? url)).map RefTarget.cut := by
  rw [get?_refs_kept (hleft.merge hright)]
  exact congrArg _ (Entries.get?_merge_of_nodup _ _ hright.urls)

/-! ## What a module is made of

A module is put together from its literals and from plain text around them.  What holds of both, and
of texts that are put together from such texts, holds of the module. -/

section

variable {P : List Char → Prop}

/-- What holds of texts and of what stands between them holds of the joined text. -/
theorem forall_intercalate (happend : ∀ {cs ds}, P cs → P ds → P (cs ++ ds)) (hnil : P [])
    {separator : List Char} (hseparator : P separator) {lines : List (List Char)}
    (h : ∀ line ∈ lines, P line) : P (separator.intercalate lines) := by
  induction lines with
  | nil => exact hnil
  | cons line lines ih =>
    rw [List.forall_mem_cons] at h
    cases lines with
    | nil => simpa using h.1
    | cons next lines =>
      rw [List.intercalate_cons_cons]
      exact happend (happend h.1 hseparator) (ih h.2)

/-- What holds of the literals and of plain text holds of the module. -/
theorem forall_render (happend : ∀ {cs ds}, P cs → P ds → P (cs ++ ds))
    (hplain : ∀ cs, '\\' ∉ cs → '\r' ∉ cs → P cs) (hquote : ∀ s, P (Json.quote s).toList)
    (hencode : ∀ s, P (encode s).toList) (r : References) : P (render r).toList := by
  have hword (s : String) (h : '\\' ∉ s.toList ∧ '\r' ∉ s.toList) : P s.toList :=
    hplain _ h.1 h.2
  have hbreak : P ['\n'] := hword "\n" (by decide)
  have hobject (name : String) {lines : List String} (hname : P name.toList)
      (h : ∀ line ∈ lines, P line.toList) : P (exportObject name lines).toList := by
    have hlines : P (['\n'].intercalate (lines.map String.toList)) :=
      forall_intercalate happend (hword "" (by decide)) hbreak (by simpa using h)
    have hinside : P (inside lines) := happend hbreak (happend hlines hbreak)
    rw [toList_exportObject]
    have hopening := happend (happend (hword "export const " (by decide)) hname)
      (hword " = \x7b" (by decide))
    exact happend (happend hopening hinside) (hword _ (by decide))
  have hsubstitution (name text : String) : P (substitutionLine name text).toList := by
    simp only [substitutionLine, String.toList_append]
    have hkey := happend (hword "    " (by decide)) (hquote name)
    have htext := happend (happend hkey (hword ": " (by decide))) (hencode text)
    exact happend htext (hword _ (by decide))
  have href (url : String) (target : RefTarget) : P (refLine url target).toList := by
    simp only [refLine, String.toList_append]
    have hkey := happend (hword "    " (by decide)) (hencode url)
    have htitle :=
      happend (happend hkey (hword ": \x7b title: " (by decide))) (hencode target.title)
    have hurl := happend (happend htitle (hword ", url: " (by decide))) (hencode url)
    exact happend hurl (hword _ (by decide))
  have hsubstitutions := hobject "substitutions" (hword _ (by decide))
    (List.forall_mem_map.2 fun e (_ : e ∈ sorted r.substitutions) => hsubstitution e.1 e.2)
  have hrefs := hobject "refs" (hword _ (by decide))
    (List.forall_mem_map.2 fun e (_ : e ∈ sorted r.refs) => href e.1 e.2)
  rw [toList_render]
  exact happend hsubstitutions (happend hrefs (hword _ (by decide)))

end

/-- A module holds no carriage return. -/
theorem return_notMem_render (r : References) : '\r' ∉ (render r).toList :=
  forall_render (P := ('\r' ∉ ·)) (fun hcs hds => by simp [hcs, hds]) (fun _ _ h => h)
    return_notMem_quote return_notMem_encode r

/-- A module escapes no half of a surrogate pair. -/
theorem escapesHalf_render (r : References) : escapesHalf (render r).toList = false := by
  have h := forall_render EscapesNoHalf.append (fun _ h _ => .of_notMem h) escapesNoHalf_quote
    escapesNoHalf_encode r []
  rwa [List.append_nil] at h

end References

end MdxPages
