import Mathlib.Algebra.Order.BigOperators.Group.List
import MdxPages.Proofs.Entries
import MdxPages.Proofs.Frontmatter.Texts
import MdxPages.Yaml.Reader

/-!
# Proofs/Frontmatter/Nodes — from the tokens of metadata to its value
-/

namespace MdxPages.Frontmatter

open Yaml Yaml.Reading

variable {rest : List Token} {handles : Entries String} {fuel : Nat} {place : Yaml.Place}
  {s : String} {more : List String}

/-! ## Nodes

The parser takes fuel from step to step.  The lemmas say how much of it the tokens of a datum need,
and that no more than these tokens is read. -/

/-- The node of a text: in quotes a text, else what its form says. -/
def scalarNode (s : String) : Yaml.Node :=
  .scalar (if standsBare s then Tag.ofPlain s.toList else .text) s

/-- The node of an item: of a dash that stands alone, a list with nothing for its item. -/
def itemNode (s : String) : Yaml.Node :=
  if s = "-" then .list .list [.empty] else scalarNode s

/-- The node of a datum. -/
def Datum.node : Datum → Yaml.Node
  | text s => scalarNode s
  | texts s more => .list .list ((s :: more).map itemNode)

/-- The pair of nodes of a field. -/
def fieldNode (f : String × Datum) : Yaml.Node × Yaml.Node :=
  (.scalar .text f.1, f.2.node)

/-- A text is read as a text, or by its form where it stands bare. -/
theorem node_scalar (s : String) (plain : Bool) :
    node (fuel + 1) place ⟨.scalar s plain :: rest, [], handles⟩ =
      .ok (.scalar (if plain then Tag.ofPlain s.toList else .text) s, ⟨rest, [], handles⟩) := by
  cases plain <;> rfl

/-- An item is read from its tokens, up to the next dash or the end of the block. -/
theorem nodeUnless_item (s : String) :
    nodeUnless (fuel + 4) [.dash, .blockEnd] .block ⟨Datum.itemTokens s ++ rest, [], handles⟩ =
      .ok (itemNode s, ⟨rest, [], handles⟩) := by
  rw [Datum.itemTokens, itemNode]
  split
  · rfl
  · have hscalar : node (fuel + 3) .block ⟨.scalar s (standsBare s) :: rest, [], handles⟩ =
        .ok (scalarNode s, ⟨rest, [], handles⟩) := node_scalar s (standsBare s)
    exact hscalar

/-- **Items are read up to the end of their block.** -/
theorem blockItems_texts (rest : List Token) (handles : Entries String) (fuel : Nat)
    (ss : List String) (h : ss.length + 4 < fuel) :
    blockItems fuel ⟨ss.flatMap (fun s => .dash :: Datum.itemTokens s) ++ .blockEnd :: rest, [],
      handles⟩ = .ok (ss.map itemNode, ⟨rest, [], handles⟩) := by
  induction ss generalizing fuel with
  | nil =>
    obtain ⟨fuel, rfl⟩ : ∃ k, fuel = k + 1 := ⟨fuel - 1, by omega⟩
    rfl
  | cons s ss ih =>
    obtain ⟨fuel, rfl⟩ : ∃ k, fuel = k + 5 := ⟨fuel - 5, by omega⟩
    rw [List.length_cons] at h
    have hmany := ih (fuel + 4) (by omega)
    generalize hmore : ss.flatMap (fun s => Token.dash :: Datum.itemTokens s) ++ .blockEnd :: rest =
      more at hmany
    have htokens : (s :: ss).flatMap (fun s => Token.dash :: Datum.itemTokens s) ++
        .blockEnd :: rest = .dash :: (Datum.itemTokens s ++ more) := by
      simp [← hmore]
    have hstep : blockItems (fuel + 5) ⟨.dash :: (Datum.itemTokens s ++ more), [], handles⟩ =
        (do
          let item ← nodeUnless (fuel + 4) [.dash, .blockEnd] .block
          let items ← blockItems (fuel + 4)
          return item :: items : Reading (List Yaml.Node))
          ⟨Datum.itemTokens s ++ more, [], handles⟩ := rfl
    rw [htokens, hstep]
    simp only [bind, StateT.bind, Except.bind, nodeUnless_item, hmany]
    rfl

/-- **The node of what stands behind a key.** -/
theorem node_datum (rest : List Token) (handles : Entries String) (fuel : Nat) (d : Datum)
    (h : d.strings.length + 5 < fuel) :
    node fuel .pair ⟨d.tokens ++ rest, [], handles⟩ = .ok (d.node, ⟨rest, [], handles⟩) := by
  obtain ⟨fuel, rfl⟩ : ∃ k, fuel = k + 1 := ⟨fuel - 1, by omega⟩
  cases d with
  | text s => exact node_scalar s (standsBare s)
  | texts s more =>
    have hitems := blockItems_texts rest handles fuel (s :: more) (Nat.lt_of_succ_lt_succ h)
    generalize htokens : (s :: more).flatMap (fun s => Token.dash :: Datum.itemTokens s) ++
      .blockEnd :: rest = tokens at hitems
    have hdatum : (Datum.texts s more).tokens ++ rest = .listStart :: tokens := by
      rw [← htokens, Datum.tokens, List.append_assoc]
      rfl
    have hstep : node (fuel + 1) .pair ⟨.listStart :: tokens, [], handles⟩ =
        (blockItems fuel >>= fun items => pure (.list .list items) : Reading Yaml.Node)
          ⟨tokens, [], handles⟩ := rfl
    rw [hdatum, hstep]
    simp only [bind, StateT.bind, Except.bind, hitems]
    rfl

/-- What stands behind a key is read up to the next key. -/
theorem value_datum (rest : List Token) (handles : Entries String) (fuel : Nat) (d : Datum)
    (h : d.strings.length + 5 < fuel) :
    value (fuel + 2) [.key, .value, .blockEnd] .pair ⟨.value :: (d.tokens ++ rest), [], handles⟩ =
      .ok (d.node, ⟨rest, [], handles⟩) := by
  rw [← node_datum rest handles fuel d h]
  cases d <;> rfl

/-- **Fields are read before what follows them.** -/
theorem blockPairs_append (rest : List Token) (handles : Entries String) (fuel : Nat)
    (fields : List (String × Datum)) (hkeys : ∀ f ∈ fields, ReadsAsKey f.1)
    (h : ∀ f ∈ fields, f.2.strings.length + 7 < fuel) :
    blockPairs (fields.length + fuel) ⟨fields.flatMap fieldTokens ++ rest, [], handles⟩ =
      (blockPairs fuel ⟨rest, [], handles⟩).map fun (pairs, supply) =>
        (fields.map fieldNode ++ pairs, supply) := by
  induction fields with
  | nil =>
    rw [List.length_nil, Nat.zero_add, List.flatMap_nil, List.nil_append]
    cases blockPairs fuel ⟨rest, [], handles⟩ <;> rfl
  | cons f fields ih =>
    rw [List.forall_mem_cons] at hkeys h
    have hmany := ih hkeys.2 h.2
    obtain ⟨key, d⟩ := f
    generalize hmore : fields.flatMap fieldTokens ++ rest = more at hmany
    obtain ⟨left, hleft⟩ : ∃ k, fields.length + fuel = k + 2 := ⟨fields.length + fuel - 2, by omega⟩
    rw [hleft] at hmany
    have hlength : ((key, d) :: fields).length + fuel = left + 3 := by
      rw [List.length_cons]
      omega
    have htokens : ((key, d) :: fields).flatMap fieldTokens ++ rest =
        .key :: .scalar key true :: .value :: (d.tokens ++ more) := by
      simp [← hmore, fieldTokens]
    have hvalue := value_datum more handles left d (by
      have hfuel := h.1
      dsimp only at hfuel
      omega)
    obtain ⟨left, rfl⟩ : ∃ k, left = k + 1 := ⟨left - 1, by omega⟩
    have hstep : blockPairs (left + 4)
        ⟨.key :: .scalar key true :: .value :: (d.tokens ++ more), [], handles⟩ =
        (do
          let key ← node (left + 2) .pair
          let value ← value (left + 3) [.key, .value, .blockEnd] .pair
          let pairs ← blockPairs (left + 3)
          return (key, value) :: pairs : Reading (List (Yaml.Node × Yaml.Node)))
          ⟨.scalar key true :: .value :: (d.tokens ++ more), [], handles⟩ := rfl
    rw [hlength, htokens, hstep]
    simp only [bind, StateT.bind, Except.bind, node_scalar, hvalue, hmany, hkeys.1.isText]
    cases blockPairs fuel ⟨rest, [], handles⟩ <;> rfl

/-! ## Metadata

The tokens of a table bound the fuel that is needed to read it, so there is always enough. -/

theorem length_le_flatMap {α β : Type} {f : α → List β} {xs : List α}
    (h : ∀ x ∈ xs, 1 ≤ (f x).length) : xs.length ≤ (xs.flatMap f).length := by
  rw [List.length_flatMap, ← List.length_map fun x => (f x).length]
  exact List.length_le_sum_of_one_le _ (List.forall_mem_map.2 h)

/-- The tokens of all fields are more than the texts of one. -/
theorem strings_length_le {f : String × Datum} {fields : List (String × Datum)} (hf : f ∈ fields) :
    f.2.strings.length + 3 ≤ (fields.flatMap fieldTokens).length := by
  have hfield : f.2.strings.length + 3 ≤ (fieldTokens f).length := by
    obtain ⟨key, d⟩ := f
    cases d with
    | text s => simp [fieldTokens, Datum.tokens, Datum.strings]
    | texts s more =>
      have hitems : (s :: more).length ≤
          ((s :: more).flatMap fun s => .dash :: Datum.itemTokens s).length :=
        length_le_flatMap fun _ _ => Nat.succ_le_succ (Nat.zero_le _)
      simp only [fieldTokens, Datum.tokens, Datum.strings, List.length_append, List.length_cons]
        at hitems ⊢
      omega
  exact hfield.trans (List.sublist_flatten_of_mem (List.mem_map_of_mem hf)).length_le

/-- The node of a table is read from the tokens behind its start. -/
theorem ofTokens?_tableStart (tokens : List Token) :
    Yaml.Node.ofTokens? (.tableStart :: tokens) = (do
      let (pairs, supply) ← blockPairs (4 * tokens.length + 7) ⟨tokens, [], knownHandles⟩
      let (_, supply) ← passEnds (4 * tokens.length + 8) supply
      let _ ← expect .finish supply
      return some (.table .table pairs)) := by
  have hlength : 4 * (Token.tableStart :: tokens).length + 4 = 4 * tokens.length + 7 + 1 := by
    rw [List.length_cons]
    omega
  have hstep (fuel : Nat) :
      (Reading.document (fuel + 1)).run ⟨.tableStart :: tokens, [], knownHandles⟩ =
      (((blockPairs fuel >>= fun pairs => pure (.table .table pairs)) >>=
        fun content => do
          passEnds (fuel + 1)
          expect .finish
          return some content) : Reading (Option Yaml.Node)) ⟨tokens, [], knownHandles⟩ := rfl
  have hpure (n : Yaml.Node) (s : Supply) : (pure n : Reading Yaml.Node) s = .ok (n, s) := rfl
  rw [Yaml.Node.ofTokens?]
  simp only [hlength, hstep]
  simp only [bind, StateT.bind, Except.bind]
  cases blockPairs (4 * tokens.length + 7) ⟨tokens, [], knownHandles⟩ with
  | error p => rfl
  | ok result =>
    simp only [hpure]
    cases passEnds (4 * tokens.length + 7 + 1) result.2 with
    | error p => rfl
    | ok ended =>
      dsimp only
      cases expect .finish ended.2 <;> rfl

/-- The pairs of a table whose tokens start with those of fields. -/
theorem exists_fuel_of_fields (fields : List (String × Datum))
    (hkeys : ∀ f ∈ fields, ReadsAsKey f.1) (rest : List Token) :
    ∃ fuel, 7 ≤ fuel ∧ blockPairs (4 * (fields.flatMap fieldTokens ++ rest).length + 7)
        ⟨fields.flatMap fieldTokens ++ rest, [], knownHandles⟩ =
      (blockPairs fuel ⟨rest, [], knownHandles⟩).map fun (pairs, supply) =>
        (fields.map fieldNode ++ pairs, supply) := by
  have hlength : fields.length ≤ (fields.flatMap fieldTokens).length :=
    length_le_flatMap fun f _ => by simp [fieldTokens]
  rw [List.length_append]
  obtain ⟨fuel, hfuel⟩ : ∃ fuel, 4 * ((fields.flatMap fieldTokens).length + rest.length) + 7 =
    fields.length + fuel := ⟨_, (Nat.add_sub_of_le (by omega)).symm⟩
  refine ⟨fuel, by omega, ?_⟩
  rw [hfuel]
  refine blockPairs_append rest knownHandles fuel fields hkeys fun f hf => ?_
  have hstrings := strings_length_le hf
  omega

/-- **The node of metadata** is the table of its fields. -/
theorem ofTokens?_fields (fields : List (String × Datum)) (hkeys : ∀ f ∈ fields, ReadsAsKey f.1) :
    Yaml.Node.ofTokens? (.tableStart :: fields.flatMap fieldTokens ++ [.blockEnd, .finish]) =
      .ok (some (.table .table (fields.map fieldNode))) := by
  obtain ⟨fuel, hfuel, hpairs⟩ := exists_fuel_of_fields fields hkeys [.blockEnd, .finish]
  obtain ⟨fuel, rfl⟩ : ∃ k, fuel = k + 1 := ⟨fuel - 1, by omega⟩
  have hend : blockPairs (fuel + 1) ⟨[.blockEnd, .finish], [], knownHandles⟩ =
      .ok ([], ⟨[.finish], [], knownHandles⟩) := rfl
  rw [List.cons_append, ofTokens?_tableStart, hpairs, hend]
  simp only [Except.map, List.append_nil]
  rfl

/-- **A problem behind a key** is one of the whole text. -/
theorem ofTokens?_broken (fields : List (String × Datum)) (hkeys : ∀ f ∈ fields, ReadsAsKey f.1)
    (key : String) (p : Problem) :
    Yaml.Node.ofTokens? (.tableStart :: fields.flatMap fieldTokens ++
      [.key, .scalar key true, .value, .broken p]) = .error p := by
  obtain ⟨fuel, hfuel, hpairs⟩ :=
    exists_fuel_of_fields fields hkeys [.key, .scalar key true, .value, .broken p]
  obtain ⟨fuel, rfl⟩ : ∃ k, fuel = k + 4 := ⟨fuel - 4, by omega⟩
  have hbroken : blockPairs (fuel + 4)
      ⟨[.key, .scalar key true, .value, .broken p], [], knownHandles⟩ = .error p := rfl
  rw [List.cons_append, ofTokens?_tableStart, hpairs, hbroken, Except.map]
  rfl

end MdxPages.Frontmatter
