/-!
# Entries — finite maps that remember the order of their keys

A list of pairs in the order in which the keys were first put.  `put` overwrites in place or
appends, so a key never moves; `merge` puts the entries of the right map into the left one.
-/

namespace MdxPages

/-- Values by key, in the order in which the keys were first put. -/
abbrev Entries (α : Type) := List (String × α)

namespace Entries

variable {α : Type}

/-- The value at a key. -/
def get? (key : String) : Entries α → Option α
  | [] => none
  | (k, v) :: rest => if k = key then some v else get? key rest

/-- Set the value at a key: in place if the key is present, at the end otherwise. -/
def put (key : String) (value : α) : Entries α → Entries α
  | [] => [(key, value)]
  | (k, v) :: rest => if k = key then (k, value) :: rest else (k, v) :: put key value rest

/-- Put all entries of `right` into `left`, in their order. -/
def merge (left right : Entries α) : Entries α :=
  right.foldl (fun entries (key, value) => entries.put key value) left

/-- The map that a list of pairs denotes: a later pair overwrites an earlier one of its key. -/
def ofList (pairs : List (String × α)) : Entries α :=
  merge [] pairs

/-- The keys in order. -/
def keys (entries : Entries α) : List String :=
  entries.map Prod.fst

/-- Whether a key is present. -/
def has (key : String) (entries : Entries α) : Bool :=
  (entries.get? key).isSome

theorem get?_put_self (key : String) (value : α) :
    ∀ entries : Entries α, (entries.put key value).get? key = some value
  | [] => by simp [put, get?]
  | (k, v) :: rest => by
    by_cases h : k = key
    · simp [put, get?, h]
    · simp [put, get?, h, get?_put_self key value rest]

theorem get?_put_of_ne {key other : String} (value : α) (h : other ≠ key) :
    ∀ entries : Entries α, (entries.put key value).get? other = entries.get? other
  | [] => by simp [put, get?, h.symm]
  | (k, v) :: rest => by
    by_cases hk : k = key
    · subst hk
      simp [put, get?, h.symm]
    · by_cases ho : k = other
      · simp [put, get?, ho, h]
      · simp [put, get?, hk, ho, get?_put_of_ne value h rest]

/-- **A key never moves**: putting keeps the list of keys, or appends the new key. -/
theorem keys_put (key : String) (value : α) :
    ∀ entries : Entries α,
      (entries.put key value).keys =
        if key ∈ entries.keys then entries.keys else entries.keys ++ [key]
  | [] => by simp [put, keys]
  | (k, v) :: rest => by
    by_cases h : k = key
    · simp [put, keys, h]
    · have ih := keys_put key value rest
      simp only [keys] at ih
      simp only [put, keys, h, if_false, List.map_cons, List.mem_cons, ih]
      by_cases hm : key ∈ rest.map Prod.fst
      · simp [hm]
      · simp [hm, Ne.symm h]

end Entries

end MdxPages
