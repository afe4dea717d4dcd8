import MdxPages.Disk.Location

/-!
# Disk/Basic — files, folders and links by place

A disk is a finite map from places to what stands there.  A place is the list of names from the
root, without `..` and without links on the way; the root itself is always a folder.  `put` changes
one place and no other, which is what every statement about who writes where leans on.
-/

namespace MdxPages

/-- What stands at a place. -/
inductive Item
  | file (bytes : List UInt8)
  | link (target : String)
  | folder
deriving DecidableEq, Repr, Inhabited

/-- Names from the root. -/
abbrev Place := List String

/-- What stands at which place, below the root. -/
structure Disk where
  items : List (Place × Item) := []
deriving DecidableEq, Repr, Inhabited

namespace Disk

/-- The item of the first entry at a place. -/
def itemAt? (place : Place) : List (Place × Item) → Option Item
  | [] => none
  | (p, item) :: rest => if p = place then some item else itemAt? place rest

/-- Put an item at a place, over what stood there. -/
def putItem (place : Place) (item : Item) : List (Place × Item) → List (Place × Item)
  | [] => [(place, item)]
  | (p, old) :: rest =>
    if p = place then (p, item) :: rest else (p, old) :: putItem place item rest

/-- What stands at a place. -/
def at? (d : Disk) (place : Place) : Option Item :=
  match place with
  | [] => some .folder
  | _ :: _ => itemAt? place d.items

/-- The disk with an item at a place. -/
def put (d : Disk) (place : Place) (item : Item) : Disk :=
  ⟨putItem place item d.items⟩

/-- The disk without a place and all below it. -/
def remove (d : Disk) (place : Place) : Disk :=
  ⟨d.items.filter fun (p, _) => !place.isPrefixOf p⟩

theorem itemAt?_putItem_self (place : Place) (item : Item) :
    ∀ items, itemAt? place (putItem place item items) = some item
  | [] => by simp [putItem, itemAt?]
  | (p, old) :: rest => by
    by_cases h : p = place
    · simp [putItem, itemAt?, h]
    · simp [putItem, itemAt?, h, itemAt?_putItem_self place item rest]

theorem itemAt?_putItem_of_ne {place other : Place} (item : Item) (h : other ≠ place) :
    ∀ items, itemAt? other (putItem place item items) = itemAt? other items
  | [] => by simp [putItem, itemAt?, h.symm]
  | (p, old) :: rest => by
    by_cases hp : p = place
    · subst hp
      simp [putItem, itemAt?, h.symm]
    · by_cases ho : p = other
      · simp [putItem, itemAt?, ho, h]
      · simp [putItem, itemAt?, hp, ho, itemAt?_putItem_of_ne item h rest]

@[simp] theorem at?_root (d : Disk) : d.at? [] = some .folder := rfl

theorem at?_put_self (d : Disk) (item : Item) {place : Place} (h : place ≠ []) :
    (d.put place item).at? place = some item := by
  cases place with
  | nil => exact absurd rfl h
  | cons name names => exact itemAt?_putItem_self _ item d.items

/-- **Putting changes one place only.** -/
theorem at?_put_of_ne (d : Disk) (item : Item) {place other : Place} (h : other ≠ place) :
    (d.put place item).at? other = d.at? other := by
  cases other with
  | nil => rfl
  | cons name names => exact itemAt?_putItem_of_ne item h d.items

end Disk

end MdxPages
