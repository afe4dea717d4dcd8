import MdxPages.Frontmatter

/-!
# Proofs/Frontmatter/Layout — what the columns of a block say

A reader that knows nothing of scalars: it sees `key: scalar`, `key:` before a deeper block, and
items behind dashes, several of which may stand on one line.  A line is a row of marks with their
columns, and a block goes on as long as marks stand in the column of its first one.
-/

namespace MdxPages.Frontmatter

/-! ## Outlines

What a value says without the forms of its scalars.  Nulls are not written, and lists that hold
nothing else are left out with them. -/

/-- What a reader sees that leaves scalars as they are written. -/
inductive Outline
  | scalar (text : String)
  | list (items : List Outline)
  | table (fields : List (String × Outline))
deriving Repr, Inhabited

/-- What stands behind a key or a dash: an empty list, an empty table, or a scalar. -/
def Outline.ofText (text : String) : Outline :=
  if text = "[]" then .list []
  else if text = "\x7b\x7d" then .table []
  else .scalar text

mutual

/-- The outline of a value without its nulls, and without the lists and mappings that are left with
nothing; those that are empty from the start stay. -/
def pruned? : Value → Option Outline
  | .null => none
  | .str s => some (.scalar (scalarText s))
  | .bool b => some (.scalar (if b then "true" else "false"))
  | .num n => some (.scalar n.plainText)
  | .foreign x => some (.scalar (foreignText x))
  | .arr [] => some (.list [])
  | .arr (v :: vs) =>
    let items := prunedItems (v :: vs)
    if items.isEmpty then none else some (.list items)
  | .obj [] => some (.table [])
  | .obj (f :: fs) =>
    let fields := prunedFields (f :: fs)
    if fields.isEmpty then none else some (.table fields)

/-- The outlines of the items of a list. -/
def prunedItems : List Value → List Outline
  | [] => []
  | v :: vs => (pruned? v).toList ++ prunedItems vs

/-- The outlines of the fields of a mapping. -/
def prunedFields : List (String × Value) → List (String × Outline)
  | [] => []
  | (key, v) :: fs => (pruned? v).toList.map (key, ·) ++ prunedFields fs

end

mutual

/-- The keys at all levels of a value. -/
def keysOf : Value → List String
  | .arr vs => keysOfItems vs
  | .obj fs => keysOfFields fs
  | _ => []

/-- The keys at all levels of the items of a list. -/
def keysOfItems : List Value → List String
  | [] => []
  | v :: vs => keysOf v ++ keysOfItems vs

/-- The keys at all levels of the fields of a mapping. -/
def keysOfFields : List (String × Value) → List String
  | [] => []
  | (key, v) :: fs => key :: keysOf v ++ keysOfFields fs

end

/-- A key that a reader takes for one: plain characters, and at least one of them. -/
def IsKey (key : String) : Prop :=
  key ≠ "" ∧ ∀ c ∈ key.toList, isPlain c = true

instance (key : String) : Decidable (IsKey key) :=
  decidable_of_iff (key ≠ "" ∧ key.toList.all isPlain = true) (by simp [IsKey])

/-! ## Marks

A mark is taken from the front of a line as long as there is a dash or a key before a deeper block.
-/

/-- What a line says: a dash before a block, an item that is a scalar, a key before a block, or a
field that is a scalar. -/
inductive Mark
  | dash
  | item (text : String)
  | key (name : String)
  | field (name text : String)
  | unknown
deriving DecidableEq, Repr

/-- The key that a line starts with, and the scalar behind it. -/
def fieldMark? (cs : List Char) : Option Mark :=
  let name := cs.takeWhile isPlain
  if name.isEmpty then none
  else
    match cs.drop name.length with
    | [':'] => some (.key (String.ofList name))
    | ':' :: ' ' :: text => some (.field (String.ofList name) (String.ofList text))
    | _ => none

/-- Whether a block starts behind a dash, and no scalar. -/
def opensBlock : List Char → Bool
  | '-' :: ' ' :: _ => true
  | cs => (fieldMark? cs).isSome

/-- The marks of a line from a column on. -/
def marksFrom (column : Nat) : List Char → List (Nat × Mark)
  | '-' :: ' ' :: cs =>
    if opensBlock cs then (column, .dash) :: marksFrom (column + 2) cs
    else [(column, .item (String.ofList cs))]
  | cs => [(column, (fieldMark? cs).getD .unknown)]

/-- The marks of a line, each with its column. -/
def lineMarks (line : String) : List (Nat × Mark) :=
  marksFrom (marginOf line) (line.toList.drop (marginOf line))

/-! ## Reading

The reader goes through the marks of all lines.  What stands deeper than the column belongs to the
entry above it. -/

mutual

/-- The block at the first mark, and the marks behind it; `fuel` bounds the marks that are read. -/
def readBlock? : (fuel : Nat) → List (Nat × Mark) → Option (Outline × List (Nat × Mark))
  | 0, _ => none
  | fuel + 1, marks =>
    match marks with
    | (column, .dash) :: _ | (column, .item _) :: _ => do
      let (items, rest) ← readItems? fuel column marks
      return (.list items, rest)
    | (column, .key _) :: _ | (column, .field _ _) :: _ => do
      let (fields, rest) ← readFields? fuel column marks
      return (.table fields, rest)
    | _ => none

/-- The block at the first mark if it is deeper than a column. -/
def readInner? : (fuel : Nat) → (column : Nat) → List (Nat × Mark) →
    Option (Outline × List (Nat × Mark))
  | 0, _, _ => none
  | fuel + 1, column, marks =>
    if marks.head?.any (column < ·.1) then readBlock? fuel marks else none

/-- The items in a column. -/
def readItems? : (fuel : Nat) → (column : Nat) → List (Nat × Mark) →
    Option (List Outline × List (Nat × Mark))
  | 0, _, _ => none
  | fuel + 1, column, marks =>
    match marks with
    | [] => some ([], [])
    | (c, mark) :: rest =>
      if c ≠ column then some ([], marks)
      else
        match mark with
        | .item text => do
          let (items, rest) ← readItems? fuel column rest
          return (.ofText text :: items, rest)
        | .dash => do
          let (item, rest) ← readInner? fuel column rest
          let (items, rest) ← readItems? fuel column rest
          return (item :: items, rest)
        | _ => none

/-- The fields in a column. -/
def readFields? : (fuel : Nat) → (column : Nat) → List (Nat × Mark) →
    Option (List (String × Outline) × List (Nat × Mark))
  | 0, _, _ => none
  | fuel + 1, column, marks =>
    match marks with
    | [] => some ([], [])
    | (c, mark) :: rest =>
      if c ≠ column then some ([], marks)
      else
        match mark with
        | .field name text => do
          let (fields, rest) ← readFields? fuel column rest
          return ((name, .ofText text) :: fields, rest)
        | .key name => do
          let (value, rest) ← readInner? fuel column rest
          let (fields, rest) ← readFields? fuel column rest
          return ((name, value) :: fields, rest)
        | _ => none

end

/-- The table that a text holds, if all of it belongs to one; an empty text holds an empty one. -/
def readOutline? (text : String) : Option Outline :=
  if text.isEmpty then some (.table [])
  else
    let marks := (Text.split '\n' text).flatMap lineMarks
    match readFields? (3 * marks.length + 1) 0 marks with
    | some (fields, []) => some (.table fields)
    | _ => none

end MdxPages.Frontmatter
