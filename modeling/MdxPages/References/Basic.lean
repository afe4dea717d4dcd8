import MdxPages.Tree.Content

/-!
# References/Basic — substitutions and cross-references of pages

Pages keep components in the place of substitutions and cross-references.  What these stand for is
gathered in document order; later entries overwrite earlier ones of the same key, in place.
-/

namespace MdxPages

/-- What a cross-reference leads to. -/
structure RefTarget where
  title : String
  url : String
deriving DecidableEq, Repr, Inhabited

/-- Substitutions by name and targets by URL. -/
structure References where
  substitutions : Entries String := []
  refs : Entries RefTarget := []
deriving Repr, Inhabited

namespace References

/-- Whether nothing has been gathered. -/
def isEmpty (r : References) : Bool :=
  r.substitutions.isEmpty && r.refs.isEmpty

/-- Two collections in one; entries of the second win. -/
def merge (base add : References) : References :=
  ⟨Entries.merge base.substitutions add.substitutions, Entries.merge base.refs add.refs⟩

/-- The literal text of an attribute, empty if it is missing or no literal. -/
def literal (name : String) (attributes : List Attribute) : String :=
  match Node.attribute? name attributes with
  | some (.text s) => s
  | _ => ""

/-- The substitution that a node is, if it has a name and a text. -/
def substitutionOf? : Node → Option (String × String)
  | .textComponent "SubstitutionReference" attributes cs =>
    let name := literal "name" attributes
    let text := Node.plainTexts "" cs
    if name.isEmpty || text.isEmpty then none else some (name, text)
  | _ => none

/-- The target that a node names, titled by its text or else by its URL. -/
def refOf? : Node → Option (String × RefTarget)
  | .textComponent "Ref" attributes cs =>
    let url := literal "url" attributes
    let text := Node.plainTexts "" cs
    if url.isEmpty then none else some (url, ⟨if text.isEmpty then url else text, url⟩)
  | _ => none

/-- The references of a tree. -/
def collect (tree : Node) : References :=
  ⟨Entries.ofList (tree.preorder.filterMap substitutionOf?),
    Entries.ofList (tree.preorder.filterMap refOf?)⟩

end References

end MdxPages
