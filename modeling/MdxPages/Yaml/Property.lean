import MdxPages.Bytes.Basic
import MdxPages.Yaml.Cursor

/-!
# Yaml/Property — anchors and tags as they are written before a node

An anchor names a node, a tag says what kind of value it is.  A tag is a handle, which the document
explains, with a suffix, or it stands as it is between angle brackets.
-/

namespace MdxPages.Yaml

open MdxPages.Text

/-- The characters of names. -/
def isNameChar (c : Char) : Bool :=
  c.isAlphanum || c == '-' || c == '_'

/-- What may follow the name of an anchor, but for the end of a word. -/
def isAnchorEnd (c : Char) : Bool :=
  "?:,]\x7d%@".toList.contains c || c == Char.ofNat 96

/-- The name of an anchor and what follows it. -/
def readAnchor? (cs : List Char) : Option (String × List Char) :=
  let name := cs.takeWhile isNameChar
  let rest := cs.drop name.length
  if !name.isEmpty && (endsWord rest || startsWithAny isAnchorEnd rest) then
    some (String.ofList name, rest)
  else none

/-- The characters of the suffixes of tags. -/
def isSuffixChar (c : Char) : Bool :=
  isNameChar c || "-;/?:@&=+$,_.!~*'()[]%".toList.contains c

/-- The bytes that escapes in a row stand for, and what follows them. -/
def takeEscapes? : List Char → Option (List UInt8 × List Char)
  | '%' :: a :: b :: cs => do
    let high ← hexValue? a
    let low ← hexValue? b
    let (bytes, rest) ← takeEscapes? cs
    return (UInt8.ofNat (16 * high + low) :: bytes, rest)
  | '%' :: _ => none
  | cs => some ([], cs)

/-- The characters of a suffix and what follows them; `fuel` bounds their number. -/
def takeSuffix? : (fuel : Nat) → List Char → Option (List Char × List Char)
  | 0, cs => some ([], cs)
  | fuel + 1, cs =>
    match cs with
    | [] => some ([], [])
    | '%' :: _ => do
      let (bytes, rest) ← takeEscapes? cs
      let text ← Bytes.text? bytes
      let (more, rest) ← takeSuffix? fuel rest
      return (text.toList ++ more, rest)
    | c :: cs => do
      if isSuffixChar c then
        let (more, rest) ← takeSuffix? fuel cs
        return (c :: more, rest)
      else return ([], c :: cs)

/-- A suffix, which is not empty, and what follows it. -/
def readSuffix? (cs : List Char) : Option (String × List Char) := do
  let (suffix, rest) ← takeSuffix? cs.length cs
  if suffix.isEmpty then none else return (String.ofList suffix, rest)

/-- A tag as it is written: a handle and a suffix, or a whole tag. -/
structure WrittenTag where
  handle : Option String
  suffix : String
deriving DecidableEq, Repr

/-- The handle of tags without a name. -/
def primaryHandle : String := "!"

/-- A handle with a name, which ends in another mark; the text starts behind the first one. -/
def readHandle? (cs : List Char) : Option (String × List Char) :=
  let name := cs.takeWhile isNameChar
  match cs.drop name.length with
  | '!' :: rest => some ("!" ++ String.ofList name ++ "!", rest)
  | _ => none

/-- A tag behind its mark, before what it has to be followed by. -/
def takeTag? (cs : List Char) : Option (WrittenTag × List Char) := do
  match cs with
  | '<' :: cs =>
    let (suffix, rest) ← readSuffix? cs
    return (⟨none, suffix⟩, ← after? '>' rest)
  | cs =>
    if endsWord cs then return (⟨none, primaryHandle⟩, cs)
    else
      let (handle, rest) ←
        if (cs.takeWhile fun c => !endsEntry [c]).contains '!' then readHandle? cs
        else some (primaryHandle, cs)
      let (suffix, rest) ← readSuffix? rest
      return (⟨some handle, suffix⟩, rest)

/-- A tag behind its mark, and what follows it. -/
def readTag? (cs : List Char) : Option (WrittenTag × List Char) := do
  let (tag, rest) ← takeTag? cs
  if endsEntry rest then return (tag, rest) else none

end MdxPages.Yaml
