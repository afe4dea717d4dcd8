import MdxPages.Yaml.Plain

/-!
# Yaml/Block — scalars that are blocks of lines

A literal scalar keeps its lines, a folded one folds those that start with no blank.  Its margin is
that of its first line, or is told in its header.
-/

namespace MdxPages.Yaml

open MdxPages.Text

/-- What happens to the line ends at the end of a block scalar: all are dropped, one is kept, or all
are kept. -/
inductive Chomping
  | strip
  | clip
  | keep
deriving DecidableEq, Repr

/-- The header of a block scalar: how its end is treated, and its margin if that is told. -/
structure BlockHeader where
  chomping : Chomping := .clip
  margin : Option Nat := none
deriving Repr

/-- Read the header of a block scalar up to its first blank. -/
def readHeader? (h : BlockHeader) : List Char → Option (BlockHeader × List Char)
  | [] => some (h, [])
  | c :: cs =>
    if c = '-' ∧ h.chomping = .clip then readHeader? { h with chomping := .strip } cs
    else if c = '+' ∧ h.chomping = .clip then readHeader? { h with chomping := .keep } cs
    else if c.isDigit ∧ c ≠ '0' ∧ h.margin = none then
      readHeader? { h with margin := some (c.toNat - 48) } cs
    else if endsEntry (c :: cs) then some (h, c :: cs)
    else none

/-- The width of the widest margin up to the first line that is not blank; `width` blanks of a line
lie before, `widest` is the width of the widest margin before. -/
def widestMargin (width widest : Nat) : List Char → Nat
  | [] => widest
  | c :: cs =>
    if c = ' ' then widestMargin (width + 1) (max widest (width + 1)) cs
    else if isBreak c then widestMargin 0 widest cs
    else widest

/-- Whether a line starts with something that is no blank. -/
def startsVisibly (cs : List Char) : Bool :=
  !startsWithAny isBlankChar cs

/-- What the end of a block scalar stands for: the end of its last line, and the ends of blank lines
behind it. -/
def Chomping.tail (chomping : Chomping) (ending breaks : List Char) : List Char :=
  match chomping with
  | .strip => []
  | .clip => ending
  | .keep => ending ++ breaks

/-- The text of a block scalar from a line on that stands behind blank lines, and what follows its
last margin; `fuel` bounds the number of lines. -/
def blockText (fold : Bool) (chomping : Chomping) (width : Nat) :
    (fuel : Nat) → (before : Margin) → List Char × List Char
  | 0, before => ([], before.rest)
  | fuel + 1, before =>
    let line := before.rest.takeWhile fun c => !isBreak c
    let ended := before.rest.drop line.length
    let ending := (ended.take 1).map breakChar
    let next := takeMargin (some width) 0 (ended.drop 1)
    if next.width = width ∧ next.rest ≠ [] then
      let folds := fold && ending == ['\n'] && startsVisibly line && startsVisibly next.rest
      let joint := if !folds then ending else if next.breaks.isEmpty then [' '] else []
      let (text, rest) := blockText fold chomping width fuel next
      (before.breaks ++ line ++ joint ++ text, rest)
    else (before.breaks ++ line ++ chomping.tail ending next.breaks, next.rest)

/-- A block scalar whose margin is at least `least` wide, and what follows it; the text starts
behind its mark. -/
def readBlock? (fold : Bool) (least : Nat) (cs : List Char) : Option (List Char × List Char) := do
  let (header, rest) ← readHeader? {} cs
  let lines ← skipLine? rest
  let width := match header.margin with
    | some n => least + n - 1
    | none => max least (widestMargin 0 0 lines)
  let first := takeMargin (header.margin.map fun _ => width) 0 lines
  if first.width = width ∧ first.rest ≠ [] then
    return blockText fold header.chomping width lines.length first
  else return (header.chomping.tail [] first.breaks, first.rest)

end MdxPages.Yaml
