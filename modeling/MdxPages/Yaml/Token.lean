import MdxPages.Fault
import MdxPages.Yaml.Property

/-!
# Yaml/Token — the directives and tokens of a YAML text

A directive says something about a document before it starts.  Beside what is written there are
tokens for what the columns say: the start and the end of a block, and a key before the first word
of a pair.
-/

namespace MdxPages.Yaml

open MdxPages.Text

/-- What is said about a document: the version of its format, of which the first number matters, or
what a handle of tags stands for.  Anything else has no meaning. -/
inductive Directive
  | version (major : Nat)
  | handle (name start : String)
  | other
deriving DecidableEq, Repr

/-- A number in digits and what follows it. -/
def readCount? (cs : List Char) : Option (Nat × List Char) :=
  let ds := cs.takeWhile Char.isDigit
  if ds.isEmpty then none else some (numberInBase 10 ds, cs.drop ds.length)

/-- The version that a document names. -/
def readVersion? (cs : List Char) : Option (Directive × List Char) := do
  let (major, rest) ← readCount? (cs.dropWhile (· == ' '))
  let (_, rest) ← readCount? (← after? '.' rest)
  if endsEntry rest then return (.version major, rest) else none

/-- A handle of tags and what it stands for. -/
def readHandleMeaning? (cs : List Char) : Option (Directive × List Char) := do
  let rest ← after? '!' (cs.dropWhile (· == ' '))
  let (name, rest) ←
    if startsWithAny (· == ' ') rest then some (primaryHandle, rest) else readHandle? rest
  let rest ← after? ' ' rest
  let (start, rest) ← readSuffix? (rest.dropWhile (· == ' '))
  if endsEntry rest then return (.handle name start, rest) else none

/-- A directive behind its mark, and the lines that follow. -/
def readDirective? (cs : List Char) : Option (Directive × List Char) := do
  let name := cs.takeWhile isNameChar
  let rest := cs.drop name.length
  if name.isEmpty || !endsEntry rest then none
  else
    let (directive, rest) ←
      if name = "YAML".toList then readVersion? rest
      else if name = "TAG".toList then readHandleMeaning? rest
      else some (.other, rest.dropWhile fun c => !isBreak c)
    return (directive, ← skipLine? rest)

/-- A token.  The last one says that the text ends, or what is wrong with its rest. -/
inductive Token
  | directive (d : Directive)
  | documentStart
  | documentEnd
  | listStart
  | tableStart
  | blockEnd
  | openBracket
  | closeBracket
  | openBrace
  | closeBrace
  | comma
  | dash
  | key
  | value
  | alias (name : String)
  | anchor (name : String)
  | tag (t : WrittenTag)
  | scalar (text : String) (plain : Bool)
  | finish
  | broken (p : Problem)
deriving DecidableEq, Repr

end MdxPages.Yaml
