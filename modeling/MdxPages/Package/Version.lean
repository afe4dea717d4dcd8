import MdxPages.Fault
import MdxPages.Text.Case
import MdxPages.Text.Search
import MdxPages.Text.Space

/-!
# Package/Version — version numbers of packages and their order

A version has an epoch, release numbers, and marks for pre-releases, post-releases, development
releases and local builds.  Reading is lenient in case, separators and the spelling of the marks;
the order compares epoch and release first, then puts `dev` before `a`, `b`, `rc`, the release
itself, and `post`.
-/

namespace MdxPages.Package

/-- A part of a local build label. -/
inductive LocalPart
  | word (s : String)
  | number (n : Nat)
deriving DecidableEq, Repr

/-- A version number. -/
structure Version where
  epoch : Nat
  release : List Nat
  pre : Option (String × Nat)
  post : Option Nat
  dev : Option Nat
  localLabel : List LocalPart
deriving DecidableEq, Repr

namespace Version

/-- The digits at the start of a text as a number, if there are any, and the rest. -/
def takeNumber (cs : List Char) : Option Nat × List Char :=
  match cs.takeWhile Char.isDigit with
  | [] => (none, cs)
  | ds => (some (ds.foldl (fun n d => 10 * n + (d.toNat - 48)) 0), cs.dropWhile Char.isDigit)

/-- A text without one separator at its start. -/
def dropSeparator : List Char → List Char
  | c :: cs => if c = '-' ∨ c = '_' ∨ c = '.' then cs else c :: cs
  | [] => []

/-- The first of some words that a text starts with, and the rest. -/
def takeWord (words : List String) (cs : List Char) : Option (String × List Char) :=
  words.findSome? fun word =>
    if word.toList.isPrefixOf cs then some (word, cs.drop word.length) else none

/-- A mark with its number, zero if the number is missing. -/
def takeMark (words : List String) (cs : List Char) : Option ((String × Nat) × List Char) := do
  let (word, rest) ← takeWord words (dropSeparator cs)
  match takeNumber (dropSeparator rest) with
  | (some n, rest) => some ((word, n), rest)
  | (none, _) => some ((word, 0), dropSeparator rest)

/-- Further release numbers after points; `fuel` bounds their count. -/
def takeRelease : Nat → List Char → List Nat × List Char
  | fuel + 1, '.' :: cs =>
    match takeNumber cs with
    | (some n, rest) =>
      let (ns, rest) := takeRelease fuel rest
      (n :: ns, rest)
    | (none, _) => ([], '.' :: cs)
  | _, cs => ([], cs)

/-- The epoch in front of the release, zero if there is none. -/
def takeEpoch (cs : List Char) : Nat × List Char :=
  match takeNumber cs with
  | (some n, '!' :: rest) => (n, rest)
  | _ => (0, cs)

/-- The release numbers at the start of a text. -/
def takeReleases (cs : List Char) : Option (List Nat × List Char) :=
  match takeNumber cs with
  | (some n, rest) =>
    let (ns, rest) := takeRelease rest.length rest
    some (n :: ns, rest)
  | (none, _) => none

/-- The spellings of pre-release marks, longer ones before their beginnings. -/
def preWords : List String := ["alpha", "beta", "preview", "pre", "rc", "a", "b", "c"]

/-- The mark that a spelling stands for. -/
def preMark : String → String
  | "alpha" => "a"
  | "beta" => "b"
  | "preview" | "pre" | "c" => "rc"
  | s => s

/-- The pre-release mark at the start of a text. -/
def takePre (cs : List Char) : Option (String × Nat) × List Char :=
  match takeMark preWords cs with
  | some ((word, n), rest) => (some (preMark word, n), rest)
  | none => (none, cs)

/-- The post-release mark at the start of a text; a hyphen and a number will do. -/
def takePost (cs : List Char) : Option Nat × List Char :=
  let spelled := match takeMark ["post", "rev", "r"] cs with
    | some ((_, n), rest) => (some n, rest)
    | none => (none, cs)
  match cs with
  | '-' :: tail =>
    match takeNumber tail with
    | (some n, rest) => (some n, rest)
    | (none, _) => spelled
  | _ => spelled

/-- The development mark at the start of a text. -/
def takeDev (cs : List Char) : Option Nat × List Char :=
  match takeMark ["dev"] cs with
  | some ((_, n), rest) => (some n, rest)
  | none => (none, cs)

/-- A part of a local label. -/
def localPart (cs : List Char) : LocalPart :=
  if cs.all Char.isDigit then .number (cs.foldl (fun n d => 10 * n + (d.toNat - 48)) 0)
  else .word (String.ofList cs)

/-- Whether a character ends a part of a local label. -/
def isLabelSeparator (c : Char) : Bool :=
  c == '-' || c == '_' || c == '.'

/-- The local label of a text that holds nothing else. -/
def localParts? (cs : List Char) : Option (List LocalPart) :=
  match cs with
  | [] => some []
  | '+' :: label =>
    let pieces := (label.splitBy fun a b => !isLabelSeparator a && !isLabelSeparator b).filter
      fun piece => !piece.any isLabelSeparator
    let separators := (label.filter isLabelSeparator).length
    if label.all (fun c => c.isAlphanum || isLabelSeparator c) && pieces.length == separators + 1
    then some (pieces.map localPart)
    else none
  | _ => none

/-- The version that a text without blanks, in lower case, holds, and what follows its dev mark. -/
def takePublic (cs : List Char) : Option (Version × List Char) := do
  let cs := match cs with
    | 'v' :: rest => rest
    | _ => cs
  let (epoch, cs) := takeEpoch cs
  let (release, cs) ← takeReleases cs
  let (pre, cs) := takePre cs
  let (post, cs) := takePost cs
  let (dev, cs) := takeDev cs
  return (⟨epoch, release, pre, post, dev, []⟩, cs)

/-- The version that a text holds, if it is one. -/
def ofString? (s : String) : Option Version := do
  let (version, rest) ← takePublic (Text.trim (Text.lower s).toList)
  let parts ← localParts? rest
  return { version with localLabel := parts }

/-- The version that a text has to hold. -/
def read (s : String) : Except Fault Version :=
  match ofString? s with
  | some v => .ok v
  | none => .error (.notAVersion (Text.quoted s))

/-- Release numbers without the zeros at their end. -/
def trimZeros (release : List Nat) : List Nat :=
  (release.reverse.dropWhile (· == 0)).reverse

/-- Compare two lists, the shorter one first if it starts the longer one. -/
def compareLists {α : Type} (compare : α → α → Ordering) : List α → List α → Ordering
  | [], [] => .eq
  | [], _ :: _ => .lt
  | _ :: _, [] => .gt
  | a :: as, b :: bs => (compare a b).then (compareLists compare as bs)

/-- The place of the pre-release mark in the order: below all marks for a bare development release,
above all for a release. -/
def preRank (v : Version) : Nat × Nat :=
  match v.pre with
  | some ("a", n) => (1, n)
  | some ("b", n) => (2, n)
  | some (_, n) => (3, n)
  | none => if v.post.isNone && v.dev.isSome then (0, 0) else (4, 0)

/-- The place of the post-release mark, a missing one first. -/
def postRank (v : Version) : Nat :=
  v.post.elim 0 (· + 1)

/-- Whether a development mark is missing, and its number: a missing one is last. -/
def devRank (v : Version) : Nat × Nat :=
  v.dev.elim (1, 0) fun n => (0, n)

/-- Compare two pairs, the first parts first. -/
def comparePairs (a b : Nat × Nat) : Ordering :=
  (compare a.1 b.1).then (compare a.2 b.2)

/-- The order of the parts of local labels: words before numbers. -/
def compareParts : LocalPart → LocalPart → Ordering
  | .word a, .word b => compare a b
  | .word _, .number _ => .lt
  | .number _, .word _ => .gt
  | .number a, .number b => compare a b

/-- The order of versions. -/
def order (a b : Version) : Ordering :=
  (compare a.epoch b.epoch).then <|
  (compareLists compare (trimZeros a.release) (trimZeros b.release)).then <|
  (comparePairs a.preRank b.preRank).then <|
  (compare a.postRank b.postRank).then <|
  (comparePairs a.devRank b.devRank).then <|
  compareLists compareParts a.localLabel b.localLabel

/-- A version without its local label. -/
def withoutLabel (v : Version) : Version :=
  { v with localLabel := [] }

/-- The release of a version, all marks left out. -/
def base (v : Version) : Version :=
  ⟨v.epoch, v.release, none, none, none, []⟩

/-- The text of a part of a local label. -/
def LocalPart.text : LocalPart → String
  | .word s => s
  | .number n => toString n

/-- The text of a version in its shortest spelling. -/
def text (v : Version) : String :=
  (if v.epoch = 0 then "" else toString v.epoch ++ "!") ++
    Text.join "." (v.release.map toString) ++
    v.pre.elim "" (fun (mark, n) => mark ++ toString n) ++
    v.post.elim "" (fun n => ".post" ++ toString n) ++
    v.dev.elim "" (fun n => ".dev" ++ toString n) ++
    (if v.localLabel.isEmpty then "" else "+" ++ Text.join "." (v.localLabel.map LocalPart.text))

/-- Whether a version comes before its release. -/
def isPrerelease (v : Version) : Bool :=
  v.pre.isSome || v.dev.isSome

end Version

end MdxPages.Package
