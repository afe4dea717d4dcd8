import MdxPages.Package.Version
import MdxPages.Text.Search

/-!
# Package/Specifier — which versions a requirement admits

A requirement is a list of clauses between commas, all of which a version must meet.  A clause is
an operator and a version, in equalities also a release followed by `.*`.
-/

namespace MdxPages.Package

/-- The relations that a clause can ask for. -/
inductive Relation
  | compatible
  | equal
  | unequal
  | atMost
  | atLeast
  | below
  | above
  | identical
deriving DecidableEq, Repr

/-- What a clause compares with: a version, or the start of a version. -/
inductive Bound
  | version (v : Version)
  | wildcard (v : Version)
  | literal
deriving DecidableEq, Repr

/-- A clause of a requirement: its relation, and its bound as it is written and as it is read. -/
structure Clause where
  relation : Relation
  written : String
  bound : Bound
deriving DecidableEq, Repr

/-! ## Segments

A version that starts another one does so segment by segment. -/

/-- The words by which the marks of a version start, after its release. -/
def markStarts : List String := ["dev", "a", "b", "rc", "post"]

/-- Whether a segment is a mark. -/
def isMark (segment : String) : Bool :=
  markStarts.any (Text.startsWith segment)

/-- Whether a text is the mark of a pre-release with its number. -/
def isNumberedMark (cs : List Char) : Bool :=
  ["a", "b", "c", "rc"].any fun mark =>
    mark.toList.isPrefixOf cs &&
      (let ds := cs.drop mark.length
       !ds.isEmpty && ds.all Char.isDigit)

/-- A piece between points as segments: a release number and the mark of a pre-release behind it are
two. -/
def splitMark (piece : List Char) : List String :=
  let number := piece.takeWhile Char.isDigit
  let mark := piece.drop number.length
  if !number.isEmpty && isNumberedMark mark then [String.ofList number, String.ofList mark]
  else [String.ofList piece]

/-- The segments of a version as it is written, the epoch first. -/
def segments (text : String) : List String :=
  let pieces := Text.splitOn (· == '!') text.toList
  let epoch := Text.join "!" (pieces.dropLast.map String.ofList)
  (if epoch.isEmpty then "0" else epoch) ::
    (Text.splitOn (· == '.') (pieces.getLastD [])).flatMap splitMark

/-- Whether a segment is a number. -/
def isNumber (segment : String) : Bool :=
  !segment.isEmpty && segment.toList.all Char.isDigit

/-- Whether a version starts with segments; release numbers that it lacks count as zeros. -/
def startsWith (start : List String) (v : Version) : Bool :=
  let own := segments v.withoutLabel.text
  let numbers := own.takeWhile isNumber
  let zeros := List.replicate ((start.takeWhile isNumber).length - numbers.length) "0"
  (numbers ++ zeros ++ own.drop numbers.length).take start.length == start

/-- The segments that a version compatible with the given one starts with: the last number of the
release, and all marks, are left out. -/
def compatibleStart (written : String) : List String :=
  match ((segments written).takeWhile (!isMark ·)).dropLast with
  | [] => []
  | epoch :: rest =>
    let text := epoch ++ "!" ++ Text.join "." rest
    segments ((Version.ofString? text).elim text Version.text)

namespace Clause

/-- The relation at the start of a text, and the rest.  Longer operators are tried where shorter
ones would leave what no version starts with. -/
def takeRelation : List Char → Option (Relation × List Char)
  | '=' :: '=' :: '=' :: cs => some (.identical, cs)
  | '~' :: '=' :: cs => some (.compatible, cs)
  | '=' :: '=' :: cs => some (.equal, cs)
  | '!' :: '=' :: cs => some (.unequal, cs)
  | '<' :: '=' :: cs => some (.atMost, cs)
  | '>' :: '=' :: cs => some (.atLeast, cs)
  | '<' :: cs => some (.below, cs)
  | '>' :: cs => some (.above, cs)
  | _ => none

/-- Whether a relation is an equality or its negation. -/
def isEquality : Relation → Bool
  | .equal | .unequal => true
  | _ => false

/-- The bound that a text holds, for a relation. -/
def bound? (relation : Relation) (cs : List Char) : Option Bound := do
  match relation with
  | .identical =>
    if cs.any fun c => Text.isSpace c || c == ';' || c == ')' then none else some .literal
  | _ =>
    let (v, rest) ← Version.takePublic (cs.map Char.toLower)
    match rest with
    | [] => if relation = .compatible ∧ v.release.length < 2 then none else some (.version v)
    | ['.', '*'] =>
      if isEquality relation && v.pre.isNone && v.post.isNone && v.dev.isNone then
        some (.wildcard v)
      else none
    | rest =>
      if isEquality relation then
        return .version { v with localLabel := ← Version.localParts? rest }
      else none

/-- The clause that a text holds, if it is one. -/
def ofString? (cs : List Char) : Option Clause := do
  let (relation, rest) ← takeRelation (Text.trim cs)
  let written := rest.dropWhile Text.isSpace
  return ⟨relation, String.ofList written, ← bound? relation written⟩

/-- Whether a version equals a bound; its own local label counts only if the bound has one. -/
def equals (v : Version) : Bound → Bool
  | .version w => (if w.localLabel.isEmpty then v.withoutLabel else v).order w == .eq
  | .wildcard w => startsWith (segments w.text) v
  | .literal => false

/-- Whether a version meets a clause. -/
def admits (clause : Clause) (v : Version) : Bool :=
  match clause.relation, clause.bound with
  | .identical, .literal => Text.lower v.text == Text.lower clause.written
  | .equal, bound => equals v bound
  | .unequal, bound => !equals v bound
  | .compatible, .version w =>
    v.withoutLabel.order w != .lt && startsWith (compatibleStart clause.written) v
  | .atMost, .version w => v.withoutLabel.order w != .gt
  | .atLeast, .version w => v.withoutLabel.order w != .lt
  | .below, .version w =>
    v.order w == .lt && !(!w.isPrerelease && v.isPrerelease && v.base.order w.base == .eq)
  | .above, .version w =>
    let sameBase := v.base.order w.base == .eq
    v.order w == .gt && !(w.post.isNone && v.post.isSome && sameBase) &&
      !(!v.localLabel.isEmpty && sameBase)
  | _, _ => false

/-- Whether a clause names a pre-release, which lets pre-releases pass.  What a version has to be
identical with is a version, too. -/
def namesPrerelease (clause : Clause) : Except Fault Bool :=
  match clause.relation, clause.bound with
  | .unequal, _ | .below, _ | .above, _ => .ok false
  | _, .version w => .ok w.isPrerelease
  | _, .wildcard _ => .ok false
  | _, .literal => (Version.read clause.written).map Version.isPrerelease

end Clause

/-- The clauses of a requirement, if each of them can be read. -/
def clauses? (requirement : String) : Option (List Clause) :=
  ((Text.splitOn (· == ',') requirement.toList).filter fun piece =>
    !piece.all Text.isSpace).mapM Clause.ofString?

/-- Whether a version meets a requirement; one that has not the form of clauses is not met. -/
def meets (shown requirement : String) : Except Fault Bool :=
  match clauses? requirement with
  | none => .ok false
  | some clauses => do
    let v ← Version.read shown
    let lenient ← clauses.mapM Clause.namesPrerelease
    return (!v.isPrerelease || lenient.any id) && clauses.all (·.admits v)

end MdxPages.Package
