import MdxPages.Text.Search

/-!
# Path/Posix — slash-separated paths as lists of segments

A path is read segment by segment: empty and `.` segments name nothing, and `..` undoes the
segment before it.  Backslashes count as slashes, a run of them as one.  Nothing here looks at a
file system.
-/

namespace MdxPages.Path

/-- A path with each run of backslashes as one slash. -/
def toPosix (path : String) : String :=
  String.ofList (Text.collapse (· == '\\') '/' path.toList)

/-- The segments of a path between its slashes. -/
def segments (path : String) : List String :=
  Text.split '/' path

/-- Whether a segment names nothing. -/
def isVoid (segment : String) : Bool :=
  segment == "" || segment == "."

/-- Undo the last segment for each `..`; `passed` holds the segments kept so far in reverse.  Where
nothing is left to undo, a `..` stays unless the path starts at the root. -/
def resolveFrom (rooted : Bool) (passed : List String) : List String → List String
  | [] => passed.reverse
  | segment :: rest =>
    if isVoid segment then resolveFrom rooted passed rest
    else if segment = ".." then
      match passed with
      | [] => resolveFrom rooted (if rooted then [] else [".."]) rest
      | last :: before =>
        if last = ".." then resolveFrom rooted (".." :: passed) rest
        else resolveFrom rooted before rest
    else resolveFrom rooted (segment :: passed) rest

/-- The slashes that a normalized path starts with: two stay two, any other number becomes one. -/
def leadingSlashes (path : String) : Nat :=
  match path.toList with
  | '/' :: '/' :: '/' :: _ => 1
  | '/' :: '/' :: _ => 2
  | '/' :: _ => 1
  | _ => 0

/-- A path without void segments and with every `..` undone that can be, `.` if nothing is left. -/
def normalize (path : String) : String :=
  let path := toPosix path
  let slashes := leadingSlashes path
  let normal := String.ofList (List.replicate slashes '/') ++
    Text.join "/" (resolveFrom (slashes != 0) [] (segments path))
  if normal.isEmpty then "." else normal

/-- The characters up to and with the last slash. -/
def upToLastSlash (cs : List Char) : List Char :=
  (cs.reverse.dropWhile (· != '/')).reverse

/-- The directory of a path, `.` for a bare name. -/
def dirname (path : String) : String :=
  let head := upToLastSlash (toPosix path).toList
  let head := if head.all (· == '/') then head else (head.reverse.dropWhile (· == '/')).reverse
  if head.isEmpty then "." else String.ofList head

/-- The last segment of a path. -/
def baseName (path : String) : String :=
  (segments path).getLastD ""

/-- The segments of a normalized path that name something. -/
def parts (path : String) : List String :=
  (segments (normalize path)).filter fun segment => !isVoid segment

/-- Two lists of segments without the segments that both start with. -/
def dropCommon : List String → List String → List String × List String
  | a :: as, b :: bs => if a = b then dropCommon as bs else (a :: as, b :: bs)
  | as, bs => (as, bs)

/-- The way from one list of segments to another: up for each segment left, then down. -/
def wayBetween (start goal : List String) : List String :=
  let (up, down) := dropCommon start goal
  up.map (fun _ => "..") ++ down

/-- The path of `goal` relative to the directory `start`, both taken from the same root. -/
def relative (start goal : String) : String :=
  let way := Text.join "/" (wayBetween (parts start) (parts goal))
  if way.isEmpty then "." else way

end MdxPages.Path
