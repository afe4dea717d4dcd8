/-!
# Text/Search — finding, cutting and replacing within a text

Everything recurses on the list of characters; the functions on `String` only unwrap and wrap.
-/

namespace MdxPages.Text

/-- The position of the first occurrence of a pattern. -/
def indexOf? (pattern : List Char) : List Char → Option Nat
  | [] => if pattern.isEmpty then some 0 else none
  | c :: cs =>
    if pattern.isPrefixOf (c :: cs) then some 0 else (indexOf? pattern cs).map (· + 1)

/-- Whether a text starts with another. -/
def startsWith (s start : String) : Bool :=
  start.toList.isPrefixOf s.toList

/-- Whether a text ends with another. -/
def endsWith (s ending : String) : Bool :=
  ending.toList.isSuffixOf s.toList

/-- A text without its last `n` characters. -/
def dropEnd (s : String) (n : Nat) : String :=
  let cs := s.toList
  String.ofList (cs.take (cs.length - n))

/-- Write `f c` for each character `c`. -/
def expand (f : Char → List Char) (s : String) : String :=
  String.ofList (s.toList.flatMap f)

/-- Put one text in the place of each occurrence of a character. -/
def replaceChar (c : Char) (new : String) (s : String) : String :=
  expand (fun d => if d == c then new.toList else [d]) s

/-- Put `new` in the place of each occurrence of the two characters `a`, `b` in a row. -/
def replacePair (a b : Char) (new : List Char) : List Char → List Char
  | [] => []
  | [c] => [c]
  | c :: d :: cs =>
    if c = a ∧ d = b then new ++ replacePair a b new cs else c :: replacePair a b new (d :: cs)

/-- The pieces between separators: `a/b` gives `a` and `b`, and the empty text one empty piece. -/
def splitOn (p : Char → Bool) : List Char → List (List Char)
  | [] => [[]]
  | c :: cs =>
    if p c then [] :: splitOn p cs
    else match splitOn p cs with
      | [] => [[c]]
      | piece :: pieces => (c :: piece) :: pieces

/-- The pieces of a text between occurrences of a character. -/
def split (c : Char) (s : String) : List String :=
  (splitOn (· == c) s.toList).map String.ofList

/-- Collapse each run of a character class to one given character. -/
def collapse (p : Char → Bool) (mark : Char) : List Char → List Char
  | [] => []
  | c :: cs =>
    if p c then
      match cs with
      | d :: _ => if p d then collapse p mark cs else mark :: collapse p mark cs
      | [] => [mark]
    else c :: collapse p mark cs

/-- The text before the first occurrence of a character and the text after it, if it occurs. -/
def cutAt (c : Char) (cs : List Char) : List Char × List Char :=
  (cs.takeWhile (· != c), (cs.dropWhile (· != c)).drop 1)

/-- Join texts with a separator between neighbours. -/
def join (separator : String) (parts : List String) : String :=
  separator.intercalate parts

theorem splitOn_ne_nil (p : Char → Bool) : ∀ cs, splitOn p cs ≠ []
  | [] => by simp [splitOn]
  | c :: cs => by
    rw [splitOn]
    split
    · simp
    · split <;> simp

end MdxPages.Text
