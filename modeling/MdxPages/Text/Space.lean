/-!
# Text/Space — white space, and cutting it off the ends of a text

White space is the Unicode class: tabs and line breaks, the separators `U+001C`–`U+001F`, the
space, and the space separators beyond ASCII.  `trim` drops it on both sides; nothing between the
outermost other characters changes.
-/

namespace MdxPages.Text

/-- White space of Unicode. -/
def isSpace (c : Char) : Bool :=
  let n := c.toNat
  (9 ≤ n && n ≤ 13) || (28 ≤ n && n ≤ 32) || n == 0x85 || n == 0xA0 || n == 0x1680 ||
    (0x2000 ≤ n && n ≤ 0x200A) || n == 0x2028 || n == 0x2029 || n == 0x202F || n == 0x205F ||
    n == 0x3000

/-- Drop the characters of a class from the end. -/
def dropEndWhile (p : Char → Bool) (cs : List Char) : List Char :=
  (cs.reverse.dropWhile p).reverse

/-- Drop white space from both ends. -/
def trim (cs : List Char) : List Char :=
  dropEndWhile isSpace (cs.dropWhile isSpace)

/-- A text without the white space at its ends. -/
def strip (s : String) : String :=
  String.ofList (trim s.toList)

/-- A text without the white space at its end. -/
def stripEnd (s : String) : String :=
  String.ofList (dropEndWhile isSpace s.toList)

/-- A text without the given character at its start. -/
def stripLeading (c : Char) (s : String) : String :=
  String.ofList (s.toList.dropWhile (· == c))

/-- Whether a text holds nothing but white space. -/
def isBlank (s : String) : Bool :=
  s.toList.all isSpace

@[simp] theorem toList_strip (s : String) : (strip s).toList = trim s.toList :=
  String.toList_ofList

@[simp] theorem toList_stripLeading (c : Char) (s : String) :
    (stripLeading c s).toList = s.toList.dropWhile (· == c) :=
  String.toList_ofList

end MdxPages.Text
