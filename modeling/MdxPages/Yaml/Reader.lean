import MdxPages.Yaml.Denotation
import MdxPages.Yaml.Node.Reader
import MdxPages.Yaml.Token.Lexer

/-!
# Yaml/Reader — from the text of a document to its tree
-/

namespace MdxPages.Yaml

/-- Whether a character may stand in a document: no control characters but the blanks and line ends,
and no noncharacters at the end of the first plane. -/
def isAllowed (c : Char) : Bool :=
  let n := c.toNat
  n == 9 || n == 10 || n == 13 || (32 ≤ n && n ≤ 126) || n == 0x85 || (0xA0 ≤ n && n ≤ 0xFFFD) ||
    0x10000 ≤ n

/-- A text without a byte order mark at its start. -/
def dropOrderMark : List Char → List Char
  | c :: cs => if c = '\uFEFF' then cs else c :: cs
  | [] => []

/-- The tree of a text, whose line ends are line feeds; a text without a document holds nothing. -/
def read (text : String) : Except Problem Tree :=
  if text.toList.all isAllowed then do
    match ← Node.ofTokens? (Token.scan (dropOrderMark text.toList)) with
    | some node => node.toTree
    | none => return .null
  else .error .malformed

end MdxPages.Yaml
