import MdxPages.Yaml.Block
import MdxPages.Yaml.Quoted
import MdxPages.Yaml.Token

/-!
# Yaml/Token/Lexer — from a text to its tokens

Whether a word is a key shows only at the colon behind it.  Until then it is a candidate: it knows
how many tokens lie before it, and a colon puts the tokens of a key there.  A candidate is given up
at the end of its line, and after a thousand characters.
-/

namespace MdxPages.Yaml

open MdxPages.Text

/-- A place where a key may have started; it is `due` if nothing else can start in its column. -/
structure Candidate where
  tokens : Nat
  due : Bool
  start : Cursor
deriving Repr

/-- The most characters between the start of a key and its colon. -/
def maxKeyLength : Nat := 1024

/-- Whether a candidate is no key any more at a cursor. -/
def Candidate.isOver (k : Candidate) (c : Cursor) : Bool :=
  k.start.line != c.line || maxKeyLength < c.index - k.start.index

/-- The state of reading tokens: where it stands, the tokens so far, the last one first, the columns
of the open blocks, the innermost first, whether a key may start, and the candidates for keys
inside each open bracket, the innermost first, and outside all of them. -/
structure Lexer where
  cursor : Cursor
  tokens : List Token := []
  columns : List Nat := []
  keyMayStart : Bool := true
  candidate : Option Candidate := none
  outer : List (Option Candidate) := []

namespace Lexer

/-- A step of reading. -/
abbrev Step := Lexer → Except Problem Lexer

/-- Whether brackets or braces are open. -/
def inFlow (l : Lexer) : Bool :=
  !l.outer.isEmpty

/-- What is left to read. -/
def rest (l : Lexer) : List Char :=
  l.cursor.rest

/-- The column of the innermost open block, -1 if none is open. -/
def indent (l : Lexer) : Int :=
  match l.columns with
  | [] => -1
  | column :: _ => column

/-- The width that lines inside the innermost open block need at least. -/
def innerWidth (l : Lexer) : Nat :=
  match l.columns with
  | [] => 0
  | column :: _ => column + 1

/-- Add a token. -/
def emit (t : Token) (l : Lexer) : Lexer :=
  { l with tokens := t :: l.tokens }

/-- Add tokens where `n` tokens lie before them. -/
def emitAt (n : Nat) (ts : List Token) (l : Lexer) : Lexer :=
  let later := l.tokens.length - n
  { l with tokens := l.tokens.take later ++ ts.reverse ++ l.tokens.drop later }

/-- Go on where no more than `rest` is left. -/
def moveTo (rest : List Char) (l : Lexer) : Lexer :=
  { l with cursor := l.cursor.moveTo rest }

/-- Add a token and go on behind `n` characters. -/
def emitMark (t : Token) (n : Nat) (l : Lexer) : Lexer :=
  { l.emit t with cursor := l.cursor.skip n }

/-! ## Keys and blocks -/

/-- Give up the candidate inside the innermost brackets. -/
def dropCandidate : Step := fun l =>
  match l.candidate with
  | some k => if k.due then .error .malformed else .ok { l with candidate := none }
  | none => .ok l

/-- Give up the candidates that are no keys any more. -/
def dropOver : Step := fun l =>
  let isOver (k : Option Candidate) : Bool := k.any (·.isOver l.cursor)
  if (l.candidate :: l.outer).any fun k => isOver k && k.any Candidate.due then .error .malformed
  else
    let keep (k : Option Candidate) : Option Candidate := if isOver k then none else k
    .ok { l with candidate := keep l.candidate, outer := l.outer.map keep }

/-- Take the cursor as the start of a key, if one may start there. -/
def addCandidate : Step := fun l =>
  if l.keyMayStart then do
    let l ← l.dropCandidate
    let due := !l.inFlow && l.indent == l.cursor.column
    return { l with candidate := some ⟨l.tokens.length, due, l.cursor⟩ }
  else return l

/-- Close the blocks whose column is beyond the given one, all of them if none is given. -/
def closeBlocks (column : Option Nat) (l : Lexer) : Lexer :=
  if l.inFlow then l
  else
    let beyond (n : Nat) : Bool := column.all (· < n)
    let closed := l.columns.takeWhile beyond
    { l with
      columns := l.columns.dropWhile beyond
      tokens := closed.map (fun _ => .blockEnd) ++ l.tokens }

/-- Open a block in a column, unless one that is as far in is open. -/
def openBlock (column : Nat) (t : Token) (position : Nat) (l : Lexer) : Lexer :=
  if l.indent < column then { l.emitAt position [t] with columns := column :: l.columns } else l

/-- Open a block at the cursor, if a key may start there. -/
def openHere (t : Token) : Step := fun l =>
  if l.inFlow then .ok l
  else if l.keyMayStart then .ok (l.openBlock l.cursor.column t l.tokens.length)
  else .error .malformed

/-! ## Tokens -/

/-- Close all blocks before something that ends a document. -/
def endBlocks : Step := fun l => do
  let l ← (l.closeBlocks none).dropCandidate
  return { l with keyMayStart := false }

/-- A mark that starts or ends a document. -/
def readMark (t : Token) : Step := fun l => do
  return (← l.endBlocks).emitMark t 3

/-- A directive. -/
def readDirective : Step := fun l => do
  let l ← l.endBlocks
  let (d, rest) ← Problem.orMalformed (readDirective? (l.rest.drop 1))
  return (l.emit (.directive d)).moveTo rest

/-- An opening bracket or brace. -/
def readOpening (t : Token) : Step := fun l => do
  let l ← l.addCandidate
  return { l.emitMark t 1 with
    keyMayStart := true, candidate := none, outer := l.candidate :: l.outer }

/-- A closing bracket or brace. -/
def readClosing (t : Token) : Step := fun l => do
  let l ← l.dropCandidate
  match l.outer with
  | [] => throw .malformed
  | candidate :: outer => return { l.emitMark t 1 with keyMayStart := false, candidate, outer }

/-- A comma. -/
def readComma : Step := fun l => do
  let l ← l.dropCandidate
  return { l.emitMark .comma 1 with keyMayStart := true }

/-- The dash before an item of a block. -/
def readDash : Step := fun l => do
  let l ← (← l.openHere .listStart).dropCandidate
  return { l.emitMark .dash 1 with keyMayStart := true }

/-- The question mark before a key. -/
def readKey : Step := fun l => do
  let l ← (← l.openHere .tableStart).dropCandidate
  return { l.emitMark .key 1 with keyMayStart := !l.inFlow }

/-- The colon before a value. -/
def readValue : Step := fun l =>
  match l.candidate with
  | some k =>
    let l := l.emitAt k.tokens [.key]
    let l := if l.inFlow then l else l.openBlock k.start.column .tableStart k.tokens
    .ok { l.emitMark .value 1 with keyMayStart := false, candidate := none }
  | none => do
    let l ← l.openHere .tableStart
    return { l.emitMark .value 1 with keyMayStart := !l.inFlow }

/-- A word that may be a key; `read` gives its token and what follows it. -/
def readWord (read : List Char → Except Problem (Token × List Char)) : Step := fun l => do
  let l ← l.addCandidate
  let (t, rest) ← read l.rest
  return { (l.emit t).moveTo rest with keyMayStart := false }

/-- An alias or an anchor. -/
def readName (token : String → Token) : Step :=
  readWord fun cs => do
    let (name, rest) ← Problem.orMalformed (readAnchor? (cs.drop 1))
    return (token name, rest)

/-- A tag. -/
def readTag : Step :=
  readWord fun cs => do
    let (t, rest) ← Problem.orMalformed (readTag? (cs.drop 1))
    return (.tag t, rest)

/-- A scalar in quotes. -/
def readQuoted (read : List Char → Except Problem (List Char × List Char)) : Step :=
  readWord fun cs => do
    let (text, rest) ← read (cs.drop 1)
    return (.scalar (String.ofList text) false, rest)

/-- A block scalar. -/
def readBlockScalar (fold : Bool) : Step := fun l => do
  let l ← l.dropCandidate
  let (text, rest) ←
    Problem.orMalformed (readBlock? fold (max 1 l.innerWidth) (l.rest.drop 1))
  return { (l.emit (.scalar (String.ofList text) false)).moveTo rest with keyMayStart := true }

/-- A plain scalar; a key may start behind it if it is followed by a line end. -/
def readPlainScalar : Step := fun l => do
  let l ← l.addCandidate
  let (text, crosses, rest) := readPlain l.inFlow l.innerWidth l.rest.length l.rest
  return { (l.emit (.scalar (String.ofList text) true)).moveTo rest with keyMayStart := crosses }

/-- Go on to the next token, and close the blocks that end before it. -/
def goOn : Step := fun l => do
  let (crosses, rest) := skipSpace false l.rest
  let l := l.moveTo rest
  let l ← { l with keyMayStart := l.keyMayStart || (crosses && !l.inFlow) }.dropOver
  return l.closeBlocks (some l.cursor.column)

/-- Read the token at the cursor. -/
def readToken : Step := fun l =>
  match l.rest with
  | [] => .ok l
  | c :: cs =>
    if c = '%' ∧ l.cursor.column = 0 then l.readDirective
    else if l.cursor.atMark '-' then l.readMark .documentStart
    else if l.cursor.atMark '.' then l.readMark .documentEnd
    else if c = '[' then l.readOpening .openBracket
    else if c = '{' then l.readOpening .openBrace
    else if c = ']' then l.readClosing .closeBracket
    else if c = '}' then l.readClosing .closeBrace
    else if c = ',' then l.readComma
    else if c = '-' ∧ endsWord cs then l.readDash
    else if c = '?' ∧ (l.inFlow ∨ endsWord cs) then l.readKey
    else if c = ':' ∧ (l.inFlow ∨ endsWord cs) then l.readValue
    else if c = '*' then l.readName .alias
    else if c = '&' then l.readName .anchor
    else if c = '!' then l.readTag
    else if c = '|' ∧ !l.inFlow then l.readBlockScalar false
    else if c = '>' ∧ !l.inFlow then l.readBlockScalar true
    else if c = '\'' then l.readQuoted (readSingle (.blanks []))
    else if c = '"' then l.readQuoted (readDouble (.blanks []))
    else if startsPlain l.inFlow l.rest then l.readPlainScalar
    else .error .malformed

/-- The next token: the state behind it, or `none` at the end of the text. -/
def next? (l : Lexer) : Except Problem (Option Lexer) := do
  let l ← l.goOn
  if l.rest.isEmpty then return none else return some (← l.readToken)

/-- The tokens that are known for sure: those before the first candidate. -/
def settled (l : Lexer) : List Token :=
  let starts := (l.candidate :: l.outer).filterMap fun k =>
    k.bind fun k => if k.isOver l.cursor then none else some k.tokens
  l.tokens.reverse.take (starts.foldl min l.tokens.length)

/-- All tokens behind which the text ends. -/
def finished (l : Lexer) : Except Problem (List Token) := do
  let l ← (← l.goOn).endBlocks
  return l.tokens.reverse ++ [.finish]

/-- The tokens up to the end of the text, or up to a problem; `fuel` bounds their number. -/
def run : (fuel : Nat) → Lexer → List Token
  | 0, l => l.settled
  | fuel + 1, l =>
    match l.next? with
    | .ok (some next) => run fuel next
    | .ok none => l.finished.toOption.getD (l.settled ++ [.broken .malformed])
    | .error p => l.settled ++ [.broken p]

end Lexer

/-- The tokens of a text. -/
def Token.scan (cs : List Char) : List Token :=
  Lexer.run (cs.length + 1) { cursor := { rest := cs } }

end MdxPages.Yaml
