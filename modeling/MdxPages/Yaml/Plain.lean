import MdxPages.Yaml.Cursor

/-!
# Yaml/Plain — scalars without quotes

A plain scalar goes on to the next mark.  It may go on over lines, which fold: a single line end
becomes a blank, further ones stay.
-/

namespace MdxPages.Yaml

open MdxPages.Text

/-- What line ends in a row, as they are read, fold to. -/
def folded : List Char → List Char
  | [] => []
  | [c] => if c = '\n' then [' '] else [c]
  | c :: cs => if c = '\n' then cs else c :: cs

/-- The characters with a meaning of their own inside brackets and braces. -/
def isFlowMark (c : Char) : Bool :=
  c == ',' || c == '[' || c == ']' || c == '{' || c == '}'

/-- The characters that start no plain scalar. -/
def indicators : List Char :=
  "-?:,[]\x7b\x7d#&*!|>'\"%@".toList ++ [Char.ofNat 96]

/-- Whether a plain scalar starts here; `flow` says whether brackets or braces are open. -/
def startsPlain (flow : Bool) : List Char → Bool
  | [] => false
  | c :: cs =>
    !(endsWord (c :: cs) || indicators.contains c) ||
      (!endsWord cs && (c == '-' || (!flow && (c == '?' || c == ':'))))

/-- Whether a colon before a text ends a key. -/
def endsKey (flow : Bool) (cs : List Char) : Bool :=
  endsWord cs || (flow && startsWithAny isFlowMark cs)

/-- The characters of a plain scalar up to the next blank or mark. -/
def takeChunk (flow : Bool) : List Char → List Char × List Char
  | [] => ([], [])
  | c :: cs =>
    if endsWord (c :: cs) || (c == ':' && endsKey flow cs) || (flow && (isFlowMark c || c == '?'))
    then ([], c :: cs)
    else
      let (chunk, rest) := takeChunk flow cs
      (c :: chunk, rest)

/-- Blank lines before a line: their ends, the width of the margin of that line, and what follows
its margin. -/
structure Margin where
  breaks : List Char
  width : Nat
  rest : List Char
deriving Repr

/-- The blank lines before a line whose margin is taken up to `limit` blanks, if there is a limit;
`width` blanks lie before. -/
def takeMargin (limit : Option Nat) (width : Nat) : List Char → Margin
  | [] => ⟨[], width, []⟩
  | c :: cs =>
    if isBreak c then
      let margin := takeMargin limit 0 cs
      { margin with breaks := breakChar c :: margin.breaks }
    else if c == ' ' && limit.all (width < ·) then takeMargin limit (width + 1) cs
    else ⟨[], width, c :: cs⟩

/-- What lies behind a chunk: the text that it stands for if the scalar goes on, whether it has a
line end, how wide the margin of the new line is, and what follows. -/
structure Gap where
  text : List Char
  crosses : Bool
  width : Nat
  rest : List Char
deriving Repr

/-- The gap behind a chunk. -/
def takeGap (cs : List Char) : Gap :=
  let blanks := cs.takeWhile (· == ' ')
  let rest := cs.drop blanks.length
  if startsWithAny isBreak rest then
    let margin := takeMargin none 0 rest
    ⟨folded margin.breaks, true, margin.width, margin.rest⟩
  else ⟨blanks, false, 0, rest⟩

/-- Whether a plain scalar ends with the chunk before a gap; lines after the first one need a margin
of at least `indent` outside brackets and braces. -/
def Gap.isLast (flow : Bool) (indent : Nat) (gap : Gap) : Bool :=
  gap.text.isEmpty || startsWithAny (· == '#') gap.rest ||
    (gap.crosses && ((gap.width == 0 && isMark gap.rest) || (!flow && gap.width < indent)))

/-- A plain scalar, whether the gap behind it crosses lines, and what follows the gap; `fuel` bounds
the number of chunks. -/
def readPlain (flow : Bool) (indent : Nat) : (fuel : Nat) → List Char → List Char × Bool × List Char
  | 0, cs => ([], false, cs)
  | fuel + 1, cs =>
    let (chunk, rest) := takeChunk flow cs
    let gap := takeGap rest
    if chunk.isEmpty then ([], false, cs)
    else if gap.isLast flow indent then (chunk, gap.crosses, gap.rest)
    else
      match readPlain flow indent fuel gap.rest with
      | ([], _, _) => (chunk, gap.crosses, gap.rest)
      | (more, crosses, last) => (chunk ++ gap.text ++ more, crosses, last)

end MdxPages.Yaml
