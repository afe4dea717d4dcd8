import MdxPages.Text.Lines

/-!
# Bytes/Basic — numbers and texts in bytes

Numbers of several bytes have their lowest byte first.
-/

namespace MdxPages.Bytes

/-- The number that bytes hold, the lowest first. -/
def number : List UInt8 → Nat
  | [] => 0
  | b :: bs => b.toNat + 256 * number bs

/-- The number that bytes hold in two's complement, the lowest first. -/
def signedNumber (bs : List UInt8) : Int :=
  let n := number bs
  let span := Nat.pow 256 bs.length
  if span ≤ 2 * n then (n : Int) - span else n

/-- The first `n` bytes and the rest, if there are as many. -/
def takeExactly? (n : Nat) (bs : List UInt8) : Option (List UInt8 × List UInt8) :=
  let (taken, rest) := bs.splitAt n
  if taken.length = n then some (taken, rest) else none

/-- The bytes up to the first zero byte and those after it, if there is one. -/
def takeToZero? : List UInt8 → Option (List UInt8 × List UInt8)
  | [] => none
  | b :: bs =>
    if b = 0 then some ([], bs) else (takeToZero? bs).map fun (taken, rest) => (b :: taken, rest)

/-- The `n` bytes from a position, fewer at the end. -/
def slice (position n : Nat) (bs : List UInt8) : List UInt8 :=
  (bs.drop position).take n

/-- The text whose UTF-8 form the bytes are. -/
def text? (bs : List UInt8) : Option String :=
  String.fromUTF8? ⟨bs.toArray⟩

/-- The text whose UTF-8 form the bytes are, with all line ends as `\n`. -/
def linesText? (bs : List UInt8) : Option String :=
  (text? bs).map fun s => String.ofList (Text.unifyLineEnds s.toList)

/-- The UTF-8 form of a text. -/
def ofText (s : String) : List UInt8 :=
  s.toUTF8.data.toList

end MdxPages.Bytes
