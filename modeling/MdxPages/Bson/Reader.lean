import MdxPages.Bson.Scalar

/-!
# Bson/Reader — BSON documents in bytes

A document is its size, its elements and a zero byte.  An element is the number of its kind, its
name up to a zero byte, and its value; the elements of a list have names too, which are dropped.
A document inside another one that names a collection and an identifier is a reference.  Documents
stand back to back, and nothing may be left over.
-/

namespace MdxPages.Bson

/-- The smallest size of a document. -/
def minSize : Nat := 5

/-- The elements of the document that bytes start with, still in bytes, and what follows it. -/
def takeDocument? (bs : List UInt8) : Option (List UInt8 × List UInt8) := do
  let (head, _) ← Bytes.takeExactly? 4 bs
  let size := Bytes.signedNumber head
  if size < minSize then none
  else
    let (document, rest) ← Bytes.takeExactly? size.toNat bs
    if document.getLast? = some 0 then some ((document.drop 4).dropLast, rest) else none

/-- A text up to a zero byte. -/
def takeName? (bs : List UInt8) : Option (String × List UInt8) := do
  let (name, rest) ← Bytes.takeToZero? bs
  return (← Bytes.text? name, rest)

/-- A text with its size in front and a zero byte behind. -/
def takeText? (bs : List UInt8) : Option (String × List UInt8) := do
  let (head, bs) ← Bytes.takeExactly? 4 bs
  let size := Bytes.signedNumber head
  if size < 1 then none
  else
    let (written, rest) ← Bytes.takeExactly? size.toNat bs
    if written.getLast? = some 0 then return (← Bytes.text? written.dropLast, rest) else none

/-- The size of a universally unique identifier. -/
def identifierSize : Nat := 16

/-- Binary data: its size, its subtype, and its bytes, which the subtype 2 gives a second size.  The
subtypes 3 and 4 hold universally unique identifiers, all of one size. -/
def takeBinary? (bs : List UInt8) : Option (Value × List UInt8) := do
  let (head, bs) ← Bytes.takeExactly? 4 bs
  let size := Bytes.signedNumber head
  let (subtype, bs) ← Bytes.takeExactly? 1 bs
  if size < 0 then none
  else
    let (data, rest) ← Bytes.takeExactly? size.toNat bs
    match Bytes.number subtype with
    | 2 =>
      let (inner, data) ← Bytes.takeExactly? 4 data
      if Bytes.signedNumber inner = data.length then some (.foreign (.bytes 2 data), rest) else none
    | n =>
      if (n = 3 ∨ n = 4) ∧ data.length ≠ identifierSize then none
      else some (.foreign (.bytes n data), rest)

/-- A value made of the next `n` bytes. -/
def takeSized? (n : Nat) (make : List UInt8 → Option Value) (bs : List UInt8) :
    Option (Value × List UInt8) := do
  let (taken, rest) ← Bytes.takeExactly? n bs
  return (← make taken, rest)

/-- A value of a kind that holds no further values. -/
def readScalar? (kind : UInt8) (bs : List UInt8) : Option (Value × List UInt8) :=
  match kind.toNat with
  | 0x01 => takeSized? 8 (fun taken => some (.float (double taken))) bs
  | 0x02 | 0x0E => (takeText? bs).map fun (s, rest) => (.str s, rest)
  | 0x05 => takeBinary? bs
  | 0x06 | 0x0A => some (.null, bs)
  | 0x07 => takeSized? 12 (fun taken => some (objectId taken)) bs
  | 0x08 => takeSized? 1 (fun taken =>
      match Bytes.number taken with
      | 0 => some (.bool false)
      | 1 => some (.bool true)
      | _ => none) bs
  | 0x09 => takeSized? 8 (fun taken => moment? (Bytes.signedNumber taken)) bs
  | 0x0B => do
    let (source, bs) ← takeName? bs
    let (options, rest) ← Bytes.takeToZero? bs
    return (pattern source options, rest)
  | 0x0C => do
    let (name, bs) ← takeText? bs
    let (id, rest) ← Bytes.takeExactly? 12 bs
    return (reference (.str name) (objectId id) none [], rest)
  | 0x0D => (takeText? bs).map fun (s, rest) => (code s .null, rest)
  | 0x10 => takeSized? 4 (fun taken => some (.int (Bytes.signedNumber taken))) bs
  | 0x11 => takeSized? 8 (fun taken =>
      some (timestamp (Bytes.number (taken.drop 4)) (Bytes.number (taken.take 4)))) bs
  | 0x12 => takeSized? 8 (fun taken => some (.foreign (.long (Bytes.signedNumber taken)))) bs
  | 0x13 => takeSized? 16 (fun taken => some (decimal taken)) bs
  | 0x7F => some (plainForeign "MaxKey" "MaxKey()", bs)
  | 0xFF => some (plainForeign "MinKey" "MinKey()", bs)
  | _ => none

mutual

/-- A value of a kind; `fuel` bounds the bytes that are read. -/
def readValue? (fuel : Nat) (kind : UInt8) (bs : List UInt8) : Option (Value × List UInt8) :=
  match fuel with
  | 0 => none
  | fuel + 1 =>
    match kind.toNat with
    | 0x03 => do
      let (elements, rest) ← takeDocument? bs
      return (embedded (Entries.ofList (← readElements? fuel elements)), rest)
    | 0x04 => do
      let (elements, rest) ← takeDocument? bs
      return (.arr (← readItems? fuel elements), rest)
    | 0x0F => do
      let (head, inner) ← Bytes.takeExactly? 4 bs
      let (source, inner) ← takeText? inner
      let (elements, rest) ← takeDocument? inner
      let scope := Entries.ofList (← readElements? fuel elements)
      if Bytes.signedNumber head + rest.length = bs.length then
        return (code source (.obj scope), rest)
      else none
    | _ => readScalar? kind bs

/-- The elements that fill the bytes. -/
def readElements? (fuel : Nat) (bs : List UInt8) : Option (List (String × Value)) :=
  match fuel, bs with
  | _, [] => some []
  | 0, _ :: _ => none
  | fuel + 1, kind :: bs => do
    let (name, bs) ← takeName? bs
    let (v, rest) ← readValue? fuel kind bs
    return (name, v) :: (← readElements? fuel rest)

/-- The elements of a list that fill the bytes; their names need not be texts. -/
def readItems? (fuel : Nat) (bs : List UInt8) : Option (List Value) :=
  match fuel, bs with
  | _, [] => some []
  | 0, _ :: _ => none
  | fuel + 1, kind :: bs => do
    let (_, bs) ← Bytes.takeToZero? bs
    let (v, rest) ← readValue? fuel kind bs
    return v :: (← readItems? fuel rest)

end

/-- The documents that fill the bytes; `fuel` bounds their number. -/
def readDocuments? (fuel : Nat) (bs : List UInt8) : Option (List Value) :=
  match fuel, bs with
  | _, [] => some []
  | 0, _ :: _ => none
  | fuel + 1, bs => do
    let (elements, rest) ← takeDocument? bs
    let fields ← readElements? (elements.length + 1) elements
    return .obj (Entries.ofList fields) :: (← readDocuments? fuel rest)

/-- The documents that stand back to back in bytes. -/
def documents? (bs : List UInt8) : Option (List Value) :=
  readDocuments? bs.length bs

end MdxPages.Bson
