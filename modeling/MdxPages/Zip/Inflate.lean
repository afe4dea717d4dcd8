import MdxPages.Zip.Stream

/-!
# Zip/Inflate — unpacking deflated data

Deflated data is read bit by bit, the lowest bit of a byte first.  It is a sequence of blocks:
stored bytes, or symbols in a fixed prefix code or in one that the block describes.  A symbol is a
byte or the length of a repetition, which a distance follows.
-/

namespace MdxPages.Zip

/-! ## Prefix codes

A code is given by the lengths of its words alone, which are numbered from the shortest on. -/

/-- A prefix code as a tree: the way to a symbol spells its code. -/
inductive CodeTree
  | empty
  | symbol (s : Nat)
  | branch (zero one : CodeTree)
deriving Repr, Inhabited

/-- Add a symbol at the end of a way; nothing if another symbol stands on it. -/
def CodeTree.add? (s : Nat) : List Bool → CodeTree → Option CodeTree
  | [], .empty => some (.symbol s)
  | [], _ => none
  | _ :: _, .symbol _ => none
  | b :: way, .empty =>
    (add? s way .empty).map fun t => if b then .branch .empty t else .branch t .empty
  | b :: way, .branch zero one =>
    if b then (add? s way one).map (.branch zero) else (add? s way zero).map (.branch · one)

/-- Read one symbol. -/
def CodeTree.read : CodeTree → List Bool → Except StreamError (Nat × List Bool)
  | .empty, _ => .error .corrupt
  | .symbol s, bits => .ok (s, bits)
  | .branch _ _, [] => .error (.truncated #[])
  | .branch zero one, b :: bits => if b then one.read bits else zero.read bits

/-- The `length` lowest bits of a code, the highest first. -/
def codeBits : Nat → Nat → List Bool
  | 0, _ => []
  | length + 1, code => code.testBit length :: codeBits length code

/-- Add symbols with consecutive codes of one length, and the code after them. -/
def addSymbols (length : Nat) : List Nat → Nat → CodeTree → Option (CodeTree × Nat)
  | [], code, tree => some (tree, code)
  | s :: symbols, code, tree => do
    addSymbols length symbols (code + 1) (← tree.add? s (codeBits length code))

/-- Add the symbols of `count` code lengths from `length` on; `code` is the first code of `length`.
With the tree comes the first code after them. -/
def addLengths (lengths : List Nat) : (count : Nat) → (length code : Nat) → CodeTree →
    Option (CodeTree × Nat)
  | 0, _, code, tree => some (tree, code)
  | count + 1, length, code, tree => do
    let symbols := symbolsOfLength lengths length
    if Nat.pow 2 length < code + symbols.length then none
    else
      let (tree, code) ← addSymbols length symbols code tree
      addLengths lengths count (length + 1) (2 * code) tree

/-- The longest code. -/
def maxCodeLength : Nat := 15

/-- The code whose symbols have the given lengths, zero for symbols without a code: shorter codes
come first, and codes of one length are in the order of their symbols.  All codes have to be used,
but that no symbol may have one, and a `loose` code may have one symbol, of one bit. -/
def codeOfLengths (loose : Bool) (lengths : List Nat) : Except StreamError CodeTree :=
  match addLengths lengths maxCodeLength 1 0 .empty with
  | none => .error .corrupt
  | some (tree, next) =>
    if lengths.all (· = 0) then .ok (.branch .empty .empty)
    else if next = Nat.pow 2 (maxCodeLength + 1) || (loose && lengths.all (· ≤ 1)) then .ok tree
    else .error .corrupt

/-! ## Symbols

A symbol beyond the bytes stands for a length, and a distance comes behind it.  Both may have extra
bits. -/

/-- The shortest repetition of each length symbol, and its extra bits. -/
def lengthTable : List (Nat × Nat) :=
  [(3, 0), (4, 0), (5, 0), (6, 0), (7, 0), (8, 0), (9, 0), (10, 0), (11, 1), (13, 1), (15, 1),
    (17, 1), (19, 2), (23, 2), (27, 2), (31, 2), (35, 3), (43, 3), (51, 3), (59, 3), (67, 4),
    (83, 4), (99, 4), (115, 4), (131, 5), (163, 5), (195, 5), (227, 5), (258, 0)]

/-- The shortest distance of each distance symbol, and its extra bits. -/
def distanceTable : List (Nat × Nat) :=
  [(1, 0), (2, 0), (3, 0), (4, 0), (5, 1), (7, 1), (9, 2), (13, 2), (17, 3), (25, 3), (33, 4),
    (49, 4), (65, 5), (97, 5), (129, 6), (193, 6), (257, 7), (385, 7), (513, 8), (769, 8),
    (1025, 9), (1537, 9), (2049, 10), (3073, 10), (4097, 11), (6145, 11), (8193, 12), (12289, 12),
    (16385, 13), (24577, 13)]

/-- The number that a symbol of a table and its extra bits stand for. -/
def takeTabled (table : List (Nat × Nat)) (symbol : Nat) (bits : List Bool) :
    Except StreamError (Nat × List Bool) :=
  match table[symbol]? with
  | none => .error .corrupt
  | some (base, extra) => do
    let (more, bits) ← takeNumber extra bits
    return (base + more, bits)

/-- Read what one symbol of a block stands for: nothing at the end of the block, else the rest and
the unpacked bytes. -/
def readSymbol (literals distances : CodeTree) (bits : List Bool) (out : Array UInt8) :
    Except StreamError (List Bool × Option (Array UInt8)) := do
  let (symbol, bits) ← literals.read bits
  if symbol < 256 then return (bits, some (out.push (UInt8.ofNat symbol)))
  else if symbol = 256 then return (bits, none)
  else
    let (length, bits) ← takeTabled lengthTable (symbol - 257) bits
    let (symbol, bits) ← distances.read bits
    let (distance, bits) ← takeTabled distanceTable symbol bits
    return (bits, some (← repeatBytes distance length out))

/-- Read symbols up to the end of the block; every symbol takes a bit at least, so `fuel` may be the
number of bits. -/
def readSymbols (literals distances : CodeTree) : (fuel : Nat) → List Bool → Array UInt8 →
    Except StreamError (List Bool × Array UInt8)
  | 0, _, out => .error (.truncated out)
  | fuel + 1, bits, out => do
    match ← having out (readSymbol literals distances bits out) with
    | (bits, none) => return (bits, out)
    | (bits, some more) => readSymbols literals distances fuel bits more

/-! ## Blocks

A block says by its first bits whether it is the last one, and how it is packed. -/

/-- The code lengths of the fixed code for bytes and repetitions. -/
def fixedLiterals : List Nat :=
  List.replicate 144 8 ++ List.replicate 112 9 ++ List.replicate 24 7 ++ List.replicate 8 8

/-- The code lengths of the fixed code for distances. -/
def fixedDistances : List Nat :=
  List.replicate 32 5

/-- The order in which the lengths of the code for code lengths are written. -/
def lengthOrder : List Nat :=
  [16, 17, 18, 0, 8, 7, 9, 6, 10, 5, 11, 4, 12, 3, 13, 2, 14, 1, 15]

/-- The next `n` numbers of three bits. -/
def takeTriples : (n : Nat) → List Bool → Except StreamError (List Nat × List Bool)
  | 0, bits => .ok ([], bits)
  | n + 1, bits => do
    let (first, bits) ← takeNumber 3 bits
    let (rest, bits) ← takeTriples n bits
    return (first :: rest, bits)

/-- Read code lengths until there are `wanted` of them; `passed` holds those read, last first. -/
def readLengths (tree : CodeTree) (wanted : Nat) : (fuel : Nat) → List Bool → (passed : List Nat) →
    Except StreamError (List Nat × List Bool)
  | 0, _, _ => .error .corrupt
  | fuel + 1, bits, passed =>
    if passed.length = wanted then .ok (passed.reverse, bits)
    else if wanted < passed.length then .error .corrupt
    else do
      let (symbol, bits) ← tree.read bits
      if symbol < 16 then readLengths tree wanted fuel bits (symbol :: passed)
      else
        let (repeated, base, extra) := match symbol with
          | 16 => (passed.head?, 3, 2)
          | 17 => (some 0, 3, 3)
          | _ => (some 0, 11, 7)
        let (more, bits) ← takeNumber extra bits
        match repeated with
        | none => throw .corrupt
        | some length =>
          readLengths tree wanted fuel bits (List.replicate (base + more) length ++ passed)

/-- The greatest numbers of symbols a block may describe: bytes and repetitions, and distances. -/
def maxSymbols : Nat × Nat := (286, 30)

/-- Read the two codes that a block describes; the first has to have the end of the block. -/
def readCodes (bits : List Bool) : Except StreamError (CodeTree × CodeTree × List Bool) := do
  let (literals, bits) ← takeNumber 5 bits
  let (distances, bits) ← takeNumber 5 bits
  let (count, bits) ← takeNumber 4 bits
  if maxSymbols.1 < literals + 257 || maxSymbols.2 < distances + 1 then throw .corrupt
  let (triples, bits) ← takeTriples (count + 4) bits
  let lengthOf (s : Nat) : Nat := ((lengthOrder.zip triples).lookup s).getD 0
  let tree ← codeOfLengths false ((List.range 19).map lengthOf)
  let wanted := literals + 257 + (distances + 1)
  let (lengths, bits) ← readLengths tree wanted (wanted + 1) bits []
  let (first, second) := lengths.splitAt (literals + 257)
  if first[256]? = some 0 then throw .corrupt
  return (← codeOfLengths true first, ← codeOfLengths true second, bits)

/-- The next `n` bytes. -/
def takeBytes : (n : Nat) → List Bool → Array UInt8 → Except StreamError (List Bool × Array UInt8)
  | 0, bits, out => .ok (bits, out)
  | n + 1, bits, out => do
    let (b, bits) ← having out (takeNumber 8 bits)
    takeBytes n bits (out.push (UInt8.ofNat b))

/-- Read stored bytes, which start at the next whole byte. -/
def readStored (bits : List Bool) (out : Array UInt8) :
    Except StreamError (List Bool × Array UInt8) := do
  let bits := bits.drop (bits.length % 8)
  let (length, bits) ← having out (takeNumber 16 bits)
  let (inverted, bits) ← having out (takeNumber 16 bits)
  if length + inverted = 0xFFFF then takeBytes length bits out else .error .corrupt

/-- Read blocks up to the last one; every block takes three bits at least. -/
def readBlocks : (fuel : Nat) → List Bool → Array UInt8 → Except StreamError (Array UInt8)
  | 0, _, out => .error (.truncated out)
  | fuel + 1, bits, out => do
    let (last, bits) ← having out (takeNumber 1 bits)
    let (kind, bits) ← having out (takeNumber 2 bits)
    let (bits, out) ← match kind with
      | 0 => readStored bits out
      | 1 => do
        let literals ← codeOfLengths false fixedLiterals
        let distances ← codeOfLengths false fixedDistances
        readSymbols literals distances (bits.length + 1) bits out
      | 2 => do
        let (literals, distances, bits) ← having out (readCodes bits)
        readSymbols literals distances (bits.length + 1) bits out
      | _ => .error .corrupt
    if last = 1 then return out else readBlocks fuel bits out

/-- The bytes that deflated data stands for. -/
def inflate (packed : List UInt8) : Except StreamError (List UInt8) := do
  let bits := bitsOf packed
  return (← readBlocks (bits.length + 1) bits #[]).toList

end MdxPages.Zip
