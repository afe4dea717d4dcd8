import MdxPages.Bytes.Checksum
import MdxPages.Zip.Stream

/-!
# Zip/Bzip2 — unpacking blocks of sorted bytes

Data of this kind is read bit by bit, the highest bit of a byte first, and consists of blocks with a
checksum each.  Packing a block shortens runs of its bytes, sorts the bytes by what follows them,
and writes each as the place of its value in a list of values whose latest comes first; the places
are symbols of a few prefix codes that take turns.  `readColumn`, `unsort` and `expandRuns` undo
these steps.
-/

namespace MdxPages.Zip.Bzip2

/-! ## Prefix codes -/

/-- A prefix code as the symbols of each code length, from length one on. -/
abbrev Code : Type := List (List Nat)

/-- The length of the longest code of a symbol. -/
def maxLength : Nat := 20

/-- The code in which symbols have the given code lengths. -/
def Code.ofLengths (lengths : List Nat) : Code :=
  (List.range maxLength).map fun i => symbolsOfLength lengths (i + 1)

/-- Read a symbol.  The bits read so far are the digits of `prior`, and the codes of the next length
are the numbers from `first` on, as many as it has symbols. -/
def Code.read : Code → (prior first : Nat) → List Bool → Except StreamError (Nat × List Bool)
  | _, _, _, [] => .error (.truncated #[])
  | [], _, _, _ :: _ => .error .corrupt
  | symbols :: longer, prior, first, b :: bits =>
    let number := 2 * prior + b.toNat
    match symbols[number - first]? with
    | some s => .ok (s, bits)
    | none => Code.read longer number (2 * (first + symbols.length)) bits

/-- Read the length of a code, which starts from the one before: steps of one, each written as a one
and the direction, and a zero. -/
def readLength (length : Nat) (bits : List Bool) : Except StreamError (Nat × List Bool) :=
  if length < 1 ∨ maxLength < length then .error .corrupt
  else match bits with
    | [] | [true] => .error (.truncated #[])
    | false :: bits => .ok (length, bits)
    | true :: down :: bits => readLength (if down then length - 1 else length + 1) bits

/-- Read the lengths of the codes of `n` symbols. -/
def readLengths : (n length : Nat) → List Bool → Except StreamError (List Nat × List Bool)
  | 0, _, bits => .ok ([], bits)
  | n + 1, length, bits => do
    let (length, bits) ← readLength length bits
    let (more, bits) ← readLengths n length bits
    return (length :: more, bits)

/-- Read `n` codes for a number of symbols. -/
def readCodes (symbols : Nat) : (n : Nat) → List Bool → Except StreamError (List Code × List Bool)
  | 0, bits => .ok ([], bits)
  | n + 1, bits => do
    let (length, bits) ← takeBinary 5 0 bits
    let (lengths, bits) ← readLengths symbols length bits
    let (more, bits) ← readCodes symbols n bits
    return (Code.ofLengths lengths :: more, bits)

/-! ## The head of a block -/

/-- Read which of the `n` numbers from `first` on are marked, a bit for each. -/
def readMarked : (n first : Nat) → List Bool → Except StreamError (List Nat × List Bool)
  | 0, _, bits => .ok ([], bits)
  | _ + 1, _, [] => .error (.truncated #[])
  | n + 1, first, b :: bits => do
    let (more, bits) ← readMarked n (first + 1) bits
    return (if b then first :: more else more, bits)

/-- Read which values of the given rows of sixteen occur. -/
def readRows : (rows : List Nat) → List Bool → Except StreamError (List Nat × List Bool)
  | [], bits => .ok ([], bits)
  | row :: rows, bits => do
    let (values, bits) ← readMarked 16 (16 * row) bits
    let (more, bits) ← readRows rows bits
    return (values ++ more, bits)

/-- Read which values occur in a block: the rows in which any does, and those in each row. -/
def readValues (bits : List Bool) : Except StreamError (List UInt8 × List Bool) := do
  let (rows, bits) ← readMarked 16 0 bits
  let (values, bits) ← readRows rows bits
  if values.isEmpty then throw .corrupt
  return (values.map UInt8.ofNat, bits)

/-- Read a number up to `most`, written as so many ones and a zero. -/
def readUnary : (most : Nat) → List Bool → Except StreamError (Nat × List Bool)
  | _, [] => .error (.truncated #[])
  | _, false :: bits => .ok (0, bits)
  | 0, true :: _ => .error .corrupt
  | most + 1, true :: bits => do
    let (n, bits) ← readUnary most bits
    return (n + 1, bits)

/-- Read whose turn it is in each of `n` groups of symbols, as the place in a list of the codes
whose latest comes first. -/
def readTurns : (n : Nat) → (codes : List Nat) → List Bool →
    Except StreamError (List Nat × List Bool)
  | 0, _, bits => .ok ([], bits)
  | n + 1, codes, bits => do
    let (place, bits) ← readUnary (codes.length - 1) bits
    let code := codes.getD place 0
    let (more, bits) ← readTurns n (code :: codes.erase code) bits
    return (code :: more, bits)

/-- How many symbols a code has its turn for. -/
def groupSize : Nat := 50

/-! ## The symbols of a block

Up to six codes take turns, each for fifty symbols.  Two symbols write the length of a run of the
first place. -/

/-- Bytes unpacked from places: the values with the latest first, a repetition of that value which
is not complete yet, with what its next digit counts, and the bytes. -/
structure Ranks where
  values : List UInt8
  run : Nat
  weight : Nat
  column : Array UInt8
deriving Repr, Inhabited

/-- What a digit of a repetition stays below in weight. -/
def maxWeight : Nat := 0x200000

/-- Add a digit, one or two, to the repetition of the latest value; the lowest digit comes first. -/
def Ranks.count (digit : Nat) (r : Ranks) : Except StreamError Ranks :=
  if maxWeight ≤ r.weight then .error .corrupt
  else .ok { r with run := r.run + digit * r.weight, weight := 2 * r.weight }

/-- Complete the repetition, in a block of at most `limit` bytes. -/
def Ranks.settle (limit : Nat) (r : Ranks) : Except StreamError Ranks :=
  if limit < r.column.size + r.run then .error .corrupt
  else .ok { r with
    run := 0, weight := 1, column := r.column ++ Array.replicate r.run (r.values.headD 0) }

/-- Add a byte, whose value becomes the latest. -/
def Ranks.push (limit : Nat) (b : UInt8) (r : Ranks) : Except StreamError Ranks :=
  if limit ≤ r.column.size then .error .corrupt
  else .ok { r with values := b :: r.values.erase b, column := r.column.push b }

/-- Read symbols up to the end of the block.  `turns` holds the codes of the group at hand, of which
`left` symbols are left, and of those after it; every symbol takes a bit at least, so `fuel` may be
the number of bits. -/
def readColumn (limit : Nat) : (fuel : Nat) → (turns : List Code) → (left : Nat) → Ranks →
    List Bool → Except StreamError (Array UInt8 × List Bool)
  | 0, _, _, _, _ | _, [], _, _, _ => .error .corrupt
  | fuel + 1, turns, 0, r, bits => readColumn limit fuel (turns.drop 1) groupSize r bits
  | fuel + 1, code :: turns, left + 1, r, bits => do
    let (symbol, bits) ← code.read 0 0 bits
    if symbol < 2 then
      readColumn limit fuel (code :: turns) left (← r.count (symbol + 1)) bits
    else
      let r ← r.settle limit
      match r.values[symbol - 1]? with
      | none => return (r.column, bits)
      | some b => readColumn limit fuel (code :: turns) left (← r.push limit b) bits

/-! ## The bytes of a block

The last column of the sorted rows is read, and the text is followed through it from row to row. -/

/-- Follow the bytes from a place of the sorted list on, `n` of them; with each stands the place of
the next. -/
def follow (sorted : Array (UInt8 × Nat)) : (n place : Nat) → Array UInt8 → Array UInt8
  | 0, _, out => out
  | n + 1, place, out =>
    let (b, next) := sorted.getD place (0, 0)
    follow sorted n next (out.push b)

/-- Undo the sorting of bytes by what follows them; `origin` is the place of the first byte. -/
def unsort (column : Array UInt8) (origin : Nat) : Array UInt8 :=
  let sorted := column.toList.zipIdx.mergeSort fun a b => a.1 ≤ b.1
  follow sorted.toArray column.size origin #[]

/-- Expand runs: after four equal bytes stands how many more of them there are.  The byte before has
come `n` times in a row. -/
def expandRuns : (before : UInt8) → (n : Nat) → List UInt8 → Array UInt8 →
    Except StreamError (Array UInt8)
  | _, n, [], out => if n = 4 then .error .corrupt else .ok out
  | before, n, b :: bs, out =>
    if n = 4 then expandRuns 0 0 bs (out ++ Array.replicate b.toNat before)
    else expandRuns b (if 0 < n ∧ b = before then n + 1 else 1) bs (out.push b)

/-! ## Blocks -/

/-- The first so many sorted bytes of a block are the same in a shuffled one; of those after them
some have a bit flipped.  Longer shuffled blocks are refused. -/
def maxShuffled : Nat := 617

/-- Read a block of at most `limit` sorted bytes: what it stands for, with its checksum. -/
def readBlock (limit : Nat) (bits : List Bool) :
    Except StreamError (Array UInt8 × UInt32 × List Bool) := do
  let (check, bits) ← takeBinary 32 0 bits
  let (shuffled, bits) ← takeBinary 1 0 bits
  let (origin, bits) ← takeBinary 24 0 bits
  if limit + 10 < origin then throw .corrupt
  let (values, bits) ← readValues bits
  let (codeCount, bits) ← takeBinary 3 0 bits
  if codeCount < 2 ∨ 6 < codeCount then throw .corrupt
  let (groupCount, bits) ← takeBinary 15 0 bits
  if groupCount < 1 then throw .corrupt
  let (turns, bits) ← readTurns groupCount (List.range codeCount) bits
  let (codes, bits) ← readCodes (values.length + 2) codeCount bits
  let turns := turns.map fun turn => codes.getD turn []
  let (column, bits) ←
    readColumn limit (2 * bits.length + 2) turns groupSize ⟨values, 0, 1, #[]⟩ bits
  if column.size ≤ origin ∨ (shuffled = 1 ∧ maxShuffled < column.size) then throw .corrupt
  let block ← expandRuns 0 0 (unsort column origin).toList #[]
  if Bytes.highChecksum block.toList ≠ UInt32.ofNat check then throw .corrupt
  return (block, UInt32.ofNat check, bits)

/-- Read bytes that are known beforehand. -/
def expect : List Nat → List Bool → Except StreamError (List Bool)
  | [], bits => .ok bits
  | b :: bs, bits => do
    let (found, bits) ← takeBinary 8 0 bits
    if found = b then expect bs bits else .error .corrupt

/-- The mark of a block, after its first byte. -/
def blockMark : List Nat := [0x41, 0x59, 0x26, 0x53, 0x59]

/-- The mark of the end, after its first byte. -/
def endMark : List Nat := [0x72, 0x45, 0x38, 0x50, 0x90]

/-- The checksum of blocks with one more block. -/
def joinChecks (checks check : UInt32) : UInt32 :=
  ((checks <<< 1) ||| (checks >>> 31)) ^^^ check

/-- Read blocks up to the end, where the checksum of all blocks stands; every block takes a bit at
least. -/
def readBlocks (limit : Nat) : (fuel : Nat) → (checks : UInt32) → Array UInt8 → List Bool →
    Except StreamError (Array UInt8)
  | 0, _, out, _ => .error (.truncated out)
  | fuel + 1, checks, out, bits => do
    let (first, bits) ← having out (takeBinary 8 0 bits)
    if first = 0x17 then
      let bits ← having out (expect endMark bits)
      let (found, _) ← having out (takeBinary 32 0 bits)
      if UInt32.ofNat found = checks then return out else throw .corrupt
    else if first = 0x31 then
      let bits ← having out (expect blockMark bits)
      let (block, check, bits) ← having out (readBlock limit bits)
      readBlocks limit fuel (joinChecks checks check) (out ++ block) bits
    else throw .corrupt

/-- The bytes that packed data stands for; its head says how many times a hundred thousand bytes a
block has at most. -/
def unpack (packed : List UInt8) : Except StreamError (List UInt8) := do
  let bits ← expect [0x42, 0x5A, 0x68] (highBitsOf packed)
  let (level, bits) ← takeBinary 8 0 bits
  if level < 0x31 ∨ 0x39 < level then throw .corrupt
  return (← readBlocks (100000 * (level - 0x30)) (bits.length + 1) 0 #[] bits).toList

end MdxPages.Zip.Bzip2
