import MdxPages.Bytes.Basic
import MdxPages.Zip.Stream

/-!
# Zip/Lzma — unpacking data in a range code

The bits of a range code have chances.  An interval is divided in proportion to the chance that the
next bit is a zero; in which part a number lies, of which the data gives more and more bytes, tells
the bit.  Each bit belongs to a slot that holds its chance, and the bits read there before move the
chance.  What the bits say are symbols: a byte, a repetition at a new distance, or one at a distance
used lately.
-/

namespace MdxPages.Zip.Lzma

/-! ## Bits -/

/-- Where reading is: the width of the interval, how far from its start the number lies, the bytes
to come, and for each slot how many chances of 2048 a zero has. -/
structure Position where
  width : UInt32
  offset : UInt32
  rest : List UInt8
  chances : Array UInt32

/-- A step of reading, which moves the position. -/
abbrev Reading (α : Type) : Type := StateT Position (Except StreamError) α

/-- Take one more byte of the number if the interval is too narrow to be divided. -/
def widen : Reading Unit := fun p =>
  if p.width < 0x1000000 then
    match p.rest with
    | [] => .error (.truncated #[])
    | b :: rest =>
      .ok ((), { p with width := p.width <<< 8, offset := (p.offset <<< 8) ||| b.toUInt32, rest })
  else .ok ((), p)

/-- The chance of a slot at first: zero and one are equally likely. -/
def evenChance : UInt32 := 1024

/-- Read the bit of a slot. -/
def readBit (slot : Nat) : Reading Bool := do
  widen
  let p ← get
  let chance := p.chances.getD slot evenChance
  let bound := (p.width >>> 11) * chance
  if p.offset < bound then
    set { p with
      width := bound, chances := p.chances.setIfInBounds slot (chance + ((2048 - chance) >>> 5)) }
    return false
  else
    set { p with
      width := p.width - bound
      offset := p.offset - bound
      chances := p.chances.setIfInBounds slot (chance - (chance >>> 5)) }
    return true

/-- Read `n` bits of even chances that have no slots; `high` has the digits before them. -/
def readEven : (n high : Nat) → Reading Nat
  | 0, high => return high
  | n + 1, high => do
    widen
    let p ← get
    let half := p.width >>> 1
    let above := p.offset - half
    if above >>> 31 = 1 then
      set { p with width := half }
      readEven n (2 * high)
    else
      set { p with width := half, offset := above }
      readEven n (2 * high + 1)

/-- Read `n` digits, the highest first.  The slot of a digit tells those before it, which `node` has
after a leading one. -/
def readDigits (slots : Nat) : (n node : Nat) → Reading Nat
  | 0, node => return node
  | n + 1, node => do
    let digit ← readBit (slots + node)
    readDigits slots n (2 * node + digit.toNat)

/-- Read a number of `n` digits, the highest first. -/
def readNumber (slots n : Nat) : Reading Nat :=
  return (← readDigits slots n 1) - Nat.pow 2 n

/-- Read a number of `n` digits, the lowest first, with the slots of `readDigits`. -/
def readReversed (slots : Nat) : (n node : Nat) → Reading Nat
  | 0, _ => return 0
  | n + 1, node => do
    let digit ← readBit (slots + node)
    return digit.toNat + 2 * (← readReversed slots n (2 * node + digit.toNat))

/-! ## Slots

Which slot a bit belongs to is settled by what has been read before: the kind of the last symbol,
the byte before, and the place. -/

/-- The slots that tell a byte from a repetition, for each phase and place. -/
def repeatsAt : Nat := 0

/-- The slots that tell a new distance from one used lately, for each phase. -/
def recentAt : Nat := 192

/-- The slots that tell the latest distance from the others, for each phase. -/
def secondAt : Nat := 204

/-- The slots that tell the second distance from the third and the fourth. -/
def thirdAt : Nat := 216

/-- The slots that tell the third distance from the fourth. -/
def fourthAt : Nat := 228

/-- The slots that tell a repetition of one byte at the latest distance from longer ones, for each
phase and place. -/
def longAt : Nat := 240

/-- The slots of the size class of a distance, for four classes of lengths. -/
def sizesAt : Nat := 432

/-- The slots of the low digits of distances of a middle size. -/
def middlesAt : Nat := 688

/-- The slots of the four lowest digits of great distances. -/
def lowestAt : Nat := 816

/-- The slots of lengths at new distances. -/
def lengthsAt : Nat := 832

/-- The slots of lengths at distances used lately. -/
def recentLengthsAt : Nat := 1346

/-- The slots of bytes. -/
def bytesAt : Nat := 1860

/-! ## Symbols -/

/-- How data was packed: how many of the highest bits of the byte before and of the lowest bits of
the place choose the slots of a byte, how many of the latter those of other bits, and how far back
repetitions may start. -/
structure Settings where
  beforeBits : Nat
  placeBits : Nat
  phasePlaceBits : Nat
  window : Nat
deriving Repr

/-- What has been unpacked: the bytes, the phase, which says what the last few symbols were, and the
distances used lately. -/
structure Unpacked where
  bytes : Array UInt8
  phase : Nat
  first : Nat
  second : Nat
  third : Nat
  fourth : Nat
deriving Repr

/-- Nothing unpacked yet. -/
def Unpacked.start : Unpacked :=
  ⟨#[], 0, 0, 0, 0, 0⟩

/-- The byte at a distance from the last one. -/
def Unpacked.byteAt (distance : Nat) (u : Unpacked) : UInt8 :=
  if distance < u.bytes.size then u.bytes.getD (u.bytes.size - 1 - distance) 0 else 0

/-- The phases from this one on follow a repetition. -/
def repeatedPhase : Nat := 7

/-- Read the digits of a byte of which the byte at the latest distance has the digits `guide`, as
long as the digits agree; the slots tell the next digit of the guide too. -/
def readGuided (slots : Nat) : (guide : List Bool) → (node : Nat) → Reading Nat
  | [], node => return node
  | g :: guide, node => do
    let digit ← readBit (slots + (if g then 0x200 else 0x100) + node)
    let node := 2 * node + digit.toNat
    if digit = g then readGuided slots guide node else readDigits slots guide.length node

/-- Read a byte. -/
def readByte (s : Settings) (u : Unpacked) : Reading Unpacked := do
  let place := u.bytes.size % Nat.pow 2 s.placeBits
  let before := (u.byteAt 0).toNat / Nat.pow 2 (8 - s.beforeBits)
  let slots := bytesAt + 0x300 * (place * Nat.pow 2 s.beforeBits + before)
  let digits ←
    if u.phase < repeatedPhase then readDigits slots 8 1
    else readGuided slots (bitsOfByte (u.byteAt u.first)).reverse 1
  let phase := if u.phase < 4 then 0 else if u.phase < 10 then u.phase - 3 else u.phase - 6
  return { u with bytes := u.bytes.push (UInt8.ofNat digits), phase }

/-- Read the length of a repetition. -/
def readLength (slots place : Nat) : Reading Nat := do
  match ← readBit slots with
  | false => return 2 + (← readNumber (slots + 2 + 8 * place) 3)
  | true =>
    match ← readBit (slots + 1) with
    | false => return 10 + (← readNumber (slots + 130 + 8 * place) 3)
    | true => return 18 + (← readNumber (slots + 258) 8)

/-- Read a new distance for a repetition of some length. -/
def readDistance (length : Nat) : Reading Nat := do
  let size ← readNumber (sizesAt + 64 * min (length - 2) 3) 6
  let high := 2 + size % 2
  let digits := size / 2 - 1
  if size < 4 then return size
  else if size < 14 then
    let least := high * Nat.pow 2 digits
    return least + (← readReversed (middlesAt + least - size - 1) digits 1)
  else
    let high ← readEven (digits - 4) high
    return 16 * high + (← readReversed lowestAt 4 1)

/-- Repeat bytes at the latest distance, which has to be inside the window. -/
def Unpacked.extend (s : Settings) (length : Nat) (u : Unpacked) : Except StreamError Unpacked := do
  if s.window ≤ u.first then throw .corrupt
  return { u with bytes := ← repeatBytes (u.first + 1) length u.bytes }

/-- The distance that stands for the end. -/
def endDistance : Nat := 0xFFFFFFFF

/-- Read the end, where the number lies at the start of the interval. -/
def readEnd : Reading (Option Unpacked) := do
  widen
  if (← get).offset = 0 then return none else throw .corrupt

/-- Read a repetition at a new distance, or the end. -/
def readNew (s : Settings) (place : Nat) (u : Unpacked) : Reading (Option Unpacked) := do
  let length ← readLength lengthsAt place
  let distance ← readDistance length
  if distance = endDistance then readEnd
  else
    let phase := if u.phase < repeatedPhase then 7 else 10
    let u := { u with
      phase, first := distance, second := u.first, third := u.second, fourth := u.third }
    return some (← u.extend s length)

/-- Read which of the distances used lately comes again, but for the latest, and make it the
latest. -/
def readOlder (u : Unpacked) : Reading Unpacked := do
  match ← readBit (thirdAt + u.phase) with
  | false => return { u with first := u.second, second := u.first }
  | true =>
    match ← readBit (fourthAt + u.phase) with
    | false => return { u with first := u.third, second := u.first, third := u.second }
    | true =>
      return { u with first := u.fourth, second := u.first, third := u.second, fourth := u.third }

/-- Read a repetition at a distance used lately. -/
def readRecent (s : Settings) (place : Nat) (u : Unpacked) : Reading Unpacked := do
  if u.bytes.isEmpty then throw .corrupt
  let older ← readBit (secondAt + u.phase)
  let long ← if older then pure true else readBit (longAt + 16 * u.phase + place)
  let phase := if repeatedPhase ≤ u.phase then 11 else if long then 8 else 9
  let u ← if older then readOlder u else pure u
  let length ← if long then readLength recentLengthsAt place else pure 1
  Unpacked.extend s length { u with phase }

/-- Read a symbol; nothing is left to be read after the end. -/
def readSymbol (s : Settings) (u : Unpacked) : Reading (Option Unpacked) := do
  let place := u.bytes.size % Nat.pow 2 s.phasePlaceBits
  match ← readBit (repeatsAt + 16 * u.phase + place) with
  | false => return some (← readByte s u)
  | true =>
    match ← readBit (recentAt + u.phase) with
    | false => readNew s place u
    | true => return some (← readRecent s place u)

/-- Read symbols up to the end. -/
def readSymbols (s : Settings) : (fuel : Nat) → Position → Unpacked →
    Except StreamError (Array UInt8)
  | 0, _, u => .error (.truncated u.bytes)
  | fuel + 1, p, u => do
    match ← having u.bytes ((readSymbol s u).run p) with
    | (none, _) => return u.bytes
    | (some u, p) => readSymbols s fuel p u

/-! ## The data of an entry

Before the data stand its version, the number of bytes of its properties, and the properties. -/

/-- Settings in five bytes: one number made of the numbers of bits, and the size of the window,
which is at least 4096 and a multiple of sixteen. -/
def Settings.ofBytes? : List UInt8 → Option Settings
  | [b, w₀, w₁, w₂, w₃] =>
    let beforeBits := b.toNat % 9
    let placeBits := b.toNat / 9 % 5
    if 224 < b.toNat ∨ 4 < beforeBits + placeBits then none
    else
      some ⟨beforeBits, placeBits, b.toNat / 45,
        (max 4096 (Bytes.number [w₀, w₁, w₂, w₃]) + 15) / 16 * 16⟩
  | _ => none

/-- How many bits a byte of the data tells at most: dividing the interval takes away a 67th of it at
least. -/
def maxBitsOfByte : Nat := 512

/-- The bytes that data in a range code stands for; it starts with a zero byte. -/
def unpackCode (s : Settings) (packed : List UInt8) : Except StreamError (Array UInt8) :=
  match packed with
  | [] => .error (.truncated #[])
  | zero :: rest =>
    if zero ≠ 0 then .error .corrupt
    else if rest.length < 4 then .error (.truncated #[])
    else
      let offset := (rest.take 4).foldl (fun (n : UInt32) b => (n <<< 8) ||| b.toUInt32) 0
      let slots := bytesAt + 0x300 * Nat.pow 2 (s.beforeBits + s.placeBits)
      let start : Position := ⟨0xFFFFFFFF, offset, rest.drop 4, Array.replicate slots evenChance⟩
      readSymbols s (maxBitsOfByte * packed.length) start Unpacked.start

/-- The bytes that packed data stands for.  Two bytes of version and the length of the settings come
before the settings, and the code follows them. -/
def unpack (packed : List UInt8) : Except StreamError (List UInt8) := do
  let settingsLength := Bytes.number (Bytes.slice 2 2 packed)
  if packed.length ≤ 4 + settingsLength then throw (.truncated #[])
  match Settings.ofBytes? (Bytes.slice 4 settingsLength packed) with
  | none => throw .corrupt
  | some s => return (← unpackCode s (packed.drop (4 + settingsLength))).toList

end MdxPages.Zip.Lzma
