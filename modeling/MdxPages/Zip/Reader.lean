import MdxPages.Bytes.Basic
import MdxPages.Bytes.Checksum
import MdxPages.Fault
import MdxPages.Zip.Bzip2
import MdxPages.Zip.Inflate
import MdxPages.Zip.Lzma

/-!
# Zip/Reader — the entries of a zip archive

An archive is read from its end: the end record says where the directory is, the directory names the
entries, and only opening an entry looks at its own header.  Numbers that need more than four bytes
stand in a record before the end record, and in the extra data of entries.  What is found wrong is a
fault of the kind `corruptArchive`.
-/

namespace MdxPages.Zip

/-! ## The code page of old names

Names without the mark for UTF-8 are written in code page 437: ASCII, and the characters of the
table for the upper half. -/

/-- The characters of the bytes from 128. -/
def upperHalf : List Char :=
  ("ÇüéâäàåçêëèïîìÄÅÉæÆôöòûùÿÖÜ¢£¥₧ƒ" ++
    "áíóúñÑªº¿⌐¬½¼¡«»░▒▓│┤╡╢╖╕╣║╗╝╜╛┐" ++
    "└┴┬├─┼╞╟╚╔╩╦╠═╬╧╨╤╥╙╘╒╓╫╪┘┌█▄▌▐▀" ++
    "αßΓπΣσµτΦΘΩδ∞φε∩≡±≥≤⌠⌡÷≈°∙·√ⁿ²■\u00a0").toList

/-- The character of a byte. -/
def codePageChar (b : UInt8) : Char :=
  if b < 128 then Char.ofNat b.toNat else upperHalf.getD (b.toNat - 128) ' '

/-- The text of bytes in the code page. -/
def codePageText (bs : List UInt8) : String :=
  String.ofList (bs.map codePageChar)

/-! ## Entries -/

/-- An entry as the directory of an archive describes it; `written` is its name before anything
after a zero character is cut off, offsets count from the start of the file, and `limit` is the
offset that its data may not pass. -/
structure Entry where
  name : String
  written : String
  flags : Nat
  method : Nat
  checksum : Nat
  packedSize : Nat
  size : Nat
  offset : Int
  limit : Int
deriving Repr, Inhabited

/-- Whether an entry is a folder, which the last character of its name says. -/
def Entry.isFolder (e : Entry) : Except Fault Bool :=
  match e.name.toList.getLast? with
  | some c => .ok (c == '/')
  | none => .error .namelessEntry

/-- Where the directory of an archive is, and by how much offsets in it are off because something
stands before the archive. -/
structure DirectoryPlace where
  start : Int
  size : Nat
  shift : Int
deriving Repr, Inhabited

/-- The sizes and the offset of an entry. -/
structure Extent where
  size : Nat
  packedSize : Nat
  offset : Nat
deriving Repr, Inhabited

/-- The mark of the header of an entry. -/
def localMark : List UInt8 := [0x50, 0x4B, 3, 4]

/-- The mark of an entry in the directory. -/
def entryMark : List UInt8 := [0x50, 0x4B, 1, 2]

/-- The mark of the end record. -/
def endMark : List UInt8 := [0x50, 0x4B, 5, 6]

/-- The mark of the wide end record, whose numbers have eight bytes. -/
def wideEndMark : List UInt8 := [0x50, 0x4B, 6, 6]

/-- The mark of the locator, which stands between the wide end record and the end record. -/
def locatorMark : List UInt8 := [0x50, 0x4B, 6, 7]

/-- The size of the end record without its comment. -/
def endSize : Nat := 22

/-- The size of the wide end record. -/
def wideEndSize : Nat := 56

/-- The size of the locator. -/
def locatorSize : Nat := 20

/-- The size of an entry of the directory without its name, extra data and comment. -/
def entrySize : Nat := 46

/-- The size of the header of an entry without its name and extra data. -/
def headerSize : Nat := 30

/-- The position of the last occurrence of a pattern; `position` is that of the first byte. -/
def lastIndex? (pattern : List UInt8) (position : Nat) : List UInt8 → Option Nat
  | [] => none
  | b :: bs =>
    match lastIndex? pattern (position + 1) bs with
    | some i => some i
    | none => if pattern.isPrefixOf (b :: bs) then some position else none

/-- The position of the end record: at the very end, or before a comment. -/
def endRecord? (data : List UInt8) : Option Nat :=
  let atEnd := data.drop (data.length - endSize)
  if data.length < endSize then none
  else if endMark.isPrefixOf atEnd && atEnd.drop 20 == [0, 0] then some (data.length - endSize)
  else
    let start := data.length - (0x10000 + endSize)
    match lastIndex? endMark start (data.drop start) with
    | some i => if i + endSize ≤ data.length then some i else none
    | none => none

/-- The number in `n` bytes from a position. -/
def numberAt (position n : Nat) (data : List UInt8) : Nat :=
  Bytes.number (Bytes.slice position n data)

/-- The position of the wide end record before the end record, if there is one. -/
def wideEndRecord? (data : List UInt8) (position : Nat) : Except Fault (Option Nat) := do
  if position < locatorSize then return none
  let locator := Bytes.slice (position - locatorSize) locatorSize data
  if !locatorMark.isPrefixOf locator then return none
  if numberAt 4 4 locator ≠ 0 ∨ 1 < numberAt 16 4 locator then
    throw (.corruptArchive "zipfiles that span multiple disks are not supported")
  if position < locatorSize + wideEndSize then throw (.corruptArchive "File is not a zip file")
  let wide := position - locatorSize - wideEndSize
  return if wideEndMark.isPrefixOf (data.drop wide) then some wide else none

/-- The place of a directory of a size that should start at an offset and ends at a position. -/
def DirectoryPlace.ofEnd (position size offset : Nat) : Except Fault DirectoryPlace :=
  if position < size then .error (.corruptArchive "Bad offset for central directory")
  else .ok ⟨(position : Int) - size, size, (position : Int) - size - offset⟩

/-- The place of the directory. -/
def directoryPlace (data : List UInt8) : Except Fault DirectoryPlace := do
  match endRecord? data with
  | none => throw (.corruptArchive "File is not a zip file")
  | some position =>
    match ← wideEndRecord? data position with
    | some wide =>
      DirectoryPlace.ofEnd wide (numberAt (wide + 40) 8 data) (numberAt (wide + 48) 8 data)
    | none =>
      DirectoryPlace.ofEnd position (numberAt (position + 12) 4 data)
        (numberAt (position + 16) 4 data)

/-- The text of a name, in UTF-8 if the flags say so. -/
def nameText (flags : Nat) (bs : List UInt8) : Except Fault String :=
  if flags.testBit 11 then
    match Bytes.text? bs with
    | some s => .ok s
    | none => .error .badEncoding
  else .ok (codePageText bs)

/-- The greatest number of four bytes, which says that a number stands in the extra data. -/
def wideMarker : Nat := 0xFFFFFFFF

/-- The number of eight bytes at the start of a piece of extra data, and what follows it. -/
def takeWide (bs : List UInt8) : Except Fault (Nat × List UInt8) :=
  match Bytes.takeExactly? 8 bs with
  | some (number, rest) => .ok (Bytes.number number, rest)
  | none => .error (.corruptArchive "Corrupt zip64 extra field.")

/-- Take a number from a piece of extra data if it is said to stand there. -/
def widen (isThere : Bool) (n : Nat) (bs : List UInt8) : Except Fault (Nat × List UInt8) :=
  if isThere then takeWide bs else .ok (n, bs)

/-- The extent of an entry with the numbers that stand in a piece of extra data. -/
def Extent.widened (e : Extent) (bs : List UInt8) : Except Fault Extent := do
  let (size, bs) ← widen (e.size == wideMarker || e.size == 0xFFFFFFFFFFFFFFFF) e.size bs
  let (packedSize, bs) ← widen (e.packedSize == wideMarker) e.packedSize bs
  let (offset, _) ← widen (e.offset == wideMarker) e.offset bs
  return ⟨size, packedSize, offset⟩

/-- The extent of an entry under its extra data, a sequence of pieces with a kind and a length;
`fuel` bounds their number. -/
def readExtra : (fuel : Nat) → Extent → List UInt8 → Except Fault Extent
  | 0, e, _ => .ok e
  | fuel + 1, e, extra =>
    if extra.length < 4 then .ok e
    else
      let length := numberAt 2 2 extra
      if extra.length < length + 4 then .error (.corruptArchive "Corrupt extra field")
      else do
        let e ← if numberAt 0 2 extra = 1 then e.widened (Bytes.slice 4 length extra) else pure e
        readExtra fuel e (extra.drop (length + 4))

/-- The highest version of the format that is understood. -/
def maxVersion : Nat := 63

/-- Read the entries of a directory of which `left` bytes are left; `data` starts with them.  The
directory itself is the limit of their data. -/
def readEntries (place : DirectoryPlace) (left : Nat) (data : List UInt8) :
    Except Fault (List Entry) :=
  if left = 0 then .ok []
  else do
    let header := data.take entrySize
    if header.length < entrySize then
      throw (.corruptArchive "Truncated central directory")
    if !entryMark.isPrefixOf header then
      throw (.corruptArchive "Bad magic number for central directory")
    let nameLength := numberAt 28 2 header
    let extraLength := numberAt 30 2 header
    let commentLength := numberAt 32 2 header
    let flags := numberAt 8 2 header
    let written ← nameText flags (Bytes.slice entrySize nameLength data)
    let version := numberAt 6 1 header
    if maxVersion < version then
      throw (.unsupportedArchive
        ("zip file version " ++ toString (version / 10) ++ "." ++ toString (version % 10)))
    let extra := Bytes.slice (entrySize + nameLength) extraLength data
    let extent ← readExtra extra.length
      ⟨numberAt 24 4 header, numberAt 20 4 header, numberAt 42 4 header⟩ extra
    let entry : Entry :=
      { name := String.ofList (written.toList.takeWhile (· != '\x00'))
        written
        flags
        method := numberAt 10 2 header
        checksum := numberAt 16 4 header
        packedSize := extent.packedSize
        size := extent.size
        offset := extent.offset + place.shift
        limit := place.start }
    let used := entrySize + nameLength + extraLength + commentLength
    return entry :: (← readEntries place (left - used) (data.drop used))
termination_by left
decreasing_by
  simp only [entrySize]
  omega

/-- The least of some offsets that is beyond a given one, if there is any. -/
def nextOffset? (offset : Int) : List Int → Option Int
  | [] => none
  | o :: os =>
    match nextOffset? offset os with
    | some next => if offset < o ∧ o < next then some o else some next
    | none => if offset < o then some o else none

/-- Limit the data of each entry to what is before the next entry, so that no bytes serve two
entries.  Of entries at one offset only the first has any data; `seen` holds the offsets of the
entries before, `offsets` all of them. -/
def limitEntries (offsets : List Int) : (seen : List Int) → List Entry → List Entry
  | _, [] => []
  | seen, e :: es =>
    let limit :=
      if seen.contains e.offset then e.offset else (nextOffset? e.offset offsets).getD e.limit
    { e with limit } :: limitEntries offsets (e.offset :: seen) es

/-- The entries of an archive, in the order of its directory. -/
def entries (data : List UInt8) : Except Fault (List Entry) := do
  let place ← directoryPlace data
  let listed ← readEntries place place.size (Bytes.slice place.start.toNat place.size data)
  return limitEntries (listed.map Entry.offset) [] listed

/-- What positions in a file stay below, in 64 bits with a sign. -/
def positionBound : Int := 0x8000000000000000

/-- The last position that a file may have. -/
def maxPosition : Int := 0xFFFFFFFF000

/-- Where the data of an entry starts: behind its own header, which has to name it too.  The data
has to end before the limit of the entry. -/
def dataStart (data : List UInt8) (e : Entry) : Except Fault Nat := do
  if e.offset < -positionBound ∨ positionBound ≤ e.offset then throw .unfitPosition
  if e.offset < 0 ∨ maxPosition < e.offset then throw .refusedPosition
  let header := Bytes.slice e.offset.toNat headerSize data
  if header.length < headerSize then throw (.corruptArchive "Truncated file header")
  if !localMark.isPrefixOf header then
    throw (.corruptArchive "Bad magic number for file header")
  let nameLength := numberAt 26 2 header
  let name := Bytes.slice (e.offset.toNat + headerSize) nameLength data
  if e.flags.testBit 5 then throw (.unsupportedArchive "compressed patched data (flag bit 5)")
  if e.flags.testBit 6 then throw (.unsupportedArchive "strong encryption (flag bit 6)")
  if (← nameText (numberAt 6 2 header) name) ≠ e.written then
    throw (.corruptArchive ("File name in directory " ++ Text.quoted e.written ++ " and header " ++
      Text.quotedBytes name ++ " differ."))
  let start := min data.length (e.offset.toNat + headerSize + nameLength + numberAt 28 2 header)
  if e.limit < start + e.packedSize then
    throw (.corruptArchive
      ("Overlapped entries: " ++ Text.quoted e.written ++ " (possible zip bomb)"))
  if e.flags.testBit 0 then throw (.encryptedEntry e.name)
  return start

/-- The bytes that the packed bytes of an entry stand for, which may be fewer than its header says
where the file ends too early. -/
def unpack (e : Entry) (packed : List UInt8) : Except Fault (List UInt8) :=
  let whole (unpacked : List UInt8) : Except Fault (List UInt8) :=
    if packed.length < e.packedSize && (packed.isEmpty || unpacked.length < e.size) then
      .error .endOfFile
    else .ok unpacked
  let settle (corruption : Fault) : Except StreamError (List UInt8) → Except Fault (List UInt8)
    | .ok bytes => .ok bytes
    | .error (.truncated unpacked) => whole unpacked.toList
    | .error .corrupt => .error corruption
  match e.method with
  | 0 => whole packed
  | 8 => settle .corruptStream (inflate packed)
  | 12 => settle .corruptBlocks (Bzip2.unpack packed)
  | 14 => settle .corruptCode (Lzma.unpack packed)
  | _ => .error (.unsupportedArchive "That compression method is not supported")

/-- The bytes of an entry. -/
def read (data : List UInt8) (e : Entry) : Except Fault (List UInt8) := do
  let packed := Bytes.slice (← dataStart data e) e.packedSize data
  let bytes := (← unpack e packed).take e.size
  if (Bytes.checksum bytes).toNat ≠ e.checksum then
    throw (.corruptArchive ("Bad CRC-32 for file " ++ Text.quoted e.name))
  return bytes

end MdxPages.Zip
