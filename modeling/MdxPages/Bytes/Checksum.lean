/-!
# Bytes/Checksum — the cyclic redundancy checks of 32 bits

Both checks start and end with all bits inverted.  The common one takes the lowest bit of a byte
first and has the polynomial `0xEDB88320`; the other takes the highest bit first and has the same
polynomial with its bits reversed, `0x04C11DB7`.
-/

namespace MdxPages.Bytes

/-- One bit of the check. -/
def checkBit (c : UInt32) : UInt32 :=
  if c &&& 1 = 1 then (c >>> 1) ^^^ 0xEDB88320 else c >>> 1

/-- One byte of the check. -/
def checkByte (c : UInt32) (b : UInt8) : UInt32 :=
  let c := c ^^^ b.toUInt32
  checkBit (checkBit (checkBit (checkBit (checkBit (checkBit (checkBit (checkBit c)))))))

/-- The check of bytes. -/
def checksum (bs : List UInt8) : UInt32 :=
  bs.foldl checkByte 0xFFFFFFFF ^^^ 0xFFFFFFFF

/-- One bit of the check that takes the highest bit first. -/
def highCheckBit (c : UInt32) : UInt32 :=
  if c >>> 31 = 1 then (c <<< 1) ^^^ 0x04C11DB7 else c <<< 1

/-- One byte of the check that takes the highest bit first. -/
def highCheckByte (c : UInt32) (b : UInt8) : UInt32 :=
  let c := c ^^^ (b.toUInt32 <<< 24)
  highCheckBit (highCheckBit (highCheckBit (highCheckBit
    (highCheckBit (highCheckBit (highCheckBit (highCheckBit c)))))))

/-- The check of bytes that takes the highest bit first. -/
def highChecksum (bs : List UInt8) : UInt32 :=
  bs.foldl highCheckByte 0xFFFFFFFF ^^^ 0xFFFFFFFF

end MdxPages.Bytes
