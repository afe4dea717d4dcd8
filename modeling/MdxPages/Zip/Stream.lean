/-!
# Zip/Stream — what packed data of all kinds has in common

Packed data is read bit by bit or byte by byte up to its own end.  Where it ends too early, what was
unpacked until then is told; anything else that is wrong makes it corrupt.
-/

namespace MdxPages.Zip

/-- Why data cannot be unpacked: it ends too early, after what stands for some bytes, or it is no
packed data of its kind. -/
inductive StreamError
  | truncated (unpacked : Array UInt8)
  | corrupt
deriving DecidableEq, Repr

/-- Read when some bytes have been unpacked already, which are told if the data ends too early. -/
def having {α : Type} (unpacked : Array UInt8) : Except StreamError α → Except StreamError α
  | .error (.truncated _) => .error (.truncated unpacked)
  | result => result

/-- The bits of a byte, the lowest first. -/
def bitsOfByte (b : UInt8) : List Bool :=
  (List.range 8).map fun i => b.toNat.testBit i

/-- The bits of bytes, the lowest bit of each byte first. -/
def bitsOf (bs : List UInt8) : List Bool :=
  bs.flatMap bitsOfByte

/-- The bits of bytes, the highest bit of each byte first. -/
def highBitsOf (bs : List UInt8) : List Bool :=
  bs.flatMap fun b => (bitsOfByte b).reverse

/-- The number in the next `n` bits, the lowest first, and the rest. -/
def takeNumber : Nat → List Bool → Except StreamError (Nat × List Bool)
  | 0, bits => .ok (0, bits)
  | _ + 1, [] => .error (.truncated #[])
  | n + 1, b :: bits => do
    let (high, rest) ← takeNumber n bits
    return (b.toNat + 2 * high, rest)

/-- The number whose binary digits are those of `high` and then the next `n` bits, and the rest. -/
def takeBinary : (n high : Nat) → List Bool → Except StreamError (Nat × List Bool)
  | 0, high, bits => .ok (high, bits)
  | _ + 1, _, [] => .error (.truncated #[])
  | n + 1, high, b :: bits => takeBinary n (2 * high + b.toNat) bits

/-- The symbols of a given code length, in order. -/
def symbolsOfLength (lengths : List Nat) (length : Nat) : List Nat :=
  lengths.zipIdx.filterMap fun (l, s) => if l = length then some s else none

/-- Repeat what stands `distance` bytes before the end, `length` bytes of it. -/
def repeatBytes (distance : Nat) : (length : Nat) → Array UInt8 → Except StreamError (Array UInt8)
  | 0, out => .ok out
  | length + 1, out =>
    if distance ≤ out.size then
      repeatBytes distance length (out.push (out.getD (out.size - distance) 0))
    else .error .corrupt

end MdxPages.Zip
