import MdxPages.Text.Scan

/-!
# Bytes/Base64 — bytes written in an alphabet of sixty-four characters

Four characters stand for three bytes.  Characters outside the alphabet count for nothing, and the
padding that completes a last group ends the text.
-/

namespace MdxPages.Bytes

/-- The number below sixty-four that a character stands for. -/
def sextet? (c : Char) : Option Nat :=
  if c.isUpper then some (c.toNat - 65)
  else if c.isLower then some (c.toNat - 71)
  else if c.isDigit then some (c.toNat + 4)
  else if c = '+' then some 62
  else if c = '/' then some 63
  else none

/-- The numbers that characters stand for, if their last group is complete; `pending` of them are
in a group already, and `pads` marks of padding stand behind it. -/
def sextets? (pending pads : Nat) : List Char → Option (List Nat)
  | [] => if pending = 0 then some [] else none
  | c :: cs =>
    if c = '=' then
      if pending < 2 then sextets? pending pads cs
      else if 3 ≤ pending + pads then some []
      else sextets? pending (pads + 1) cs
    else
      match sextet? c with
      | some n => (sextets? ((pending + 1) % 4) 0 cs).map (n :: ·)
      | none => sextets? pending pads cs

/-- The bytes that groups of four numbers stand for, fewer for a last group that is shorter. -/
def ofSextets : List Nat → List UInt8
  | a :: b :: c :: d :: rest =>
    [UInt8.ofNat (4 * a + b / 16), UInt8.ofNat (16 * (b % 16) + c / 4),
      UInt8.ofNat (64 * (c % 4) + d)] ++ ofSextets rest
  | [a, b, c] => [UInt8.ofNat (4 * a + b / 16), UInt8.ofNat (16 * (b % 16) + c / 4)]
  | [a, b] => [UInt8.ofNat (4 * a + b / 16)]
  | _ => []

/-- The bytes that a text stands for. -/
def ofBase64? (cs : List Char) : Option (List UInt8) :=
  (sextets? 0 0 cs).map ofSextets

end MdxPages.Bytes
