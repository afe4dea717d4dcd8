import MdxPages.Number.Double

/-!
# Number/Shortest — the fewest decimal digits that read back

`shortest` looks for a decimal of `n` digits, for `n = 1, 2, …`, among the two neighbours of the
value on the grid of such decimals, and takes the first that reads back as the value.  Of two that
do, the nearer one is taken, and of two equally near ones the even one.
-/

namespace MdxPages

/-- A decimal `digits · 10^exponent`. -/
structure Decimal where
  digits : Nat
  exponent : Int
deriving DecidableEq, Repr

namespace Decimal

/-- Drop the zeros at the end of the digits; `fuel` bounds their number. -/
def dropZeros : Nat → Decimal → Decimal
  | 0, d => d
  | fuel + 1, d =>
    if d.digits ≠ 0 ∧ d.digits % 10 = 0 then dropZeros fuel ⟨d.digits / 10, d.exponent + 1⟩ else d

/-- The digits of a decimal as characters. -/
def chars (d : Decimal) : List Char :=
  Nat.toDigits 10 d.digits

end Decimal

/-- The greatest `k` with `10^k ≤ num / den`, for positive `num` and `den`. -/
def decimalExponent (num den : Nat) : Int :=
  let k : Int := ((Nat.toDigits 10 num).length : Int) - (Nat.toDigits 10 den).length
  let (up, down) := tenPow k
  if den * up ≤ num * down then k else k - 1

/-- The decimal of `n` digits nearest to `num / den` that reads back as `value`, if one of its two
neighbours does. -/
def readingBack? (value : Double) (num den : Nat) (n : Nat) : Option Decimal :=
  let e := decimalExponent num den - (n - 1 : Nat)
  let (up, down) := tenPow e
  let low := num * down / (den * up)
  let rest := num * down % (den * up)
  let reads (c : Nat) : Bool := Double.ofDecimal false c e == value
  match reads low, reads (low + 1) with
  | true, true =>
    if 2 * rest < den * up ∨ (2 * rest = den * up ∧ low % 2 = 0) then some ⟨low, e⟩
    else some ⟨low + 1, e⟩
  | true, false => some ⟨low, e⟩
  | false, true => some ⟨low + 1, e⟩
  | false, false => none

/-- The shortest decimal that reads back as `m·2^e`, for a positive `m`. -/
def shortest (m : Nat) (e : Int) : Decimal :=
  let (num, den) := Double.magnitude m e
  let found := (List.range 17).findSome? fun n => readingBack? (.finite false m e) num den (n + 1)
  ((found.getD ⟨num, 0⟩).dropZeros 400)

/-- Decimal exponents for which a number is written without an exponent part. -/
def writtenPlain (e : Int) : Bool :=
  -4 ≤ e && e < 16

/-- A positive decimal as text: positional between `0.0001` and `10^16`, always with a point, and
in scientific form elsewhere, the exponent signed and of at least two digits. -/
def Decimal.text (d : Decimal) : List Char :=
  let ds := d.chars
  let point : Int := ds.length + d.exponent
  let e := point - 1
  if writtenPlain e then
    if point ≤ 0 then '0' :: '.' :: List.replicate (-point).toNat '0' ++ ds
    else
      let whole := ds.take point.toNat
      let fraction := ds.drop point.toNat
      whole ++ List.replicate (point.toNat - whole.length) '0' ++
        '.' :: (if fraction.isEmpty then ['0'] else fraction)
  else
    let mantissa := match ds with
      | [] => []
      | [c] => [c]
      | c :: cs => c :: '.' :: cs
    let power := Nat.toDigits 10 e.natAbs
    mantissa ++ 'e' :: (if e < 0 then '-' else '+') ::
      (List.replicate (2 - power.length) '0' ++ power)

namespace Double

/-- The text of a number: the shortest that reads back. -/
def text : Double → String
  | .finite negative m e =>
    let digits := if m = 0 then ['0', '.', '0'] else (shortest m e).text
    String.ofList (if negative then '-' :: digits else digits)
  | .infinite negative => if negative then "-inf" else "inf"
  | .nan => "nan"

/-- The text of a number with one decimal place, a half going to the even neighbour. -/
def textTenths : Double → String
  | .finite negative m e =>
    let (num, den) := magnitude m e
    let tenths := roundDiv (num * 10) den
    (if negative then "-" else "") ++ toString (tenths / 10) ++ "." ++ toString (tenths % 10)
  | x => x.text

end Double

end MdxPages
