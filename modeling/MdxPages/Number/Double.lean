/-!
# Number/Double — binary64 numbers as exact data

A finite number is `±m·2^e` in canonical form: `m < 2^53` and `e ≥ -1074`, with `m ≥ 2^52` unless
`e = -1074`.  Every number here is produced by `ofRatio`, which rounds a quotient of natural
numbers to the nearest such value, a tie going to the even mantissa; all arithmetic is exact
arithmetic on quotients followed by that one rounding.
-/

namespace MdxPages

/-- A binary64 number. -/
inductive Double
  | finite (negative : Bool) (mantissa : Nat) (exponent : Int)
  | infinite (negative : Bool)
  | nan
deriving DecidableEq, Repr, Inhabited

/-- The integer nearest to `num / den`, a tie going to the even one. -/
def roundDiv (num den : Nat) : Nat :=
  let q := num / den
  let r := num % den
  if 2 * r < den then q
  else if den < 2 * r then q + 1
  else if q % 2 = 0 then q else q + 1

/-- `2^e` as a quotient. -/
def twoPow (e : Int) : Nat × Nat :=
  if 0 ≤ e then (Nat.pow 2 e.toNat, 1) else (1, Nat.pow 2 (-e).toNat)

/-- `10^e` as a quotient. -/
def tenPow (e : Int) : Nat × Nat :=
  if 0 ≤ e then (Nat.pow 10 e.toNat, 1) else (1, Nat.pow 10 (-e).toNat)

namespace Double

/-- Zero of the given sign. -/
def zero (negative : Bool) : Double :=
  .finite negative 0 (-1074)

/-- The greatest `e` with `2^e ≤ num / den`, for positive `num` and `den`. -/
def binaryExponent (num den : Nat) : Int :=
  let e : Int := (num.log2 : Int) - den.log2
  let (up, down) := twoPow e
  if den * up ≤ num * down then e else e - 1

/-- The number nearest to `± num / den`, a tie going to the even mantissa. -/
def ofRatio (negative : Bool) (num den : Nat) : Double :=
  if num = 0 then zero negative
  else
    let q := max (binaryExponent num den - 52) (-1074)
    let (up, down) := twoPow q
    let m := roundDiv (num * down) (den * up)
    let (m, q) := if m = Nat.pow 2 53 then (Nat.pow 2 52, q + 1) else (m, q)
    if 971 < q then .infinite negative else .finite negative m q

/-- The number nearest to an integer. -/
def ofInt (i : Int) : Double :=
  ofRatio (i < 0) i.natAbs 1

/-- The number nearest to `± digits · 10^e`.  Exponents far outside the range are answered without
computing the power. -/
def ofDecimal (negative : Bool) (digits : Nat) (e : Int) : Double :=
  let size : Int := (Nat.toDigits 10 digits).length
  if digits = 0 then zero negative
  else if 310 < size + e then .infinite negative
  else if size + e < -330 then zero negative
  else
    let (up, down) := tenPow e
    ofRatio negative (digits * up) down

/-- The absolute value of a finite number as a quotient. -/
def magnitude (mantissa : Nat) (exponent : Int) : Nat × Nat :=
  let (up, down) := twoPow exponent
  (mantissa * up, down)

/-- Whether the number is zero, of either sign. -/
def isZero : Double → Bool
  | .finite _ m _ => m == 0
  | _ => false

/-- The integer obtained by dropping the fraction of a finite number. -/
def truncate (negative : Bool) (mantissa : Nat) (exponent : Int) : Int :=
  let (num, den) := magnitude mantissa exponent
  let n : Int := num / den
  if negative then -n else n

/-- Whether a number is finite and has no fraction. -/
def isInteger : Double → Bool
  | .finite _ m e => let (num, den) := magnitude m e; num % den == 0
  | _ => false

/-- The sign as a factor. -/
def sign (negative : Bool) : Int :=
  if negative then -1 else 1

/-- The order of two numbers; not-a-number is not ordered. -/
def compare : Double → Double → Option Ordering
  | .nan, _ | _, .nan => none
  | .infinite a, .infinite b => some (Ord.compare b a)
  | .infinite a, .finite .. => some (if a then .lt else .gt)
  | .finite .., .infinite b => some (if b then .gt else .lt)
  | .finite s m e, .finite t n f =>
    let (a, b) := magnitude m e
    let (c, d) := magnitude n f
    some (Ord.compare (sign s * (a * d)) (sign t * (c * b)))

/-- The number nearest to the sum of a number and an integer. -/
def addInt : Double → Int → Double
  | .finite s m e, i =>
    let (a, b) := magnitude m e
    let sum := sign s * a + i * b
    if sum = 0 then zero false else ofRatio (sum < 0) sum.natAbs b
  | x, _ => x

/-- The number with the other sign. -/
def neg : Double → Double
  | .finite s m e => .finite (!s) m e
  | .infinite s => .infinite (!s)
  | .nan => .nan

/-- The number nearest to a sum; zeros of both signs make the positive one. -/
def add : Double → Double → Double
  | .nan, _ | _, .nan => .nan
  | .infinite s, .infinite t => if s = t then .infinite s else .nan
  | .infinite s, .finite .. | .finite .., .infinite s => .infinite s
  | .finite s m e, .finite t n f =>
    let (a, b) := magnitude m e
    let (c, d) := magnitude n f
    let sum := sign s * (a * d) + sign t * (c * b)
    if sum = 0 then zero (s && t) else ofRatio (sum < 0) sum.natAbs (b * d)

/-- Whether a number has a minus sign. -/
def isNegative : Double → Bool
  | .finite s _ _ | .infinite s => s
  | .nan => false

/-- The number nearest to a product. -/
def mul : Double → Double → Double
  | .nan, _ | _, .nan => .nan
  | .finite s m e, .finite t n f =>
    let (a, b) := magnitude m e
    let (c, d) := magnitude n f
    ofRatio (s != t) (a * c) (b * d)
  | x, y => if x.isZero || y.isZero then .nan else .infinite (x.isNegative != y.isNegative)

end Double

end MdxPages
