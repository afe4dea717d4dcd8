import MdxPages.Number.Shortest

/-!
# Number/Basic — whole numbers and binary64 numbers side by side

`1` and `1.0` are different numbers with the same value: they compare equal and print differently.
Comparison is exact, whatever the sizes.

`text` and `plainText` write every number.  Whether a whole number has too many digits to be written
is another question (`isWritable`), which is asked where such a number can come up (see
`Value/Basic`).
-/

namespace MdxPages

/-- A number as it was written: whole, or with a fraction or exponent. -/
inductive Number
  | int (i : Int)
  | float (x : Double)
deriving DecidableEq, Repr, Inhabited

namespace Number

/-- A number as a quotient of an integer and a positive number, when it is finite. -/
def ratio? : Number → Option (Int × Nat)
  | .int i => some (i, 1)
  | .float (.finite s m e) =>
    let (a, b) := Double.magnitude m e
    some (Double.sign s * a, b)
  | .float _ => none

/-- The order of two numbers by value; not-a-number is not ordered. -/
def compare (x y : Number) : Option Ordering :=
  match x.ratio?, y.ratio? with
  | some (a, b), some (c, d) => some (Ord.compare (a * d) (c * b))
  | some _, none =>
    match y with
    | .float (.infinite negative) => some (if negative then .gt else .lt)
    | _ => none
  | none, some _ =>
    match x with
    | .float (.infinite negative) => some (if negative then .lt else .gt)
    | _ => none
  | none, none =>
    match x, y with
    | .float a, .float b => a.compare b
    | _, _ => none

/-- Whether one number is at most another. -/
def le (x y : Number) : Bool :=
  match x.compare y with
  | some .lt | some .eq => true
  | _ => false

/-- Whether one number is less than another. -/
def lt (x y : Number) : Bool :=
  x.compare y == some .lt

/-- The first of the two numbers that no other is less than. -/
def minFirst (x y : Number) : Number :=
  if y.lt x then y else x

/-- The first of the two numbers that no other is greater than. -/
def maxFirst (x y : Number) : Number :=
  if x.lt y then y else x

/-- Whether a number is zero. -/
def isZero : Number → Bool
  | .int i => i == 0
  | .float x => x.isZero

/-- The text of a number: an integer in decimal, another number by its shortest form. -/
def text : Number → String
  | .int i => toString i
  | .float x => x.text

/-- The text of a number in which an integral value has no point, and infinity and not-a-number
are written out. -/
def plainText : Number → String
  | .int i => toString i
  | .float .nan => "NaN"
  | .float (.infinite negative) => if negative then "-Infinity" else "Infinity"
  | .float (.finite s m e) =>
    if (Double.finite s m e).isInteger then toString (Double.truncate s m e)
    else (Double.finite s m e).text

/-- The quotient of two numbers, for a positive integer divisor. -/
def divNat (x : Number) (n : Nat) : Double :=
  match x with
  | .int i => Double.ofRatio (i < 0) i.natAbs n
  | .float (.finite s m e) =>
    let (a, b) := Double.magnitude m e
    Double.ofRatio s a (b * n)
  | .float y => y

end Number

end MdxPages
