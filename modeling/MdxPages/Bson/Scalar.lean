import MdxPages.Bytes.Basic
import MdxPages.Number.Double
import MdxPages.Text.Digit
import MdxPages.Text.Quoted
import MdxPages.Value.Moment

/-!
# Bson/Scalar — the scalars that BSON has and JSON has not

Each is carried along as a foreign value: by the name of its kind, its text, and the text that
stands for it inside a list.
-/

namespace MdxPages.Bson

/-- A foreign value whose text is that inside a list, too. -/
def plainForeign (kind text : String) : Value :=
  .foreign (.other kind text text)

/-- A foreign value whose text inside a list names the kind. -/
def wrappedForeign (kind text : String) : Value :=
  .foreign (.other kind text (kind ++ "('" ++ text ++ "')"))

/-- The hexadecimal digits of bytes. -/
def hexText (bs : List UInt8) : String :=
  String.ofList (bs.flatMap fun b => Text.hexDigits 2 b.toNat)

/-- An object identifier. -/
def objectId (bs : List UInt8) : Value :=
  wrappedForeign "ObjectId" (hexText bs)

/-! ## Moments -/

/-- The moment that is a number of milliseconds after the start of 1970; only the years from 1 to
9999 have a text. -/
def moment? (milliseconds : Int) : Option Value :=
  let days := milliseconds.fdiv 86400000
  let rest := (milliseconds - days * 86400000).toNat
  let (year, month, day) := Date.ofDays days
  if year < 1 ∨ 9999 < year then none
  else
    let time : TimeOfDay :=
      ⟨rest / 3600000, rest / 60000 % 60, rest / 1000 % 60, rest % 1000 * 1000⟩
    some (.ofDateTime ⟨year.toNat, month, day⟩ time none)

/-! ## Code, references and patterns -/

/-- A piece of code and the names that it sees, null if it sees none. -/
def code (source : String) (scope : Value) : Value :=
  .foreign (.code source ("Code(" ++ Text.quoted source ++ ", " ++ scope.inspect ++ ")"))

/-- A reference to a document: its collection, its identifier, its database if that is named, and
further fields. -/
def reference (collection id : Value) (database : Option Value) (fields : Entries Value) : Value :=
  plainForeign "DBRef" ("DBRef(" ++ collection.inspect ++ ", " ++ id.inspect ++
    database.elim "" (", " ++ ·.inspect) ++
    String.join (fields.map fun (key, v) => ", " ++ key ++ "=" ++ v.inspect) ++ ")")

/-- The names of the fields that make a document a reference. -/
def referenceFields : List String := ["$ref", "$id", "$db"]

/-- A document inside another one: a reference if it names a collection and an identifier, and if
what it names as a database is a text. -/
def embedded (fields : Entries Value) : Value :=
  match Entries.get? "$ref" fields, Entries.get? "$id" fields with
  | some collection, some id =>
    let database := Value.field "$db" fields
    if collection.str?.isSome && (database.isNull || database.str?.isSome) then
      reference collection id database.nonNull?
        (fields.filter fun (key, _) => !referenceFields.contains key)
    else .obj fields
  | _, _ => .obj fields

/-- The number that stands for a letter among the options of a pattern. -/
def patternFlag (b : UInt8) : Nat :=
  match Char.ofNat b.toNat with
  | 'i' => 2
  | 'l' => 4
  | 'm' => 8
  | 's' => 16
  | 'u' => 32
  | 'x' => 64
  | _ => 0

/-- A regular expression; every option counts once. -/
def pattern (source : String) (options : List UInt8) : Value :=
  let flags := options.eraseDups.foldl (fun n b => n + patternFlag b) 0
  plainForeign "Regex" ("Regex(" ++ Text.quoted source ++ ", " ++ toString flags ++ ")")

/-- A timestamp of a replicated log. -/
def timestamp (seconds count : Nat) : Value :=
  plainForeign "Timestamp" ("Timestamp(" ++ toString seconds ++ ", " ++ toString count ++ ")")

/-! ## Decimal numbers -/

/-- The text of `digits · 10^e`: positional unless the number is very small or the exponent is
positive. -/
def decimalText (digits : Nat) (e : Int) : String :=
  let cs := Nat.toDigits 10 digits
  let leading : Int := e + cs.length - 1
  if e ≤ 0 ∧ -6 ≤ leading then
    let places := (-e).toNat
    let cs := List.replicate (places + 1 - cs.length) '0' ++ cs
    let (whole, fraction) := cs.splitAt (cs.length - places)
    String.ofList (if fraction.isEmpty then whole else whole ++ '.' :: fraction)
  else
    let mantissa := match cs with
      | c :: d :: ds => c :: '.' :: d :: ds
      | cs => cs
    String.ofList mantissa ++ "E" ++ (if leading < 0 then "-" else "+") ++ toString leading.natAbs

/-- The number that `count` bits of a number spell, from bit `start` on. -/
def bits (start count n : Nat) : Nat :=
  n / Nat.pow 2 start % Nat.pow 2 count

/-- The greatest exponent of a number of 34 digits. -/
def maxExponent : Int := 6111

/-- The least number of more than 34 digits. -/
def tooLong : Nat := Nat.pow 10 34

/-- The text of `digits · 10^e` in at most 34 digits: a last digit too many is rounded to the
nearest, ties to the even one, and what is too great then is infinite. -/
def roundedText (digits : Nat) (e : Int) : String :=
  if digits < tooLong then decimalText digits e
  else
    let up := decide (5 < digits % 10) || (digits % 10 == 5 && digits / 10 % 2 == 1)
    if maxExponent < e + 1 then "Infinity" else decimalText (digits / 10 + up.toNat) (e + 1)

/-- A decimal number of 128 bits. -/
def decimal (bs : List UInt8) : Value :=
  let n := Bytes.number bs
  let sign := if n.testBit 127 then "-" else ""
  let text :=
    if bits 122 5 n = 31 then "NaN"
    else if bits 122 5 n = 30 then sign ++ "Infinity"
    else if bits 125 2 n = 3 then sign ++ decimalText 0 ((bits 111 14 n : Int) - 6176)
    else sign ++ roundedText (bits 0 113 n) ((bits 113 14 n : Int) - 6176)
  wrappedForeign "Decimal128" text

/-- The binary64 number of eight bytes. -/
def double (bs : List UInt8) : Double :=
  let n := Bytes.number bs
  let negative := n.testBit 63
  let fraction := bits 0 52 n
  match bits 52 11 n with
  | 0 => .finite negative fraction (-1074)
  | 2047 => if fraction = 0 then .infinite negative else .nan
  | e => .finite negative (Nat.pow 2 52 + fraction) (e - 1075)

end MdxPages.Bson
