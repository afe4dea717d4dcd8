import MdxPages.Text.Quoted

/-!
# Fault — operations that a value does not admit

Documents and settings are loosely typed, so an operation can meet a value that it has no meaning
for.  Each such meeting is a cause of its own, with the wording under which it is reported.
-/

namespace MdxPages

/-- The kinds of faults, coarser than their causes. -/
inductive FaultKind
  | wrongType
  | missingAttribute
  | badValue
  | overflow
  | outOfRange
  | fileExists
  | notADirectory
  | isADirectory
  | noSuchFile
  | systemRefused
  | endlessLink
  | corruptArchive
  | badEncoding
  | unsupported
  | corruptStream
  | corruptCode
  | endOfFile
  | emission
  | missingKey
  | badVersion
deriving DecidableEq, Repr

/-- An operation on a value that does not admit it; a `kind` names the kind of the value. -/
inductive Fault
  | infiniteInteger
  | undefinedInteger
  | notAnInteger (shown : String)
  | notADecimal (shown : String)
  | noIntegerForm (kind : String)
  | notIterable (kind : String)
  | noMembers (kind : String)
  | noAttribute (kind name : String)
  | notComparable (left right : String)
  | notHashable (kind : String)
  | notRepeatable (kind : String)
  | notAddable (kind : String)
  | notText (kind : String)
  | noJsonForm (kind : String)
  | keyNotText
  | reservedName (name : String)
  | emptyStack
  | notAStream (kind : String)
  | notAPath (kind : String)
  | notAName (kind : String)
  | nullByte
  | fileExists (path : String)
  | notADirectory (path : String)
  | isADirectory (path : String)
  | noSuchFile (path : String)
  | nameTooLong (path : String)
  | tooManyLinks (path : String)
  | refusedPosition
  | unfitPosition
  | unfitMargin
  | endlessLink (path : String)
  | corruptArchive (reason : String)
  | badEncoding
  | badMargin (kind : String)
  | unsupportedArchive (reason : String)
  | encryptedEntry (name : String)
  | namelessEntry
  | corruptStream
  | corruptBlocks
  | corruptCode
  | endOfFile
  | emptyName (path : String)
  | refusedEmission (text : String)
  | noCharacter (code : Nat)
  | noMoment (shown : String)
  | notAMoment (shown : String)
  | notATruthValue (shown : String)
  | missingDigits
  | unboundedInteger
  | notAVersion (shown : String)
  | notALevel (shown : String)
  | tooManyDigits
deriving DecidableEq, Repr

namespace Fault

/-- The kind of a fault. -/
def kind : Fault → FaultKind
  | infiniteInteger | unboundedInteger | unfitMargin => .overflow
  | undefinedInteger | notAnInteger _ | notADecimal _ | nullByte | emptyName _ | noMoment _
  | unfitPosition | tooManyDigits | notALevel _ =>
    .badValue
  | noCharacter code => if code < 0x80000000 then .badValue else .overflow
  | noIntegerForm _ | notIterable _ | noMembers _ | notComparable .. | notHashable _
  | notRepeatable _ | notAddable _ | notText _ | noJsonForm _ | keyNotText | reservedName _
  | notAStream _ | notAPath _ | notAName _ | badMargin _ => .wrongType
  | noAttribute .. | notAMoment _ => .missingAttribute
  | emptyStack | missingDigits | namelessEntry => .outOfRange
  | fileExists _ => .fileExists
  | notADirectory _ => .notADirectory
  | isADirectory _ => .isADirectory
  | noSuchFile _ => .noSuchFile
  | nameTooLong _ | tooManyLinks _ | refusedPosition | corruptBlocks => .systemRefused
  | endlessLink _ | encryptedEntry _ => .endlessLink
  | corruptArchive _ => .corruptArchive
  | badEncoding => .badEncoding
  | unsupportedArchive _ => .unsupported
  | corruptStream => .corruptStream
  | corruptCode => .corruptCode
  | endOfFile => .endOfFile
  | refusedEmission _ => .emission
  | notATruthValue _ => .missingKey
  | notAVersion _ => .badVersion

/-- Whether a fault comes from the file system. -/
def isSystem (f : Fault) : Bool :=
  match f.kind with
  | .fileExists | .notADirectory | .isADirectory | .noSuchFile | .systemRefused => true
  | _ => false

/-- The wording of a refusal by the file system: its number, the reason and the path. -/
def systemMessage (number : Nat) (reason path : String) : String :=
  "[Errno " ++ toString number ++ "] " ++ reason ++ ": " ++ Text.quoted path

/-- The wording of a fault. -/
def message : Fault → String
  | infiniteInteger => "cannot convert float infinity to integer"
  | undefinedInteger => "cannot convert float NaN to integer"
  | notAnInteger shown => "invalid literal for int() with base 10: " ++ shown
  | notADecimal shown => "could not convert string to float: " ++ shown
  | noIntegerForm kind =>
    "int() argument must be a string, a bytes-like object or a real number, not '" ++ kind ++ "'"
  | notIterable kind => "'" ++ kind ++ "' object is not iterable"
  | noMembers kind => "argument of type '" ++ kind ++ "' is not iterable"
  | noAttribute kind name => "'" ++ kind ++ "' object has no attribute '" ++ name ++ "'"
  | notComparable left right =>
    "'<=' not supported between instances of '" ++ left ++ "' and '" ++ right ++ "'"
  | notHashable kind => "unhashable type: '" ++ kind ++ "'"
  | notRepeatable kind => "can't multiply sequence by non-int of type '" ++ kind ++ "'"
  | notAddable kind =>
    if kind = "str" ∨ kind = "list" then
      "can only concatenate " ++ kind ++ " (not \"int\") to " ++ kind
    else "unsupported operand type(s) for +: '" ++ kind ++ "' and 'int'"
  | notText kind => "expected string or bytes-like object, got '" ++ kind ++ "'"
  | noJsonForm kind => "Object of type " ++ kind ++ " is not JSON serializable"
  | keyNotText => "keywords must be strings"
  | reservedName name => "got multiple values for argument '" ++ name ++ "'"
  | emptyStack => "pop from empty list"
  | notAStream kind => "Unsupported output type: " ++ kind
  | notAPath kind => "expected str, bytes or os.PathLike object, not " ++ kind
  | notAName kind => "attribute name must be string, not '" ++ kind ++ "'"
  | nullByte => "embedded null byte"
  | fileExists path => systemMessage 17 "File exists" path
  | notADirectory path => systemMessage 20 "Not a directory" path
  | isADirectory path => systemMessage 21 "Is a directory" path
  | noSuchFile path => systemMessage 2 "No such file or directory" path
  | nameTooLong path => systemMessage 36 "File name too long" path
  | tooManyLinks path => systemMessage 40 "Too many levels of symbolic links" path
  | refusedPosition => "[Errno 22] Invalid argument"
  | unfitPosition => "cannot fit 'int' into an offset-sized integer"
  | unfitMargin => "cannot fit 'int' into an index-sized integer"
  | endlessLink path => "Symlink loop from " ++ Text.quoted path
  | corruptArchive reason | unsupportedArchive reason => reason
  | badEncoding => "invalid UTF-8"
  | badMargin kind => "can't multiply sequence by non-int of type '" ++ kind ++ "'"
  | encryptedEntry name => "File '" ++ name ++ "' is encrypted, password required for extraction"
  | corruptStream => "Error -3 while decompressing data"
  | corruptBlocks => "Invalid data stream"
  | corruptCode => "Corrupt input data"
  | endOfFile => ""
  | emptyName path => "'" ++ path ++ "' has an empty name"
  | refusedEmission text => text
  | noCharacter code => "no character has the number " ++ toString code
  | noMoment shown => "no moment is " ++ shown
  | notAMoment shown => shown ++ " does not have the form of a moment"
  | notATruthValue shown => shown
  | missingDigits | namelessEntry => "string index out of range"
  | unboundedInteger => "int too large to convert to float"
  | notAVersion shown => "Invalid version: " ++ shown
  | notALevel shown => "Unknown level: " ++ shown
  | tooManyDigits => "Exceeds the limit (4300 digits) for integer string conversion"

end Fault

/-! ## Problems

The readers of JSON, TOML and YAML end in a value or in a problem. -/

/-- What is wrong with a text: it does not have the form that it should have, or something in it has
the form of a value that does not exist. -/
inductive Problem
  | malformed
  | fault (f : Fault)
deriving DecidableEq, Repr

/-- A result that is missing where the form is wrong. -/
def Problem.orMalformed {α : Type} : Option α → Except Problem α
  | some a => .ok a
  | none => .error .malformed

end MdxPages
