import MdxPages.Options.Updating

/-!
# Options/Archive — safety limits of archives
-/

namespace MdxPages

/-- Limits that an archive must keep, and whether its assets are wanted.  A limit is a number; a
truth value counts as one. -/
structure ArchiveOptions where
  maxEntries : Value := .int 50000
  maxCompressionRatio : Value := .float (.ofInt 100)
  maxUncompressedSize : Value := .int 2147483648
  extractAssets : Value := .bool true
deriving Repr, Inhabited

namespace ArchiveOptions

/-- The names of the settings in order. -/
def names : List String :=
  ["max_entries", "max_compression_ratio", "max_uncompressed_size", "extract_assets"]

/-- The settings as named values. -/
def toValue (o : ArchiveOptions) : Value :=
  .obj [("max_entries", o.maxEntries), ("max_compression_ratio", o.maxCompressionRatio),
    ("max_uncompressed_size", o.maxUncompressedSize), ("extract_assets", o.extractAssets)]

/-- A limit is a positive number; not-a-number passes, being not less than zero. -/
def checkLimit (name : String) (v : Value) : Except Failure Unit :=
  match v.number? with
  | none => .error (.fault (.notComparable v.kindName "int"))
  | some n =>
    if n.le (.int 0) then .error (refusing v (.limitNotPositive name v.text)) else .ok ()

/-- The settings with some fields changed; what is no valid setting is refused. -/
def update (o : ArchiveOptions) (updates : Entries Value) : Except Failure ArchiveOptions := do
  refuseUnknown "ArchiveOptions" names updates
  let maxEntries := updated updates "max_entries" o.maxEntries
  let maxCompressionRatio := updated updates "max_compression_ratio" o.maxCompressionRatio
  let maxUncompressedSize := updated updates "max_uncompressed_size" o.maxUncompressedSize
  checkLimit "max_entries" maxEntries
  checkLimit "max_compression_ratio" maxCompressionRatio
  checkLimit "max_uncompressed_size" maxUncompressedSize
  return {
    maxEntries, maxCompressionRatio, maxUncompressedSize
    extractAssets := updated updates "extract_assets" o.extractAssets }

end ArchiveOptions

end MdxPages
