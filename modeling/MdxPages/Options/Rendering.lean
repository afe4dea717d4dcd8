import MdxPages.Options.Updating

/-!
# Options/Rendering — settings of the MDX text
-/

namespace MdxPages

/-- The markers of unordered list items. -/
inductive BulletMarker
  | hyphen
  | star
  | plus
deriving DecidableEq, Repr, Inhabited

/-- The characters that emphasis is made of. -/
inductive Delimiter
  | star
  | underscore
deriving DecidableEq, Repr, Inhabited

/-- A bullet as it is written. -/
def BulletMarker.text : BulletMarker → String
  | hyphen => "-"
  | star => "*"
  | plus => "+"

/-- The delimiter of emphasis. -/
def Delimiter.emphasis : Delimiter → String
  | star => "*"
  | underscore => "_"

/-- The delimiter of strong emphasis. -/
def Delimiter.strong : Delimiter → String
  | star => "**"
  | underscore => "__"

/-- Settings of the MDX text. -/
structure RenderOptions where
  bullet : BulletMarker := .hyphen
  emphasis : Delimiter := .star
  strong : Delimiter := .star
  escapeText : Value := .bool true
deriving Repr, Inhabited

namespace RenderOptions

/-- The names of the settings in order. -/
def names : List String :=
  ["bullet_marker", "emphasis_marker", "strong_marker", "escape_text"]

/-- The settings as named values. -/
def toValue (o : RenderOptions) : Value :=
  .obj [("bullet_marker", .str o.bullet.text), ("emphasis_marker", .str o.emphasis.emphasis),
    ("strong_marker", .str o.strong.strong), ("escape_text", o.escapeText)]

/-- The bullet that a value names. -/
def bulletOf : Value → Except Failure BulletMarker
  | .str "-" => .ok .hyphen
  | .str "*" => .ok .star
  | .str "+" => .ok .plus
  | v => .error (refusing v (.bulletMarker v.inspect))

/-- The delimiter of emphasis that a value names. -/
def emphasisOf : Value → Except Failure Delimiter
  | .str "*" => .ok .star
  | .str "_" => .ok .underscore
  | v => .error (refusing v (.emphasisMarker v.inspect))

/-- The delimiter of strong emphasis that a value names. -/
def strongOf : Value → Except Failure Delimiter
  | .str "**" => .ok .star
  | .str "__" => .ok .underscore
  | v => .error (refusing v (.strongMarker v.inspect))

/-- The settings with some fields changed; what is no valid setting is refused. -/
def update (o : RenderOptions) (updates : Entries Value) : Except Failure RenderOptions := do
  refuseUnknown "MdxRendererOptions" names updates
  let bullet ← bulletOf (updated updates "bullet_marker" (.str o.bullet.text))
  let emphasis ← emphasisOf (updated updates "emphasis_marker" (.str o.emphasis.emphasis))
  let strong ← strongOf (updated updates "strong_marker" (.str o.strong.strong))
  return { bullet, emphasis, strong, escapeText := updated updates "escape_text" o.escapeText }

end RenderOptions

end MdxPages
