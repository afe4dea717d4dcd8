import MdxPages.Failure
import MdxPages.Value.Basic

/-!
# Options/Updating — settings as named fields

Each stage has a record of settings.  An update names fields and gives their new values; a name
that is no field of the stage is refused, all such names being reported in order.
-/

namespace MdxPages

/-- The names that are no fields of a stage, in order. -/
def unknownNames (known : List String) (updates : Entries Value) : List String :=
  (updates.keys.filter fun name => !known.contains name).mergeSort fun a b => decide (a ≤ b)

/-- The name that stands for the settings themselves, which no update can give. -/
def ownName : String := "self"

/-- Refuse names that are no fields of the stage. -/
def refuseUnknown (settings : String) (known : List String) (updates : Entries Value) :
    Except Failure Unit :=
  if updates.has ownName then .error (.fault (.reservedName ownName))
  else
    match unknownNames known updates with
    | [] => .ok ()
    | names => .error (.unknownOptions settings names)

/-- The refusal of a value that the message shows.  For a value that cannot be shown there is no
message, and the refusal itself fails. -/
def refusing (v : Value) (refusal : Failure) : Failure :=
  if v.isWritable then refusal else .fault .tooManyDigits

/-- The value that an update gives to a field, or else its present value. -/
def updated (updates : Entries Value) (name : String) (present : Value) : Value :=
  (updates.get? name).getD present

end MdxPages
