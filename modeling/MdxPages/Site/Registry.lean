import MdxPages.References.Module
import MdxPages.Site.Work

/-!
# Site/Registry — the references of a run and the module that keeps them

The references of all pages of a run are counted in one registry.  In the end it is merged into the
module that is already on the disk, so that runs over different inputs add up.
-/

namespace MdxPages.Registry

/-- The name under which the registry logs. -/
def loggerName : String := "snooty2mdx.references"

/-- The file in which a module is kept where nothing else is said. -/
def fileName : String := "references.ts"

/-- Count references; later ones win. -/
def add (r : References) : Work Unit :=
  modify fun w => { w with registry := w.registry.merge r }

/-- Start a registry of its own. -/
def clear : Work Unit :=
  modify fun w => { w with registry := {} }

/-- The references of the module at a location, none if it cannot be read. -/
def readExisting (l : Location) : Work References := do
  let w ← get
  let unread (reason : String) : Work References := do
    Work.record loggerName .debug ("No existing references read from " ++ l.text ++ ": " ++ reason)
    return {}
  match w.disk.read w.directory l with
  | .ok bytes =>
    match Bytes.linesText? bytes with
    | some text => return References.parse text
    | none => unread Fault.badEncoding.message
  | .error f => if f.isSystem then unread f.message else Work.liftFault (.error f)

/-- Merge the registry into the module at a location; what is written there. -/
def persist (l : Location) : Work References := do
  let old ← readExisting l
  let merged := old.merge (← get).registry
  Work.writeText l (References.render merged)
  Work.record loggerName .info
    ("Wrote " ++ toString merged.substitutions.length ++ " substitutions and " ++
      toString merged.refs.length ++ " refs to " ++ l.text)
  return merged

end MdxPages.Registry
