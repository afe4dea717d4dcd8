import MdxPages.Failure
import MdxPages.Package.Specifier
import MdxPages.Text.Case

/-!
# Package/Requirement — optional packages, and what is said when they are missing

Which packages are installed is a fact about the machine, handed in as an `Installation`.
-/

namespace MdxPages.Package

/-- What is installed: whether a module can be imported, and the version of a package. -/
structure Installation where
  hasModule : String → Bool
  version? : String → Option String

/-- A package that a feature needs: its name, the module it provides, and the versions wanted. -/
structure Requirement where
  name : String
  moduleName : String
  wanted : String
deriving Repr

/-- Whether a package meets a requirement on its version, and the version found. -/
def checkVersion (installed : Installation) (name wanted : String) :
    Except Fault (Bool × Option String) :=
  match installed.version? name with
  | none => .ok (false, none)
  | some version =>
    if version.isEmpty then .ok (false, none)
    else (meets version wanted).map fun met => (met, some version)

/-- One line on whether a requirement is met. -/
def describe (installed : Installation) (r : Requirement) : Except Fault String := do
  let subject := r.name ++ r.wanted
  if !installed.hasModule r.moduleName then return subject ++ ": not installed"
  let (met, found) ←
    if r.wanted.isEmpty then pure (true, none) else checkVersion installed r.name r.wanted
  let shown := (found <|> installed.version? r.name).getD "unknown version"
  if met then return subject ++ ": installed (" ++ shown ++ ")"
  else return subject ++ ": version mismatch (" ++ shown ++ ")"

/-- The version that does not fit a requirement, if its module can be imported. -/
def mismatch? (installed : Installation) (r : Requirement) :
    Except Fault (Option VersionMismatch) := do
  if !installed.hasModule r.moduleName || r.wanted.isEmpty then return none
  match ← checkVersion installed r.name r.wanted with
  | (true, _) => return none
  | (false, found) => return some ⟨r.name, r.wanted, found.getD "unknown"⟩

/-- What is missing and what does not fit, in the order of the requirements. -/
def survey (installed : Installation) (requirements : List Requirement) :
    Except Fault (List MissingPackage × List VersionMismatch) := do
  let missing := requirements.filterMap fun r =>
    if installed.hasModule r.moduleName then none else some ⟨r.name, r.wanted⟩
  let mismatches ← requirements.mapM (mismatch? installed)
  return (missing, mismatches.filterMap id)

/-- What is said about missing and unfit packages of a feature. -/
def complaint (feature : String) (missing : List MissingPackage)
    (mismatches : List VersionMismatch) (installCommand : String) : String :=
  let title := Text.upper feature
  let missingPart := if missing.isEmpty then [] else
    [title ++ " support requires the following packages: " ++
      Text.join ", " (missing.map fun p => "'" ++ p.name ++ p.wanted ++ "'")]
  let mismatchPart := if mismatches.isEmpty then [] else
    [title ++ " support has version mismatches: " ++
      Text.join ", " (mismatches.map fun p =>
        "'" ++ p.name ++ "' (requires " ++ p.wanted ++ ", but " ++ p.found ++ " is installed)")]
  let told := Text.join "\n" (missingPart ++ mismatchPart)
  let packages := missing.map (fun p => (p.name, p.wanted)) ++
    mismatches.map fun p => (p.name, p.wanted)
  if !installCommand.isEmpty then told ++ "\nInstall with: " ++ installCommand
  else if packages.isEmpty then told
  else
    told ++ "\nInstall with: pip install --upgrade " ++
      Text.join " " (packages.map fun (name, wanted) =>
        if wanted.isEmpty then name else "\"" ++ name ++ wanted ++ "\"")

/-- Refuse to run a feature whose requirements are not met. -/
def require (installed : Installation) (feature : String) (requirements : List Requirement) :
    Except Failure Unit :=
  match survey installed requirements with
  | .error f => .error (.fault f)
  | .ok ([], []) => .ok ()
  | .ok (missing, mismatches) =>
    .error (.dependency (complaint feature missing mismatches
      ("pip install \"snooty2mdx[" ++ feature ++ "]\"")))

end MdxPages.Package
