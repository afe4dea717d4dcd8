import MdxPages.Cli.Flag

/-!
# Cli/Arguments — reading the arguments of the command line

Arguments are first told apart: flags, among them unambiguous beginnings of long flags and short
flags with a value or further short flags attached, `--`, and all others.  Then they are taken one
by one: a flag that needs a value takes the next argument, one that takes many takes all up to the
next flag, and of the others one is the input.  The first argument at fault ends it all.
-/

namespace MdxPages.Cli

/-- How reading the arguments can end without a result: with a usage error, or because the program
was only asked about itself. -/
inductive Stop
  | usage
  | shown
deriving DecidableEq, Repr

/-- The exit code of a stop. -/
def Stop.exitCode : Stop → Nat
  | usage => 2
  | shown => 0

/-- An argument told apart: one that is no flag, `--`, a flag as it was spelled with the value
attached to it, or something that looks like a flag and is none. -/
inductive Argument
  | plain (s : String)
  | separator
  | flag (f : Flag) (spelling : String) (attached : Option String)
  | unknown
deriving Repr

/-- Whether an argument is no flag. -/
def Argument.isPlain : Argument → Bool
  | plain _ => true
  | _ => false

/-- The flag of a spelling. -/
def flagOf? (spelling : String) : Option Flag :=
  flags.find? fun f => f.spellings.contains spelling

/-- All spellings of flags, each with its flag. -/
def allSpellings : List (String × Flag) :=
  flags.flatMap fun f => f.spellings.map fun spelling => (spelling, f)

/-- A text before and after its first `=`, if it has one. -/
def splitEquals (s : String) : String × Option String :=
  let (before, after) := Text.cutAt '=' s.toList
  if s.toList.contains '=' then (String.ofList before, some (String.ofList after)) else (s, none)

/-- The flags that an argument can stand for, when no flag is spelled like it. -/
def candidates (s : String) : List Argument :=
  match s.toList with
  | '-' :: '-' :: _ =>
    let (start, attached) := splitEquals s
    (allSpellings.filter fun (spelling, _) => Text.startsWith spelling start).map
      fun (spelling, f) => .flag f spelling attached
  | '-' :: c :: rest =>
    allSpellings.filterMap fun (spelling, f) =>
      if spelling = String.ofList ['-', c] then some (.flag f spelling (some (String.ofList rest)))
      else if Text.startsWith spelling s then some (.flag f spelling none)
      else none
  | _ => []

/-- Whether an argument that starts with a hyphen is a negative number. -/
def isNegativeNumber (s : String) : Bool :=
  match s.toList with
  | '-' :: cs =>
    let cs := if cs.getLast? = some '\n' then cs.dropLast else cs
    let whole := cs.takeWhile Text.isDecimal
    match cs.drop whole.length with
    | [] => !whole.isEmpty
    | '.' :: fraction => !fraction.isEmpty && fraction.all Text.isDecimal
    | _ => false
  | _ => false

/-- Tell an argument apart. -/
def classify (s : String) : Except Stop Argument :=
  if !Text.startsWith s "-" || s == "-" then .ok (.plain s)
  else
    match flagOf? s with
    | some f => .ok (.flag f s none)
    | none =>
      let (start, attached) := splitEquals s
      match attached, flagOf? start with
      | some value, some f => .ok (.flag f start (some value))
      | _, _ =>
        match candidates s with
        | [candidate] => .ok candidate
        | _ :: _ :: _ => .error .usage
        | [] =>
          if isNegativeNumber s || s.toList.contains ' ' then .ok (.plain s) else .ok .unknown

/-- Tell all arguments apart; after `--` none is a flag. -/
def classifyAll : List String → Except Stop (List Argument)
  | [] => .ok []
  | s :: rest =>
    if s = "--" then .ok (.separator :: rest.map .plain)
    else do
      let first ← classify s
      return first :: (← classifyAll rest)

/-- What the arguments to come belong to: a flag that needs one value, or one that takes many. -/
inductive Awaiting
  | nothing
  | one (f : Flag)
  | many (f : Flag) (values : List String)
deriving Repr

/-- What has been read so far: the values kept, whether the input has been settled and whether
since the last flag, whether an argument was left over, and what the next ones belong to. -/
structure Progress where
  values : Entries Value
  inputSettled : Bool := false
  settledHere : Bool := false
  leftover : Bool := false
  awaiting : Awaiting := .nothing
deriving Repr

/-- A use of a flag, with the value given to it in the same argument. -/
structure Use where
  flag : Flag
  value : Option String
deriving Repr

/-- Whether the value of a flag has to be the next argument. -/
def Use.needsValue (use : Use) : Bool :=
  match use.value, use.flag.action with
  | none, .store .. => true
  | _, _ => false

/-- The flags of an argument that attaches characters to a flag: its value, or after a short flag
that takes none further short flags, the last of them again with a value. -/
def groupUses (f : Flag) (short : Bool) : List Char → Except Stop (List Use)
  | [] => if f.takesValue then .ok [⟨f, some ""⟩] else .error .usage
  | c :: rest =>
    if f.takesValue then .ok [⟨f, some (String.ofList (c :: rest))⟩]
    else if !short then .error .usage
    else
      match flagOf? (String.ofList ['-', c]), rest with
      | none, _ => .error .usage
      | some next, [] => .ok [⟨f, none⟩, ⟨next, none⟩]
      | some next, rest => do return ⟨f, none⟩ :: (← groupUses next true rest)

namespace Progress

/-- Keep a value under the name of a flag. -/
def keep (p : Progress) (f : Flag) (v : Value) : Progress :=
  { p with values := p.values.put f.name v, awaiting := .nothing }

/-- Read and keep the one value of a flag; it must be of the flag's type and among its choices.  A
value `--` is left out, so that there is a list of no values. -/
def keepText (p : Progress) (f : Flag) (s : String) : Except Stop Progress :=
  match f.action with
  | .store type choices =>
    if s = "--" then .ok (p.keep f (.arr []))
    else
      match type.read? s with
      | none => .error .usage
      | some v =>
        if choices.isEmpty || choices.any (fun choice => v.str? == some choice) then
          .ok (p.keep f v)
        else .error .usage
  | .storeMany => .ok (p.keep f (.arr (if s = "--" then [] else [.str s])))
  | _ => .error .usage

/-- End the values of a flag that takes many; a flag that still needs its value is at fault. -/
def settle (p : Progress) : Except Stop Progress :=
  match p.awaiting with
  | .nothing => .ok p
  | .one _ => .error .usage
  | .many f values => .ok (p.keep f (.arr (values.map .str)))

/-- Take one use of a flag; being asked about itself ends reading. -/
def takeUse (p : Progress) (use : Use) : Except Stop Progress :=
  match use.value, use.flag.action with
  | some value, _ => p.keepText use.flag value
  | none, .store .. => .ok { p with awaiting := .one use.flag }
  | none, .storeMany => .ok { p with awaiting := .many use.flag [] }
  | none, .turnOn => .ok (p.keep use.flag (.bool true))
  | none, .turnOff => .ok (p.keep use.flag (.bool false))
  | none, .help => .error .shown
  | none, .version => .error .shown

/-- Take a flag, with the value attached to it if there is one; `followed` says whether the next
argument can be the value that the last flag of a group needs. -/
def takeFlag (p : Progress) (f : Flag) (spelling : String) (attached : Option String)
    (followed : Bool) : Except Stop Progress := do
  let p ← p.settle
  let uses ← match attached with
    | none => .ok [⟨f, none⟩]
    | some value => groupUses f (!Text.startsWith spelling "--") value.toList
  if uses.any Use.needsValue && !followed then throw .usage
  uses.foldlM takeUse { p with settledHere := false }

/-- Take the next argument; `followed` says whether one that is no flag comes after it. -/
def take (p : Progress) (followed : Bool) : Argument → Except Stop Progress
  | .plain s =>
    match p.awaiting with
    | .one f => p.keepText f s
    | .many f values => .ok { p with awaiting := .many f (values ++ [s]) }
    | .nothing =>
      if p.inputSettled then .ok { p with leftover := true }
      else
        .ok { p with values := p.values.put "input" (.str s), inputSettled := true,
                     settledHere := true }
  | .separator => do
    let p ← p.settle
    if p.inputSettled && !p.settledHere then return { p with leftover := true }
    else return p
  | .flag f spelling attached => p.takeFlag f spelling attached followed
  | .unknown => do
    let p ← p.settle
    return { p with leftover := true, settledHere := false }

/-- Take arguments in order. -/
def takeAll : Progress → List Argument → Except Stop Progress
  | p, [] => p.settle
  | p, a :: as => do takeAll (← p.take (as.head?.any Argument.isPlain) a) as

end Progress

/-- The values that the arguments give, over the defaults of the environment.  The value of a flag
that is not given and has no default is missing. -/
def parseArguments (environment : Entries String) (arguments : List String) :
    Except Stop (Entries Value) := do
  let classified ← classifyAll arguments
  let start : Progress := { values := generalDefaults ++ variableDefaults environment }
  let last ← start.takeAll classified
  if last.leftover then .error .usage else .ok last.values

end MdxPages.Cli
