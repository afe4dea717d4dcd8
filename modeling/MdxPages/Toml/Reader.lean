import MdxPages.Text.Search
import MdxPages.Toml.Token

/-!
# Toml/Reader — tables from TOML texts

A text is a sequence of statements: values of keys, and headers that say to which table the values
after them belong.  A table may be named once; what a value, a list or a table in braces holds may
not be extended.
-/

namespace MdxPages.Toml

open MdxPages.Text

/-- Change the table that a key leads to; missing tables on the way are made, and of a list of
tables the last one is meant where `lists` allows it. -/
def within? (lists : Bool) (f : Entries Value → Option (Entries Value)) :
    Key → Entries Value → Option (Entries Value)
  | [], table => f table
  | name :: key, table =>
    match table.get? name with
    | none => (within? lists f key []).map fun inner => table.put name (.obj inner)
    | some (.obj inner) =>
      (within? lists f key inner).map fun inner => table.put name (.obj inner)
    | some (.arr items) =>
      match items.getLast? with
      | some (.obj inner) =>
        if lists then
          (within? lists f key inner).map fun inner =>
            table.put name (.arr (items.dropLast ++ [.obj inner]))
        else none
      | _ => none
    | some _ => none

/-- Add a value under a new name. -/
def addNew? (name : String) (v : Value) (table : Entries Value) : Option (Entries Value) :=
  if table.has name then none else some (table.put name v)

/-- Whether a value has parts. -/
def hasParts : Value → Bool
  | .arr _ | .obj _ => true
  | _ => false

/-- Whether a key is at or below one of the given keys. -/
def isBelowAny (keys : List Key) (key : Key) : Bool :=
  keys.any fun k => k.isPrefixOf key

open Problem in
mutual

/-- A value; `fuel` bounds the values and parts that are read. -/
def readValue (fuel : Nat) (cs : List Char) : Except Problem (Value × List Char) :=
  match fuel with
  | 0 => .error .malformed
  | fuel + 1 =>
    match cs with
    | '[' :: cs => do
      let (items, rest) ← readItems fuel (← orMalformed (skipSpace? false cs))
      return (.arr items, rest)
    | '{' :: cs =>
      match skipBlanks cs with
      | '}' :: rest => .ok (.obj [], rest)
      | cs => do
        let (table, rest) ← readPairs fuel [] [] cs
        return (.obj table, rest)
    | cs => readScalar cs

/-- The items of a list up to its closing bracket. -/
def readItems (fuel : Nat) (cs : List Char) : Except Problem (List Value × List Char) :=
  match fuel with
  | 0 => .error .malformed
  | fuel + 1 =>
    match cs with
    | ']' :: rest => .ok ([], rest)
    | cs => do
      let (v, rest) ← readValue fuel cs
      match ← orMalformed (skipSpace? false rest) with
      | ']' :: rest => return ([v], rest)
      | ',' :: rest =>
        let (vs, rest) ← readItems fuel (← orMalformed (skipSpace? false rest))
        return (v :: vs, rest)
      | _ => throw .malformed

/-- The pairs of a table in braces up to its closing brace; `frozen` are the keys that may not be
extended. -/
def readPairs (fuel : Nat) (table : Entries Value) (frozen : List Key) (cs : List Char) :
    Except Problem (Entries Value × List Char) :=
  match fuel with
  | 0 => .error .malformed
  | fuel + 1 => do
    let (key, rest) ← orMalformed (readKey? cs.length cs)
    let rest ← orMalformed (after? '=' rest)
    let (v, rest) ← readValue fuel (skipBlanks rest)
    if isBelowAny frozen key then throw .malformed
    else
      let table ← orMalformed (within? false (addNew? (key.getLastD "") v) key.dropLast table)
      let frozen := if hasParts v then key :: frozen else frozen
      match skipBlanks rest with
      | '}' :: rest => return (table, rest)
      | ',' :: rest => readPairs fuel table frozen (skipBlanks rest)
      | _ => throw .malformed

end

/-- What has been read so far: the tables, the keys of tables that may not be named again, those
that become so with the next header, and those that may not be extended. -/
structure Draft where
  table : Entries Value := []
  named : List Key := []
  pending : List Key := []
  frozen : List Key := []
deriving Repr, Inhabited

namespace Draft

/-- The draft once a header begins. -/
def settle (d : Draft) : Draft :=
  { d with named := d.pending ++ d.named, pending := [] }

/-- The header of a table. -/
def openTable? (d : Draft) (key : Key) : Option Draft := do
  if d.named.contains key || isBelowAny d.frozen key then none
  else
    let table ← within? true some key d.table
    return { d with table, named := key :: d.named }

/-- Add a table to the list under a name. -/
def addItem? (name : String) (table : Entries Value) : Option (Entries Value) :=
  match table.get? name with
  | none => some (table.put name (.arr [.obj []]))
  | some (.arr items) => some (table.put name (.arr (items ++ [.obj []])))
  | some _ => none

/-- The header of a table in a list; what was said about tables below the one before is void. -/
def openItem? (d : Draft) (key : Key) : Option Draft := do
  if isBelowAny d.frozen key then none
  else
    let table ← within? true (addItem? (key.getLastD "")) key.dropLast d.table
    let keep (k : Key) : Bool := !key.isPrefixOf k
    return { d with table, named := key :: d.named.filter keep, frozen := d.frozen.filter keep }

/-- The keys between a header and the last name of a key below it. -/
def keysBetween (header key : Key) : List Key :=
  (List.range (key.length - 1)).map fun i => header ++ key.take (i + 1)

/-- The value of a key below a header. -/
def addValue? (d : Draft) (header key : Key) (v : Value) : Option Draft := do
  let between := keysBetween header key
  let parent := header ++ key.dropLast
  if between.any d.named.contains || isBelowAny d.frozen parent then none
  else
    let table ← within? true (addNew? (key.getLastD "") v) parent d.table
    return { d with
      table
      pending := between ++ d.pending
      frozen := if hasParts v then (header ++ key) :: d.frozen else d.frozen }

end Draft

open Problem in
/-- Read one statement that is no comment: the draft, the header that holds from here on, and what
follows. -/
def readStatement (d : Draft) (header : Key) (cs : List Char) :
    Except Problem (Draft × Key × List Char) := do
  match cs with
  | '[' :: '[' :: cs =>
    let (key, rest) ← orMalformed (readKey? cs.length (skipBlanks cs))
    let d ← orMalformed (d.settle.openItem? key)
    return (d, key, ← orMalformed (after? ']' rest >>= after? ']'))
  | '[' :: cs =>
    let (key, rest) ← orMalformed (readKey? cs.length (skipBlanks cs))
    let d ← orMalformed (d.settle.openTable? key)
    return (d, key, ← orMalformed (after? ']' rest))
  | cs =>
    let (key, rest) ← orMalformed (readKey? cs.length cs)
    let rest ← orMalformed (after? '=' rest)
    let (v, rest) ← readValue (2 * rest.length + 2) (skipBlanks rest)
    return (← orMalformed (d.addValue? header key v), header, rest)

open Problem in
/-- Read statements line by line; `fuel` bounds their number. -/
def readStatements : (fuel : Nat) → Draft → Key → List Char → Except Problem (Entries Value)
  | 0, _, _, _ => .error .malformed
  | fuel + 1, d, header, cs => do
    let cs := skipBlanks cs
    let (d, header, cs) ← match cs with
      | [] | '\n' :: _ | '#' :: _ => .ok (d, header, cs)
      | cs => readStatement d header cs
    match ← orMalformed (skipComment? (skipBlanks cs)) with
    | [] => return d.table
    | '\n' :: rest => readStatements fuel d header rest
    | _ => throw .malformed

/-- The table that a text denotes. -/
def read (s : String) : Except Problem (Entries Value) :=
  let cs := Text.replacePair '\r' '\n' ['\n'] s.toList
  readStatements (cs.length + 1) {} [] cs

end MdxPages.Toml
