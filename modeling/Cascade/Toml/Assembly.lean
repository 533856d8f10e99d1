import Cascade.Toml.Value
set_option autoImplicit false

/-! Assembly of a document from its statements. Every table remembers how it came to be, since
that decides what may still be added to it: a table with a header of its own is not reopened by
dotted keys, one that dotted keys made gets no header, and a value is final. -/

namespace Cascade.Toml

structure Path where
  tables : List String
  key : String
deriving DecidableEq

inductive Origin where
  /-- By a header of its own, or as the root. -/
  | header
  /-- By a header that leads through it. -/
  | passage
  /-- By a dotted key that leads through it. -/
  | dotted
deriving DecidableEq

/-- A part of a document under assembly: a value, a table, or the tables of an array, of which
the last one is still open. -/
inductive Part where
  | value (value : Toml)
  | table (origin : Origin) (parts : OrderedMap String Part)
  | elements (tables : List (OrderedMap String Part))

abbrev Parts := OrderedMap String Part

namespace Parts

/-- Changes the table at the end of a way, and makes the tables of the way that are missing.
Dotted keys do not lead through a table with a header of its own. -/
def changeAt (dotted : Bool) (change : Origin → Parts → Option Parts) :
    (way : List String) → Origin → Parts → Option Parts
  | [], origin, parts => change origin parts
  | key :: way, _, parts =>
      match parts.get? key with
      | none => do
          let origin := if dotted then .dotted else .passage
          return parts.insert key (.table origin (← changeAt dotted change way origin ∅))
      | some (.value _) => none
      | some (.table origin inner) =>
          if dotted && origin = .header then none
          else do
            let changed ← changeAt dotted change way origin inner
            return parts.insert key (.table origin changed)
      | some (.elements tables) =>
          match tables.getLast? with
          | none => none
          | some last => do
              let changed ← changeAt dotted change way .header last
              return parts.insert key (.elements (tables.dropLast ++ [changed]))

/-- Puts a value under a new key. A table that is reached through others must have been made by
dotted keys. -/
def assign (path : Path) (value : Toml) (origin : Origin) (parts : Parts) : Option Parts :=
  changeAt true (fun origin parts =>
    if decide (origin = .dotted) == path.tables.isEmpty then none
    else if parts.contains path.key then none
    else some (parts.insert path.key (.value value))) path.tables origin parts

/-- Opens a table by its header. A table that headers lead through moves to the end. -/
def openTable (path : Path) (parts : Parts) : Option Parts :=
  changeAt false (fun _ parts =>
    match parts.get? path.key with
    | none => some (parts.insert path.key (.table .header ∅))
    | some (.table .passage inner) =>
        some ((parts.erase path.key).insert path.key (.table .header inner))
    | _ => none) path.tables .header parts

/-- Opens the next table of an array by its header. -/
def openElement (path : Path) (parts : Parts) : Option Parts :=
  changeAt false (fun _ parts =>
    match parts.get? path.key with
    | none => some (parts.insert path.key (.elements [∅]))
    | some (.elements tables) => some (parts.insert path.key (.elements (tables ++ [∅])))
    | _ => none) path.tables .header parts

end Parts

mutual

def Part.finish : Part → Toml
  | .value content => content
  | .table _ ⟨parts⟩ => .table ⟨Part.finishAll parts⟩
  | .elements tables => .array (Part.finishTables tables)

def Part.finishAll : List (String × Part) → List (String × Toml)
  | [] => []
  | (key, part) :: rest => (key, part.finish) :: Part.finishAll rest

def Part.finishTables : List (OrderedMap String Part) → List Toml
  | [] => []
  | ⟨parts⟩ :: rest => .table ⟨Part.finishAll parts⟩ :: Part.finishTables rest

end

def Parts.finish (parts : Parts) : Table := ⟨Part.finishAll parts.entries⟩

inductive Statement where
  | assign (path : Path) (value : Toml)
  | openTable (path : Path)
  | openElement (path : Path)

/-- The parts so far, and the way to the table that assignments go to. -/
structure Assembly where
  root : Parts
  current : List String

namespace Assembly

def start : Assembly := ⟨∅, []⟩

def take (assembly : Assembly) : Statement → Option Assembly
  | .assign path value => do
      let change := Parts.assign path value
      let root ← Parts.changeAt false change assembly.current .header assembly.root
      return { assembly with root }
  | .openTable path => do
      return ⟨← Parts.openTable path assembly.root, path.tables ++ [path.key]⟩
  | .openElement path => do
      return ⟨← Parts.openElement path assembly.root, path.tables ++ [path.key]⟩

end Assembly

def Table.ofStatements? (statements : List Statement) : Option Table :=
  (statements.foldlM Assembly.take .start).map (·.root.finish)

def Table.ofPairs? (pairs : List (Path × Toml)) : Option Table :=
  (pairs.foldlM (fun parts pair => Parts.assign pair.1 pair.2 .header parts) ∅).map Parts.finish

end Cascade.Toml
