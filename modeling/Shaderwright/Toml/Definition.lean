import Shaderwright.Toml.Value

/-!
What the statements of a TOML document define. A key may be given a value once, a table may be
opened once, and a table that was written in any other way may not be opened again.
-/

namespace Shaderwright.Toml

inductive DefinitionKind where
  | value
  /-- A table that only a longer table header speaks of. -/
  | implied
  /-- A table that dotted keys speak of, below the header that is still open. -/
  | dotted
  | opened
  /-- An array of tables. -/
  | repeated
  deriving DecidableEq, Repr

abbrev Definitions := List (List String × DefinitionKind)

namespace Definitions

def put (ds : Definitions) (path : List String) (kind : DefinitionKind) : Definitions :=
  (path, kind) :: ds.filter fun d => d.1 != path

/-- A new header closes the tables that were opened by dotted keys. -/
def closeDotted (ds : Definitions) : Definitions :=
  ds.map fun d => if d.2 = .dotted then (d.1, .opened) else d

/-- The tables that lead to the table at `path ++ rest`, without it. -/
def lead (ds : Definitions) (path : List String) : List String → Option Definitions
  | [] => some ds
  | [_] => some ds
  | part :: rest =>
    let path := path ++ [part]
    match ds.lookup path with
    | some .value => none
    | some _ => lead ds path rest
    | none => lead (ds.put path .implied) path rest

def openTable (ds : Definitions) (path : List String) : Option Definitions := do
  let ds ← lead ds.closeDotted [] path
  match ds.lookup path with
  | none => some (ds.put path .opened)
  | some .implied => some (ds.put path .opened)
  | some _ => none

/-- Open one more table of an array, in which nothing is defined yet. -/
def openRepeated (ds : Definitions) (path : List String) : Option Definitions := do
  let ds ← lead ds.closeDotted [] path
  match ds.lookup path with
  | none => some (ds.put path .repeated)
  | some .repeated => some (ds.filter fun d => !(path.isPrefixOf d.1 && d.1 != path))
  | some _ => none

/-- Give a value to a key below the table at `path`. -/
def assign (ds : Definitions) (path : List String) : List String → Option Definitions
  | [] => none
  | [part] =>
    let path := path ++ [part]
    match ds.lookup path with
    | none => some (ds.put path .value)
    | some _ => none
  | part :: rest =>
    let path := path ++ [part]
    match ds.lookup path with
    | none => assign (ds.put path .dotted) path rest
    | some .dotted => assign ds path rest
    | some .implied => assign ds path rest
    | some _ => none

end Definitions

mutual

/-- Whether the keys of all inline tables in a value can stand side by side. -/
def Value.isDistinct : Value → Bool
  | .array items => areDistinct items
  | .table fields => (fields.foldlM (fun ds f => Definitions.assign ds [] f.1) []).isSome &&
      fieldsAreDistinct fields
  | _ => true

def areDistinct : List Value → Bool
  | [] => true
  | v :: rest => v.isDistinct && areDistinct rest

def fieldsAreDistinct : List (List String × Value) → Bool
  | [] => true
  | (_, v) :: rest => v.isDistinct && fieldsAreDistinct rest

end

end Shaderwright.Toml
