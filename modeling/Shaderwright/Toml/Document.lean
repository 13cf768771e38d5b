import Shaderwright.Toml.Definition
import Shaderwright.Toml.Value

/-!
TOML documents as the list of their statements.
-/

namespace Shaderwright.Toml

mutual

def value : Nat → Reader Value
  | 0, _ => none
  | _ + 1, '"' :: '"' :: '"' :: rest =>
    (longBasicText false [] (dropBreak rest)).map fun r => (.text r.1, r.2)
  | _ + 1, '\'' :: '\'' :: '\'' :: rest =>
    (longLiteralText [] (dropBreak rest)).map fun r => (.text r.1, r.2)
  | _ + 1, '"' :: rest => (basicText [] rest).map fun r => (.text r.1, r.2)
  | _ + 1, '\'' :: rest => (literalText [] rest).map fun r => (.text r.1, r.2)
  | fuel + 1, '[' :: rest => items fuel [] rest
  | fuel + 1, '\x7b' :: rest =>
    match skipSpaces rest with
    | '\x7d' :: rest => some (.table [], rest)
    | rest => fields fuel [] rest
  | _ + 1, cs => word cs

/-- The items of an array up to its bracket. A comma may stand behind the last one. -/
def items : Nat → List Value → Reader Value
  | 0, _, _ => none
  | fuel + 1, done, cs => do
    match ← skipFiller false cs with
    | ']' :: rest => return (.array done, rest)
    | rest =>
      let (v, rest) ← value fuel rest
      match ← skipFiller false rest with
      | ',' :: rest => items fuel (done ++ [v]) rest
      | ']' :: rest => return (.array (done ++ [v]), rest)
      | _ => none

def fields : Nat → List (List String × Value) → Reader Value
  | 0, _, _ => none
  | fuel + 1, done, cs => do
    let (k, v, rest) ← assignment fuel cs
    let done := done ++ [(k, v)]
    match skipSpaces rest with
    | ',' :: rest => fields fuel done (skipSpaces rest)
    | '\x7d' :: rest => return (.table done, rest)
    | _ => none

def assignment : Nat → List Char → Option (List String × Value × List Char)
  | 0, _ => none
  | fuel + 1, cs => do
    match ← key (cs.length + 1) cs with
    | (k, '=' :: rest) => do
      let (v, rest) ← value fuel (skipSpaces rest)
      return (k, v, rest)
    | _ => none

end

inductive Statement where
  | table (path : List String)
  | repeated (path : List String)
  | assign (key : List String) (value : Value)
  deriving Repr, Inhabited

def statement (fuel : Nat) : Reader Statement
  | '[' :: '[' :: rest => do
    match ← key fuel (skipSpaces rest) with
    | (path, ']' :: ']' :: rest) => return (.repeated path, rest)
    | _ => none
  | '[' :: rest => do
    match ← key fuel (skipSpaces rest) with
    | (path, ']' :: rest) => return (.table path, rest)
    | _ => none
  | cs => do
    let (k, v, rest) ← assignment fuel cs
    return (.assign k v, rest)

/-- The statements of a text up to the first place where it is malformed. -/
structure Statements where
  statements : List Statement := []
  /-- Whether there is no such place. -/
  isComplete : Bool
  deriving Repr, Inhabited

def statements (depth : Nat) : Nat → List Char → Statements
  | 0, _ => ⟨[], false⟩
  | fuel + 1, cs =>
    match skipFiller false cs with
    | none => ⟨[], false⟩
    | some [] => ⟨[], true⟩
    | some cs =>
      match statement depth cs with
      | none => ⟨[], false⟩
      | some (s, rest) =>
        match skipRemark rest with
        | none => ⟨[], false⟩
        | some rest =>
          let others : Statements := match rest with
            | [] => ⟨[], true⟩
            | '\n' :: rest => statements depth fuel rest
            | '\r' :: '\n' :: rest => statements depth fuel rest
            | _ => ⟨[], false⟩
          ⟨s :: others.statements, others.isComplete⟩

def read (text : String) : Statements :=
  let cs := text.toList
  statements (3 * cs.length + 3) (cs.length + 1) cs

end Shaderwright.Toml
