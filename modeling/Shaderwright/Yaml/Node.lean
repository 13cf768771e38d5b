import Shaderwright.Text.Basic
import Shaderwright.Yaml.Scalar
import Shaderwright.Yaml.Token

/-!
Nodes of a YAML document, and the values that they stand for. A node knows the part of the text
that it was read from: its excerpt is a document of its own.
-/

namespace Shaderwright.Yaml

/-- A part of a text and how far it is indented there. -/
structure Origin where
  source : String := ""
  margin : Nat := 0
  deriving DecidableEq, Repr, Inhabited

inductive Key where
  /-- The value is a mapping whose entries count as entries of the mapping around it. -/
  | merge
  | scalar (s : Scalar)
  deriving DecidableEq, Repr, Inhabited

inductive Node where
  | scalar (origin : Origin) (s : Scalar)
  | list (origin : Origin) (items : List Node)
  | map (origin : Origin) (entries : List (Key × Node))
  deriving Repr, Inhabited

abbrev Entries := List (Key × Node)

namespace Node

def missing : Node := .scalar {} .null

def origin : Node → Origin
  | scalar o _ => o
  | list o _ => o
  | map o _ => o

def source (n : Node) : String := n.origin.source

def isNull : Node → Bool
  | scalar _ .null => true
  | _ => false

end Node

/-! ### Excerpts -/

/-- The line without the first `n` blanks, or as many as there are. -/
def dedentLine : Nat → List Char → List Char
  | n + 1, ' ' :: rest => dedentLine n rest
  | _, line => line

def dedent (n : Nat) (text : List Char) : List Char :=
  if n = 0 then text
  else
    (Text.unlines ((Text.splitOn '\n' (unifyBreaks text)).map fun line =>
      String.ofList (dedentLine n line))).toList

/-- The text of a node moved to the left margin. -/
def Node.excerpt (n : Node) : String :=
  let text := dedent n.origin.margin (n.source.toList.dropWhile isBreak)
  String.ofList (text.dropWhile (· == ' '))

/-! ### Values -/

/-- What a document stands for, whatever it is read as. -/
inductive Value where
  | scalar (s : Scalar)
  | list (items : List Value)
  | map (entries : List (String × Value))
  deriving Repr, Inhabited

def Scalar.keyText : Scalar → String
  | null => "null"
  | s => s.text

/-- Give a key a value, a new one if it has one already. -/
def assign (key : String) (v : Value) : List (String × Value) → List (String × Value)
  | [] => [(key, v)]
  | e :: rest => if e.1 = key then (key, v) :: rest else e :: assign key v rest

namespace Value

/-- The entries of a mapping, or of all mappings of a list. -/
def merged? : Value → Option (List (String × Value))
  | map entries => some entries
  | list items =>
    items.foldlM (fun all v =>
      match v with
      | map entries => some (entries.foldl (fun all e => assign e.1 e.2 all) all)
      | _ => none) []
  | scalar _ => none

mutual

/-- The value of a node. Only mappings can be merged into a mapping. -/
def ofNode : Node → Except ReadError Value
  | .scalar _ s => .ok (.scalar s)
  | .list _ items => return .list (← ofNodes items)
  | .map _ entries => return .map (← ofEntries [] entries)

def ofNodes : List Node → Except ReadError (List Value)
  | [] => .ok []
  | n :: rest => return (← ofNode n) :: (← ofNodes rest)

def ofEntries (done : List (String × Value)) :
    List (Key × Node) → Except ReadError (List (String × Value))
  | [] => .ok done
  | (.scalar key, n) :: rest => do ofEntries (assign key.keyText (← ofNode n) done) rest
  | (.merge, n) :: rest => do
    match (← ofNode n).merged? with
    | some entries => ofEntries (entries.foldl (fun all e => assign e.1 e.2 all) done) rest
    | none => .error .malformed

end

mutual

/-- How a value is shown: the items of a list in brackets, the entries of a mapping in the order of
their keys. -/
def shown : Value → String
  | .scalar s => s.text
  | .list items => "[" ++ Text.joinWith " " (shownItems items) ++ "]"
  | .map entries =>
    let shownEntries := (shownFields entries).mergeSort fun a b => a.1 ≤ b.1
    "map[" ++ Text.joinWith " " (shownEntries.map fun e => e.1 ++ ":" ++ e.2) ++ "]"

def shownItems : List Value → List String
  | [] => []
  | v :: rest => shown v :: shownItems rest

def shownFields : List (String × Value) → List (String × String)
  | [] => []
  | (key, v) :: rest => (key, shown v) :: shownFields rest

end

end Value

end Shaderwright.Yaml
