import Shaderwright.Number.Notation
import Shaderwright.Number.Reader
import Shaderwright.Text.Basic

/-!
Scalars of a YAML document: a plain text may stand for a truth value, a number or nothing at
all, a quoted one always stands for itself.
-/

namespace Shaderwright.Yaml

inductive Scalar where
  | null
  | bool (b : Bool)
  | int (n : Int)
  | float (x : Binary64)
  | string (s : String)
  deriving DecidableEq, Repr, Inhabited

/-- The number that a plain text writes, if it writes one. A plus sign in front does not count,
not even in front of a minus sign. Non-negative integers have 64 bits without and negative ones with
a sign. -/
def number? (cs : List Char) : Option Scalar :=
  let points := cs.count '.'
  if cs.isEmpty || cs.head? = some '_' || 1 < points then none
  else
    let negative := cs.head? = some '-'
    let unsigned := Text.strip '-' (Text.strip '+' cs)
    let digits := unsigned.filter (· ≠ '_')
    let integer (base : Nat) (digits : List Char) : Option Scalar := do
      let n ← Number.natural? base digits
      if negative then
        if n ≤ Number.signedLimit then some (.int (-n)) else none
      else if n < Number.unsignedLimit then some (.int n) else none
    match digits with
    | '0' :: 'x' :: digits => integer 16 digits
    | '0' :: 'o' :: digits => integer 8 digits
    | '0' :: 'b' :: digits => integer 2 digits
    | digits =>
      if points = 1 then
        (Number.fraction? (if negative then '-' :: digits else digits)).map .float
      else
        match digits with
        | '0' :: d :: rest => integer 8 (d :: rest)
        | digits => integer 10 digits

def resolve (s : String) : Scalar :=
  if ["", "~", "null", "Null", "NULL"].contains s then .null
  else if ["true", "True", "TRUE"].contains s then .bool true
  else if ["false", "False", "FALSE"].contains s then .bool false
  else if [".inf", ".Inf", ".INF"].contains s then .float (.infinite false)
  else if ["-.inf", "-.Inf", "-.INF"].contains s then .float (.infinite true)
  else if [".nan", ".NaN", ".NAN"].contains s then .float .nan
  else (number? s.toList).getD (.string s)

def Scalar.text : Scalar → String
  | null => "<nil>"
  | bool b => if b then "true" else "false"
  | int n => toString n
  | float x => x.text
  | string s => s

end Shaderwright.Yaml
