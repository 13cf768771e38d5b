import Shaderwright.Yaml.Document

/-!
Strict decoding of nodes into values of known types. A null leaves a value as it was, and a key
that nobody asks for is an error of its own, which counts only if nothing else is wrong.
-/

namespace Shaderwright.Yaml

inductive DecodeError where
  | mismatch
  | unknownField
  deriving DecidableEq, Repr

abbrev Decoding := Except DecodeError

namespace Scalar

/-- A scalar where a text is wanted; a null gives none. -/
def asText : Scalar → Option String
  | null => none
  | s => some s.text

/-- An integer made of a floating-point number. What does not fit gives the least integer. -/
def ofFloat (x : Binary64) : Int :=
  match x.truncate? with
  | some n => if Number.isInt64 n then n else -(Number.signedLimit : Int)
  | none => -(Number.signedLimit : Int)

def atMost (limit : Nat) : Binary64 → Bool
  | .finite negative m e => negative || (Ratio.scaled m 2 e).le ⟨limit, 1⟩
  | .infinite negative => negative
  | .nan => false

def isNonNegative : Binary64 → Bool
  | .finite negative m _ => !negative || m == 0
  | .infinite negative => !negative
  | .nan => false

/-- A scalar where an integer is wanted. Fractions lose what is behind the point, and a text
that reads as a number that is not negative will do as well. -/
def asInt : Scalar → Decoding (Option Int)
  | null => .ok none
  | bool _ => .error .mismatch
  | int n => if Number.isInt64 n then .ok (some n) else .error .mismatch
  | float x => if atMost Number.signedLimit x then .ok (some (ofFloat x)) else .error .mismatch
  | string s =>
    match Number.fraction? s.toList with
    | none => .error .mismatch
    | some x =>
      if isNonNegative x && atMost Number.unsignedLimit x then .ok (some (ofFloat x))
      else .error .mismatch

def asBool : Scalar → Decoding (Option Bool)
  | null => .ok none
  | bool b => .ok (some b)
  | _ => .error .mismatch

end Scalar

/-! ### Fields of a mapping -/

abbrev Fields := List (String × Node)

/-- Add a field behind those that are there; a second one of the same name is an error. -/
def addField (fields : Fields) (f : String × Node) : Decoding Fields :=
  if fields.any fun g => g.1 = f.1 then .error .mismatch else .ok (fields ++ [f])

namespace Node

mutual

/-- The fields of a mapping. A mapping with a key that is no text has none at all. -/
def fields : Node → Decoding Fields
  | .map _ entries => return (← fieldsBehind [] entries).getD []
  | _ => .error .mismatch

def fieldsBehind (done : Fields) : List (Key × Node) → Decoding (Option Fields)
  | [] => .ok (some done)
  | (.scalar (.string name), n) :: rest => do fieldsBehind (← addField done (name, n)) rest
  | (.scalar _, _) :: _ => .ok none
  | (.merge, n) :: rest => do fieldsBehind (← (← fields n).foldlM addField done) rest

end

end Node

variable {α : Type}

/-- The value of a field, decoded; a missing field and a null give none. -/
def field (fields : Fields) (key : String) (decode : Node → Decoding (Option α)) :
    Decoding (Option α) :=
  match fields.lookup key with
  | none => .ok none
  | some n => decode n

def onlyKeys (keys : List String) (fields : Fields) : Decoding Unit :=
  if fields.all fun f => keys.contains f.1 then .ok () else .error .unknownField

/-! ### Nodes where something is wanted -/

namespace Node

def text? : Node → Decoding (Option String)
  | .scalar _ s => .ok s.asText
  | _ => .error .mismatch

def int? : Node → Decoding (Option Int)
  | .scalar _ s => s.asInt
  | _ => .error .mismatch

def bool? : Node → Decoding (Option Bool)
  | .scalar _ s => s.asBool
  | _ => .error .mismatch

def some? (decode : Node → Decoding α) (n : Node) : Decoding (Option α) :=
  if n.isNull then .ok none else (decode n).map some

/-- A list of things, where a null stands for an empty one. -/
def items? [Inhabited α] (decode : Node → Decoding (Option α)) :
    Node → Decoding (Option (List α)) :=
  some? fun
    | .list _ items => items.mapM fun n => return (← decode n).getD default
    | _ => .error .mismatch

def record? (decode : Fields → Decoding α) : Node → Decoding (Option α) :=
  some? fun n => do decode (← n.fields)

end Node

end Shaderwright.Yaml
