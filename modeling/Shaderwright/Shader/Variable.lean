import Shaderwright.Shader.Type

/-!
Variables: what is declared of a name, apart from its initial value, and the four inputs
that the fragment stage hands to the entry point.
-/

namespace Shaderwright

inductive Qualifier where
  | none
  | const
  | param
  | other (code : Nat)
  deriving DecidableEq, Repr, Inhabited

namespace Qualifier

def ofCode : Nat → Qualifier
  | 0 => none
  | 1 => const
  | 2 => param
  | n => other n

/-- The spelling in a shader, which is also the key in a table of qualifiers. -/
def text : Qualifier → String
  | none => "none"
  | const => "const"
  | param => "param"
  | other n => "Qualifier(" ++ toString n ++ ")"

def parse? : String → Option Qualifier
  | "" => some none
  | "none" => some none
  | "const" => some const
  | "param" => some param
  | _ => Option.none

end Qualifier

inductive Precision where
  | unspecified
  | low
  | medium
  | high
  | other (code : Nat)
  deriving DecidableEq, Repr, Inhabited

namespace Precision

def ofCode : Nat → Precision
  | 0 => unspecified
  | 1 => low
  | 2 => medium
  | 3 => high
  | n => other n

/-- The keyword, which is empty when there is nothing to say. -/
def text : Precision → String
  | low => "lowp"
  | medium => "mediump"
  | high => "highp"
  | _ => ""

def parse? : String → Option Precision
  | "" => some unspecified
  | "lowp" => some low
  | "mediump" => some medium
  | "highp" => some high
  | _ => none

end Precision

/-- A variable. The `id` tells apart the variables of one shader, whatever their names. -/
structure Variable where
  id : Nat := 0
  name : String
  type : ShaderType
  qualifier : Qualifier := .none
  precision : Precision := .unspecified
  /-- The register or slot that the author of the shader assigned. -/
  slot : Int64 := 0
  isArray : Bool := false
  arraySize : Int64 := 0
  /-- Whether a parameter carries a value out of its function. -/
  out : Bool := false
  deriving DecidableEq, Repr, Inhabited

namespace Variable

/-- The number of elements: 1 for anything but an array with a positive size. -/
def count (v : Variable) : Int64 :=
  if v.isArray && 0 < v.arraySize then v.arraySize else 1

/-- The size in brackets behind the name of an array. -/
def extent (v : Variable) : String :=
  if v.isArray then "[" ++ toString v.arraySize.toInt ++ "]" else ""

end Variable

/-- The inputs that are declared before any shader is read. -/
inductive StageInput where
  | fragCoord
  | texCoord
  | vertexColor
  | localCoord
  deriving DecidableEq, Repr, Inhabited

namespace StageInput

def all : List StageInput := [fragCoord, texCoord, vertexColor, localCoord]

def name : StageInput → String
  | fragCoord => "fragCoord"
  | texCoord => "texCoord"
  | vertexColor => "vertexColor"
  | localCoord => "localCoord"

def type : StageInput → ShaderType
  | fragCoord => .vec4
  | texCoord => .vec2
  | vertexColor => .vec4
  | localCoord => .vec2

def ofName? (name : String) : Option StageInput :=
  all.find? fun i => i.name == name

end StageInput

end Shaderwright
