/-!
The value types of the shader language: a component kind and a number of components.
-/

namespace Shaderwright

/-- What the components of a value are. Kinds without a name are told apart by their code. -/
inductive Base where
  | void
  | float
  | int
  | bool
  | sampler
  | other (code : Nat)
  deriving DecidableEq, Repr, Inhabited

namespace Base

def ofCode : Nat → Base
  | 0 => void
  | 1 => float
  | 2 => int
  | 3 => bool
  | 4 => sampler
  | n => other n

def code : Base → Nat
  | void => 0
  | float => 1
  | int => 2
  | bool => 3
  | sampler => 4
  | other n => n

def text : Base → String
  | void => "void"
  | float => "float"
  | int => "int"
  | bool => "bool"
  | sampler => "sampler"
  | other n => "BaseKind(" ++ toString n ++ ")"

end Base

structure ShaderType where
  base : Base
  arity : Nat
  deriving DecidableEq, Repr, Inhabited

namespace ShaderType

protected def void : ShaderType := ⟨.void, 0⟩
protected def float : ShaderType := ⟨.float, 1⟩
protected def int : ShaderType := ⟨.int, 1⟩
protected def bool : ShaderType := ⟨.bool, 1⟩
def vec2 : ShaderType := ⟨.float, 2⟩
def vec4 : ShaderType := ⟨.float, 4⟩
def sampler2D : ShaderType := ⟨.sampler, 1⟩

def isSampler (t : ShaderType) : Bool := t.base == .sampler

/-- A scalar or vector of one to four floats, ints or bools. -/
def isNumeric (t : ShaderType) : Bool :=
  (t.base == .float || t.base == .int || t.base == .bool) && 1 ≤ t.arity && t.arity ≤ 4

/-- The number of components of a numeric type, and 0 for any other. -/
def components (t : ShaderType) : Nat :=
  if t.isNumeric then t.arity else 0

/-- How the type is spelled in a shader. Types that no shader can spell get a name as well. -/
def name (t : ShaderType) : String :=
  match t.base with
  | .void => "void"
  | .sampler => "sampler2D"
  | b =>
    if t.arity = 1 then b.text
    else
      let lead := match b with
        | .int => "i"
        | .bool => "b"
        | _ => ""
      lead ++ "vec" ++ toString t.arity

def parse? : String → Option ShaderType
  | "void" => some .void
  | "sampler2D" => some sampler2D
  | "float" => some .float
  | "vec2" => some ⟨.float, 2⟩
  | "vec3" => some ⟨.float, 3⟩
  | "vec4" => some ⟨.float, 4⟩
  | "int" => some .int
  | "ivec2" => some ⟨.int, 2⟩
  | "ivec3" => some ⟨.int, 3⟩
  | "ivec4" => some ⟨.int, 4⟩
  | "bool" => some .bool
  | "bvec2" => some ⟨.bool, 2⟩
  | "bvec3" => some ⟨.bool, 3⟩
  | "bvec4" => some ⟨.bool, 4⟩
  | _ => none

def ofConstructor? (callee : String) : Option ShaderType :=
  (parse? callee).filter isNumeric

end ShaderType

end Shaderwright
