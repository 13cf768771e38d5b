import Shaderwright.Emit.Expr

/-!
Names that the target languages share: a vector is called by its component kind and its width.
-/

namespace Shaderwright

def vectorNames : List (String × String) := [
  ("vec2", "float2"), ("vec3", "float3"), ("vec4", "float4"),
  ("ivec2", "int2"), ("ivec3", "int3"), ("ivec4", "int4"),
  ("bvec2", "bool2"), ("bvec3", "bool3"), ("bvec4", "bool4")]

def scalarNames : List (String × String) := [
  ("void", "void"), ("float", "float"), ("int", "int"), ("bool", "bool")]

/-- The types of a target language that calls a texture `texture`. -/
def typeTable (texture : String) : NameTable :=
  ⟨"type", .absent, scalarNames ++ vectorNames ++ [("sampler2D", texture)]⟩

def qualifierTable (param out : String) : NameTable :=
  ⟨"qualifier", .absent, [("none", ""), ("const", "#define"), ("param", param), ("out", out)]⟩

/-- The names under which the stage inputs reach the entry point. -/
def inputTable (spelling : StageInput → String) : NameTable :=
  ⟨"var", .identity, StageInput.all.map fun i => (i.name, spelling i)⟩

def functionTable (renamed : List (String × String)) : NameTable :=
  ⟨"funcname", .identity, renamed ++ vectorNames⟩

def sampleFunction : String := "sample"

namespace ExprDialect

variable {σ : Type}

/-- A constant is a replacement text in parentheses. -/
def defineConstant (d : ExprDialect σ) (v : VarDecl) : Emit σ Unit := do
  if v.init.isAbsent then throw (.refused (.constantWithoutValue v.var.name))
  let define ← d.qualifier v.var.qualifier.text
  let value ← d.exprText v.init
  Emit.writeLine (define ++ " " ++ (← d.variableName v.var.name) ++ " (" ++ value ++ ")")

/-- A call by the mapped name; the arc tangent has another name if it takes two arguments. -/
def callMapped (functions : NameTable) (callee : String) (args : List (Operand σ)) :
    Emit σ Unit :=
  if callee = "atan" && args.length = 2 then callNamed "atan2" args
  else callNamed (functions.get callee) args

end ExprDialect

end Shaderwright
