import Shaderwright.Shader.Tree
import Shaderwright.Text.Quoted

/-!
The entry point of a shader: the function `main`, which returns nothing and hands its colour
out through at most one parameter.
-/

namespace Shaderwright

def entryPointName : String := "main"

/-- The accumulator of an entry point without an output parameter. -/
def defaultAccumulator : String := "_output"

namespace FuncDef

/-- The name under which the entry point collects its result. -/
def accumulator (f : FuncDef) : String :=
  match f.params.find? fun p => p.var.out with
  | some p => p.var.name
  | none => defaultAccumulator

end FuncDef

inductive EntryFault where
  | returns (t : ShaderType)
  | parameter (name : String)
  | parameterCount (n : Nat)
  deriving DecidableEq, Repr

namespace EntryFault

def message : EntryFault → String
  | returns t => "entry point must return void, got " ++ t.name
  | parameter name => "entry point parameter " ++ Text.quote name ++ " must be out vec4"
  | parameterCount n => "entry point takes at most one parameter, got " ++ toString n

end EntryFault

/-- The convention is `void main()` or `void main(out vec4 color)`. -/
def FuncDef.entryFault? (f : FuncDef) : Option EntryFault :=
  if f.returns ≠ .void then some (.returns f.returns)
  else
    match f.params with
    | [] => none
    | [p] => if p.var.out && p.var.type = .vec4 then none else some (.parameter p.var.name)
    | ps => some (.parameterCount ps.length)

end Shaderwright
