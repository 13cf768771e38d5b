import Shaderwright.Hlsl.Dialect
import Shaderwright.Hlsl.Header

/-!
Compiling a shader to HLSL: the text is written first, then the budget is checked, and only a
shader that keeps it reaches the headers and the counters.
-/

namespace Shaderwright.Hlsl

/-- What happens to a shader that does not keep the slot budget. -/
inductive BudgetPolicy where
  | fatal
  | warn
  | other (code : Nat)
  deriving DecidableEq, Repr, Inhabited

namespace BudgetPolicy

def ofCode : Nat → BudgetPolicy
  | 0 => fatal
  | 1 => warn
  | n => other n

def text : BudgetPolicy → String
  | warn => "warn"
  | _ => "fatal"

def parse? : String → Option BudgetPolicy
  | "fatal" => some fatal
  | "warn" => some warn
  | _ => none

end BudgetPolicy

structure Options where
  target : String := "Effects"
  /-- Where the headers are kept; empty if there are none. -/
  headerDir : String := ""
  commonHeader : String := "ShaderResourceTypes.h"
  slotBudget : Int64 := defaultSlotBudget
  budgetPolicy : BudgetPolicy := .fatal
  paintFunction : String := "paint"
  /-- The parameters of the paint function in a shader that does not define it. -/
  paintSignature : List ShaderType := [.vec4]
  deriving DecidableEq, Repr, Inhabited

/-- A definition in the shader itself takes precedence over the configured signature. -/
def Options.paint (o : Options) (s : Shader) : Paint where
  function := o.paintFunction
  params :=
    match s.func? o.paintFunction with
    | some f => f.params.map fun p => p.var.type
    | none => o.paintSignature

inductive Failure where
  | fault (f : Fault)
  | overBudget (o : Overflow)
  deriving DecidableEq, Repr

def errorKinds : List ErrorKind :=
  [.refused .declaration, .refused .entryPoint, .refused .call, .slotBudget, .internal]

def overBudgetMessage (o : Overflow) : String :=
  "hlsl " ++ ErrorKind.slotBudget.text ++ ": " ++ o.message

def Failure.message : Failure → String
  | fault f => "hlsl: " ++ f.message "hlsl"
  | overBudget o => "hlsl: " ++ overBudgetMessage o

structure Code where
  text : String
  bindings : List Binding
  deriving DecidableEq, Repr

structure Output extends Code where
  /-- The header that the bindings were recorded in, if any. -/
  headerPath : String
  deriving DecidableEq, Repr

def Output.slotUsage (o : Output) : Int64 := Hlsl.slotUsage o.bindings

def headerLine (shader : String) : String :=
  "// " ++ shader ++ ".hlsl: generated by shadergen\n\n"

def translate (o : Options) : Option Shader → Except Fault Code
  | none => .error .noShader
  | some s =>
    if s.name = "" then .error (.refused .unnamedShader)
    else
      match ((dialect (o.paint s)).visit (headerLine s.name) s).exec { own := [] } with
      | (.ok (), w) => .ok ⟨w.out, w.own⟩
      | (.error e, _) => .error e.ofTarget

def headerPlace (o : Options) : HeaderPlace := ⟨o.headerDir, o.target, o.commonHeader⟩

/-- Record a shader in the headers, if there are any. A failure is logged and goes no further. -/
def recordHeaders (o : Options) (shader : String) (bs : List Binding) : Build String := do
  if o.headerDir = "" then return ""
  match ← mergeHeaders (headerPlace o) shader bs with
  | .error (path, e) =>
    Build.log .error "resource header merge failed"
      [("shader", .text shader), ("path", .text path), ("error", .text e.message)]
    Build.count (.failed "hlsl")
    return ""
  | .ok path =>
    Build.count (.merged "hlsl")
    return path

/-- What happens behind the budget check. -/
def finish (o : Options) (shader : String) (code : Code) : Build Output := do
  let path ← recordHeaders o shader code.bindings
  code.bindings.forM fun b => Build.count (.binding "hlsl" b.category.text)
  Build.count (.compiled "hlsl")
  return ⟨code, path⟩

def compile (o : Options) (shader : Option Shader) : Build (Except Failure Output) := do
  match translate o shader with
  | .error f => return .error (.fault f)
  | .ok code =>
    let name := (shader.map Shader.name).getD ""
    match overflow? code.bindings o.slotBudget with
    | none => return .ok (← finish o name code)
    | some overflow =>
      if o.budgetPolicy = .fatal then return .error (.overBudget overflow)
      Build.log .warn "root signature budget exceeded"
        [("shader", .text name), ("error", .text (overBudgetMessage overflow))]
      return .ok (← finish o name code)

end Shaderwright.Hlsl
