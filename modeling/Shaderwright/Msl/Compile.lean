import Shaderwright.Msl.Dialect
import Shaderwright.Msl.Library
import Shaderwright.Msl.Rename

/-!
Compiling a shader to MSL: the declarations are written, the helpers are renamed, and the
uniform struct is put in front of them.
-/

namespace Shaderwright.Msl

structure Options where
  /-- Where the shader will be written to, which decides on the platform. -/
  outputPath : String := ""
  iosMarker : String := "iOS"
  deriving DecidableEq, Repr, Inhabited

inductive Failure where
  | fault (f : Fault)
  /-- The helpers cannot be searched, or one of them is not found again where it was found. -/
  | unrenamable
  deriving DecidableEq, Repr

def errorKinds : List ErrorKind := [.refused .declaration, .refused .entryPoint, .internal]

def Failure.message : Failure → String
  | fault f => "msl: " ++ f.message "msl"
  | unrenamable => ""

structure Output where
  text : String
  uniforms : List Uniform
  entryPoint : String
  /-- The helpers under their new names. -/
  helpers : List String
  variant : Variant
  deriving DecidableEq, Repr

def headerLines (shader common : String) : String :=
  "// " ++ shader ++ ".metal: generated by shadergen\n#include " ++ Text.quote common ++ "\n\n"

/-- The declarations of a shader under their final names. -/
def rename (shader : String) (helpers : List String) (samples : Bool) (body : String) :
    Option String :=
  (renameHelpers shader helpers body.toList).map fun text =>
    String.ofList (if samples then routeSamples shader text else text)

/-- The whole text: header, uniform struct, the sample function if it is needed, declarations. -/
def assemble (shader common : String) (s : State) (body : String) : String :=
  headerLines shader common ++ structText shader s.uniforms ++ "\n" ++
    (if s.samples then sampleHelper shader ++ "\n" else "") ++ body

/-- Write a shader; the result still lacks the choice of the platform. -/
def translate (common : String) : Option Shader → Except Failure (String × State)
  | none => .error (.fault .noShader)
  | some s =>
    if s.name = "" then .error (.fault (.refused .unnamedShader))
    else
      match ((dialect functions s.name).decls s.decls).exec { own := {} } with
      | (.error e, _) => .error (.fault e.ofTarget)
      | (.ok (), w) =>
        match rename s.name w.own.helpers w.own.samples w.out with
        | none => .error .unrenamable
        | some body => .ok (assemble s.name common w.own body, w.own)

def uniformCategory (u : Uniform) : String :=
  if Text.contains u.field textureType then "texture" else "uniform"

def recordMetadata (library : Library) (shader : String) (v : Variant) (us : List Uniform) :
    Build Library := do
  match library.record shader v us with
  | (.error e, library) =>
    Build.log .error "metadata record failed" [("shader", .text shader), ("error", .text e.message)]
    Build.count (.failed "msl")
    return library
  | (.ok (), library) =>
    Build.count (.merged "msl")
    return library

def compile (o : Options) (library : Option Library) (shader : Option Shader) :
    Build (Except Failure Output × Option Library) := do
  let common := (library.map Library.commonHeader).getD defaultCommonHeader
  match translate common shader with
  | .error e => return (.error e, library)
  | .ok (text, s) =>
    let name := (shader.map Shader.name).getD ""
    let variant := Variant.ofPath o.outputPath o.iosMarker
    let library ← library.mapM fun l => recordMetadata l name variant s.uniforms
    s.uniforms.forM fun u => Build.count (.binding "msl" (uniformCategory u))
    Build.count (.compiled "msl")
    return (.ok ⟨text, s.uniforms, prefixed name entryPointName, s.helpers.map (prefixed name),
      variant⟩, library)

end Shaderwright.Msl
