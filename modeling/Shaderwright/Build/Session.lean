import Shaderwright.Build.World
import Shaderwright.Config.Basic

/-!
A build session: one valid configuration, and the library that the shaders compiled to MSL are
recorded in until they are written out.
-/

namespace Shaderwright

structure Session where
  config : Config
  hlslOptions : Hlsl.Options
  library : Msl.Library

namespace Session

/-- Only a valid configuration opens a session. -/
def new (c : Config) : Except SettingError Session := do
  c.validate
  let options ← c.hlsl.options
  return ⟨c, options, c.msl.library⟩

def invalidMessage (e : SettingError) : String := "invalid config: " ++ e.message

def compileHlsl (s : Session) (shader : Option Shader) :
    Build (Except Hlsl.Failure Hlsl.Output) := do
  let r ← Hlsl.compile s.hlslOptions shader
  match r with
  | .error _ => return r
  | .ok o =>
    Build.log .debug "compiled shader"
      [("backend", .text "hlsl"), ("shader", .text ((shader.map Shader.name).getD "")),
        ("bindings", .number o.bindings.length), ("slots", .number o.slotUsage.toInt)]
    return r

/-- Compile a shader that will be written to a path, which decides on the platform. -/
def compileMsl (s : Session) (shader : Option Shader) (outputPath : String) :
    Build (Except Msl.Failure Msl.Output × Session) := do
  let (r, library) ← Msl.compile ⟨outputPath, s.config.msl.iosMarker⟩ (some s.library) shader
  let s := { s with library := library.getD s.library }
  match r with
  | .error _ => return (r, s)
  | .ok o =>
    Build.log .debug "compiled shader"
      [("backend", .text "msl"), ("shader", .text ((shader.map Shader.name).getD "")),
        ("uniforms", .number o.uniforms.length), ("variant", .text o.variant.text)]
    return (r, s)

/-- Write the headers of the library, unless there is no directory for them. -/
def flush (s : Session) : Build (List Msl.FlushError) := do
  if s.config.msl.headerDir = "" then
    Build.log .debug "msl.header_dir not set, skipping metadata headers"
    return []
  s.library.flush s.config.msl.headerDir

end Session

end Shaderwright
