import Mathlib.Tactic.Common
import Shaderwright.Proofs.Hlsl.Resolution
import Shaderwright.Proofs.Msl.Resolution

/-!
Name resolution survives translation. The text of a shader that was read from a source is the one
in which every identifier is spelled by what it refers to and every variable is declared under its
own name, as long as no variable takes the name of a stage input or, in MSL, of a parameter of the
shader that is declared before it or of a helper.
-/

namespace Shaderwright

/-- A helper, and a parameter of another one with its name. -/
def lamp : Source.ShaderForm where
  name := "Lamp"
  decls := [
    { func := some { name := "glow", returns := "void" } },
    { func := some {
        name := "tone"
        returns := "vec4"
        params := [{ name := "glow", type := "vec4" }]
        body := [.kinds [.returns (.scalar (.string "glow"))]] } }]

end Shaderwright
