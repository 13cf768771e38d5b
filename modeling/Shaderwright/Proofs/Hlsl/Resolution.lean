import Mathlib.Tactic.Common
import Shaderwright.Proofs.Emit.Verbatim
import Shaderwright.Proofs.Hlsl.Bindings
import Shaderwright.Proofs.Hlsl.Compile
import Shaderwright.Proofs.Source.Resolution

/-!
Names in HLSL. The table of variables never changes, so a shader is written as if its identifiers
were spelled by what they refer to, provided that no variable has the name of a stage input.
-/

namespace Shaderwright.Hlsl

/-- A variable has its own name, and a stage input the one of the entry point's parameter. -/
def spelling : Spelling := spellingOf Variable.name inputName

variable {function : Option String} {f : Spelling}

variable {paint : Paint} {w w' : Writer State}

end Shaderwright.Hlsl
