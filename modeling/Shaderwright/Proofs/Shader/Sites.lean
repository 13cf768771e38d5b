import Mathlib.Tactic.Common
import Shaderwright.Shader.EntryPoint

/-!
Places in a shader where a statement stands, at any depth of a function. A place is given by the
tree around it, so that any other statement can be put there.
-/

namespace Shaderwright

/-- A statement in which one statement is left open. -/
inductive Gap where
  | here
  | block (before : List Stmt) (gap : Gap) (after : List Stmt)
  | thenBranch (cond : Expr) (gap : Gap) (no : Stmt)
  | elseBranch (cond : Expr) (yes : Stmt) (gap : Gap)
  | loopInit (gap : Gap) (cond post : Expr) (body : Stmt)
  | loopBody (init : Stmt) (cond post : Expr) (gap : Gap)
  deriving Repr

namespace Gap

def fill : Gap → Stmt → Stmt
  | here, s => s
  | block before g after, s => .block (before ++ g.fill s :: after)
  | thenBranch cond g no, s => .ifElse cond (g.fill s) no
  | elseBranch cond yes g, s => .ifElse cond yes (g.fill s)
  | loopInit g cond post body, s => .loop (g.fill s) cond post body
  | loopBody init cond post g, s => .loop init cond post (g.fill s)

/-- Whether the gap is the start of a loop. A loop cannot start with a larger statement, and what
stands inside of such a one is never reached. -/
def opensLoop : Gap → Bool
  | here => false
  | block _ g _ => g.opensLoop
  | thenBranch _ g _ => g.opensLoop
  | elseBranch _ _ g => g.opensLoop
  | loopInit here _ _ _ => true
  | loopInit _ _ _ _ => false
  | loopBody _ _ _ g => g.opensLoop

end Gap

/-- A place in a shader where a statement stands. The body of the function is what stands around
that place. -/
structure Site where
  name : String
  before : List Decl
  function : FuncDef
  front : List Stmt
  gap : Gap
  back : List Stmt
  after : List Decl
  deriving Repr

namespace Site

def definition (p : Site) (s : Stmt) : FuncDef :=
  { p.function with body := p.front ++ p.gap.fill s :: p.back }

def shader (p : Site) (s : Stmt) : Shader :=
  ⟨p.name, p.before ++ .func (p.definition s) :: p.after⟩

variable (p : Site) (s : Stmt)

@[simp] lemma name_definition : (p.definition s).name = p.function.name := rfl

@[simp] lemma returns_definition : (p.definition s).returns = p.function.returns := rfl

@[simp] lemma params_definition : (p.definition s).params = p.function.params := rfl

@[simp] lemma entryFault?_definition : (p.definition s).entryFault? = p.function.entryFault? := rfl

@[simp] lemma accumulator_definition : (p.definition s).accumulator = p.function.accumulator := rfl

lemma params_func?_shader (s' : Stmt) (name : String) :
    ((p.shader s).func? name).map FuncDef.params =
      ((p.shader s').func? name).map FuncDef.params := by
  unfold Shader.func? shader
  simp only [List.findSome?_append, List.findSome?_cons, name_definition]
  rcases p.before.findSome? _ with _ | f
  · by_cases h : p.function.name = name
    · simp [h, definition]
    · simp [h]
  · simp

end Site

end Shaderwright
