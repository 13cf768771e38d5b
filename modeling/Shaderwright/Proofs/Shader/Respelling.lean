import Mathlib.Tactic.Common
import Shaderwright.Proofs.Shader.Parts
import Shaderwright.Shader.EntryPoint
import Shaderwright.Shader.Typing

/-!
A shader tree in which the identifiers are spelled in another way. What an identifier refers to
stays as it is, and so do the declared names; only the spelling depends on the name and on what
it refers to.
-/

namespace Shaderwright

/-- How an identifier is spelled, by its name and what it refers to. -/
abbrev Spelling := String → Ref → String

mutual

def Expr.respell (f : Spelling) : Expr → Expr
  | .absent => .absent
  | .ident name ref => .ident (f name ref) ref
  | .literal text kind => .literal text kind
  | .call callee args => .call callee (respellAll f args)
  | .binary op x y => .binary op (x.respell f) (y.respell f)
  | .unary op x => .unary op (x.respell f)
  | .assign op lhs rhs => .assign op (lhs.respell f) (rhs.respell f)
  | .member x field => .member (x.respell f) field
  | .index x i => .index (x.respell f) (i.respell f)

def Expr.respellAll (f : Spelling) : List Expr → List Expr
  | [] => []
  | e :: es => e.respell f :: respellAll f es

end

def VarDecl.respell (f : Spelling) (v : VarDecl) : VarDecl := { v with init := v.init.respell f }

mutual

def Stmt.respell (f : Spelling) : Stmt → Stmt
  | .absent => .absent
  | .block ss => .block (respellAll f ss)
  | .decl v => .decl (v.respell f)
  | .expr x => .expr (x.respell f)
  | .returns value => .returns (value.respell f)
  | .ifElse cond yes no => .ifElse (cond.respell f) (yes.respell f) (no.respell f)
  | .loop init cond post body =>
    .loop (init.respell f) (cond.respell f) (post.respell f) (body.respell f)
  | .discard => .discard
  | .breakLoop => .breakLoop
  | .continueLoop => .continueLoop

def Stmt.respellAll (f : Spelling) : List Stmt → List Stmt
  | [] => []
  | s :: ss => s.respell f :: respellAll f ss

end

def FuncDef.respell (f : Spelling) (g : FuncDef) : FuncDef :=
  { g with params := g.params.map (VarDecl.respell f), body := g.body.map (Stmt.respell f) }

def Decl.respell (f : Spelling) : Decl → Decl
  | .absent => .absent
  | .var v => .var (v.respell f)
  | .func g => .func (g.respell f)

def Shader.respell (f : Spelling) (s : Shader) : Shader :=
  { s with decls := s.decls.map (Decl.respell f) }

/-- The spelling that goes by what an identifier refers to. Where that is nothing known, there is
only the name. -/
def spellingOf (ofVariable : Variable → String) (ofInput : StageInput → String) : Spelling
  | _, .declared v => ofVariable v
  | _, .input i => ofInput i
  | name, .unresolved => name

variable {f : Spelling}

lemma Expr.respellAll_eq_map (es : List Expr) :
    Expr.respellAll f es = es.map (Expr.respell f) := by
  induction es with
  | nil => simp [Expr.respellAll]
  | cons e es ih => simp [Expr.respellAll, ih]

lemma Stmt.respellAll_eq_map (ss : List Stmt) :
    Stmt.respellAll f ss = ss.map (Stmt.respell f) := by
  induction ss with
  | nil => simp [Stmt.respellAll]
  | cons s ss ih => simp [Stmt.respellAll, ih]

@[simp] lemma Expr.isAbsent_respell (e : Expr) : (e.respell f).isAbsent = e.isAbsent := by
  cases e <;> simp [Expr.respell, Expr.isAbsent]

@[simp] lemma Stmt.isAbsent_respell (s : Stmt) : (s.respell f).isAbsent = s.isAbsent := by
  cases s <;> simp [Stmt.respell, Stmt.isAbsent]

@[simp] lemma VarDecl.var_respell (v : VarDecl) : (v.respell f).var = v.var := rfl

@[simp] lemma VarDecl.init_respell (v : VarDecl) : (v.respell f).init = v.init.respell f := rfl

mutual

/-- The variables that a statement declares, those of inner blocks included. -/
def Stmt.variables : Stmt → List Variable
  | .block ss => variablesOf ss
  | .decl v => [v.var]
  | .ifElse _ yes no => yes.variables ++ no.variables
  | .loop init _ _ body => init.variables ++ body.variables
  | _ => []

def Stmt.variablesOf : List Stmt → List Variable
  | [] => []
  | s :: ss => s.variables ++ variablesOf ss

end

lemma Stmt.variablesOf_eq_flatMap (ss : List Stmt) :
    Stmt.variablesOf ss = ss.flatMap Stmt.variables := by
  induction ss with
  | nil => simp [Stmt.variablesOf]
  | cons s ss ih => simp [Stmt.variablesOf, ih]

def FuncDef.variables (g : FuncDef) : List Variable :=
  g.params.map VarDecl.var ++ Stmt.variablesOf g.body

def Decl.variables : Decl → List Variable
  | .absent => []
  | .var v => [v.var]
  | .func g => g.variables

lemma Decl.mem_variables_of_param? {x : Decl} {p : Variable} (h : x.param? = some p) :
    p ∈ x.variables := by
  obtain ⟨v, rfl, -, rfl⟩ := Decl.param?_eq_some h
  exact List.mem_singleton.mpr rfl

/-- The expressions of a function, initial values of parameters included. -/
def FuncDef.exprs (g : FuncDef) : List Expr :=
  Expr.partsOf (g.params.map VarDecl.init) ++ Stmt.exprsOf g.body

def Decl.exprs : Decl → List Expr
  | .absent => []
  | .var v => v.init.parts
  | .func g => g.exprs

/-- The accumulator is the name of a parameter or the one that stands in for it. -/
lemma FuncDef.accumulator_mem (g : FuncDef) :
    g.accumulator = defaultAccumulator ∨ ∃ v ∈ g.variables, g.accumulator = v.name := by
  unfold FuncDef.accumulator
  split
  · rename_i p hp
    refine .inr ⟨p.var, ?_, rfl⟩
    exact List.mem_append_left _ (List.mem_map_of_mem (List.mem_of_find?_eq_some hp))
  · exact .inl rfl

end Shaderwright
