import Mathlib.Tactic.Common
import Shaderwright.Proofs.Shader.Parts
import Shaderwright.Shader.EntryPoint
import Shaderwright.Shader.Typing

/-!
A shader tree in which one variable has a new name: where it is declared, and in every identifier
that refers to it. Whatever else is called like the variable keeps its name.
-/

namespace Shaderwright

structure NewName where
  var : Variable
  name : String

def Variable.rename (r : NewName) (u : Variable) : Variable :=
  if u = r.var then { u with name := r.name } else u

def Ref.rename (r : NewName) : Ref → Ref
  | .declared u => .declared (u.rename r)
  | ref => ref

def NewName.spell (r : NewName) (name : String) (ref : Ref) : String :=
  if ref = .declared r.var then r.name else name

mutual

def Expr.rename (r : NewName) : Expr → Expr
  | .absent => .absent
  | .ident name ref => .ident (r.spell name ref) (ref.rename r)
  | .literal text kind => .literal text kind
  | .call callee args => .call callee (renameAll r args)
  | .binary op x y => .binary op (x.rename r) (y.rename r)
  | .unary op x => .unary op (x.rename r)
  | .assign op lhs rhs => .assign op (lhs.rename r) (rhs.rename r)
  | .member x field => .member (x.rename r) field
  | .index x i => .index (x.rename r) (i.rename r)

def Expr.renameAll (r : NewName) : List Expr → List Expr
  | [] => []
  | e :: es => e.rename r :: renameAll r es

end

def VarDecl.rename (r : NewName) (d : VarDecl) : VarDecl := ⟨d.var.rename r, d.init.rename r⟩

mutual

def Stmt.rename (r : NewName) : Stmt → Stmt
  | .absent => .absent
  | .block ss => .block (renameAll r ss)
  | .decl d => .decl (d.rename r)
  | .expr x => .expr (x.rename r)
  | .returns value => .returns (value.rename r)
  | .ifElse cond yes no => .ifElse (cond.rename r) (yes.rename r) (no.rename r)
  | .loop init cond post body =>
    .loop (init.rename r) (cond.rename r) (post.rename r) (body.rename r)
  | .discard => .discard
  | .breakLoop => .breakLoop
  | .continueLoop => .continueLoop

def Stmt.renameAll (r : NewName) : List Stmt → List Stmt
  | [] => []
  | s :: ss => s.rename r :: renameAll r ss

end

def FuncDef.rename (r : NewName) (g : FuncDef) : FuncDef :=
  { g with params := g.params.map (VarDecl.rename r), body := g.body.map (Stmt.rename r) }

def Decl.rename (r : NewName) : Decl → Decl
  | .absent => .absent
  | .var d => .var (d.rename r)
  | .func g => .func (g.rename r)

def Shader.rename (r : NewName) (s : Shader) : Shader :=
  { s with decls := s.decls.map (Decl.rename r) }

/-! ### What stays -/

variable {r : NewName}

lemma Variable.rename_of_ne {u : Variable} (h : u ≠ r.var) : u.rename r = u := if_neg h

lemma Variable.rename_self (r : NewName) : r.var.rename r = { r.var with name := r.name } :=
  if_pos rfl

@[simp] lemma Variable.type_rename (u : Variable) : (u.rename r).type = u.type := by
  unfold Variable.rename
  split <;> rfl

@[simp] lemma Variable.qualifier_rename (u : Variable) :
    (u.rename r).qualifier = u.qualifier := by
  unfold Variable.rename
  split <;> rfl

@[simp] lemma Variable.isArray_rename (u : Variable) : (u.rename r).isArray = u.isArray := by
  unfold Variable.rename
  split <;> rfl

@[simp] lemma Variable.extent_rename (u : Variable) : (u.rename r).extent = u.extent := by
  unfold Variable.rename
  split <;> rfl

@[simp] lemma Variable.out_rename (u : Variable) : (u.rename r).out = u.out := by
  unfold Variable.rename
  split <;> rfl

lemma Expr.renameAll_eq_map (es : List Expr) :
    Expr.renameAll r es = es.map (Expr.rename r) := by
  induction es with
  | nil => simp [Expr.renameAll]
  | cons e es ih => simp [Expr.renameAll, ih]

lemma Stmt.renameAll_eq_map (ss : List Stmt) :
    Stmt.renameAll r ss = ss.map (Stmt.rename r) := by
  induction ss with
  | nil => simp [Stmt.renameAll]
  | cons s ss ih => simp [Stmt.renameAll, ih]

@[simp] lemma Expr.isAbsent_rename (e : Expr) : (e.rename r).isAbsent = e.isAbsent := by
  cases e <;> simp [Expr.rename, Expr.isAbsent]

@[simp] lemma Stmt.isAbsent_rename (s : Stmt) : (s.rename r).isAbsent = s.isAbsent := by
  cases s <;> simp [Stmt.rename, Stmt.isAbsent]

@[simp] lemma Ref.type?_rename (ref : Ref) : (ref.rename r).type? = ref.type? := by
  cases ref <;> simp [Ref.rename, Ref.type?]

@[simp] lemma Ref.isArray_rename (ref : Ref) : (ref.rename r).isArray = ref.isArray := by
  cases ref <;> simp [Ref.rename, Ref.isArray]

@[simp] lemma Expr.type?_rename (e : Expr) : (e.rename r).type? = e.type? := by
  induction e using Expr.inductOn with
  | index x i hx hi => cases x <;> simp_all [Expr.rename, Expr.type?]
  | _ => simp_all [Expr.rename, Expr.type?]

/-- No identifier turns into a stage input or stops being one. -/
@[simp] lemma isStageInput_rename (name : String) (ref : Ref) :
    isStageInput (r.spell name ref) (ref.rename r) = isStageInput name ref := by
  cases ref <;> simp [Ref.rename, NewName.spell, isStageInput]

section FuncDef

variable {g : FuncDef}

lemma FuncDef.vars_rename (h : ∀ p ∈ g.params, p.var ≠ r.var) :
    (g.rename r).params.map VarDecl.var = g.params.map VarDecl.var := by
  unfold FuncDef.rename
  rw [List.map_map]
  exact List.map_congr_left fun p hp => Variable.rename_of_ne (h p hp)

lemma FuncDef.accumulator_rename (h : ∀ p ∈ g.params, p.var ≠ r.var) :
    (g.rename r).accumulator = g.accumulator := by
  -- the accumulator depends on the variables only
  have hvars : ∀ g : FuncDef, g.accumulator =
      (((g.params.map VarDecl.var).find? Variable.out).map Variable.name).getD
        defaultAccumulator := by
    intro g
    unfold FuncDef.accumulator
    rw [List.find?_map, Option.map_map]
    show _ = ((g.params.find? fun p => p.var.out).map _).getD _
    cases g.params.find? fun p => p.var.out <;> rfl
  rw [hvars, hvars, FuncDef.vars_rename h]

lemma FuncDef.entryFault?_rename (h : ∀ p ∈ g.params, p.var ≠ r.var) :
    (g.rename r).entryFault? = g.entryFault? := by
  obtain ⟨name, returns, params, body⟩ := g
  unfold FuncDef.entryFault? FuncDef.rename
  match params with
  | [] => rfl
  | [p] => simp [VarDecl.rename, Variable.rename_of_ne (h p List.mem_cons_self)]
  | p :: q :: ps => simp

end FuncDef

lemma Shader.func?_rename (s : Shader) (name : String) :
    (s.rename r).func? name = (s.func? name).map (FuncDef.rename r) := by
  unfold Shader.func? Shader.rename
  rw [List.findSome?_map, List.map_findSome?]
  congr 1
  funext x
  cases x with
  | func g => by_cases hname : g.name = name <;> simp [Decl.rename, FuncDef.rename, hname]
  | _ => simp [Decl.rename]

end Shaderwright
