import Mathlib.Data.List.Basic
import Mathlib.Tactic.Common
import Shaderwright.Emit.NameTable
import Shaderwright.Proofs.Shader.Respelling

/-!
The same shader with other sizes of its arrays. Only what is declared gets another size; the
expressions stay as they are. With the sizes that a shader has it is the shader itself.
-/

namespace Shaderwright

abbrev Sizes := Variable → Int64

def Variable.resized (size : Sizes) (v : Variable) : Variable := { v with arraySize := size v }

def VarDecl.resized (size : Sizes) (v : VarDecl) : VarDecl := { v with var := v.var.resized size }

mutual

def Stmt.resized (size : Sizes) : Stmt → Stmt
  | .absent => .absent
  | .block ss => .block (resizedAll size ss)
  | .decl v => .decl (v.resized size)
  | .expr x => .expr x
  | .returns value => .returns value
  | .ifElse cond yes no => .ifElse cond (yes.resized size) (no.resized size)
  | .loop init cond post body => .loop (init.resized size) cond post (body.resized size)
  | .discard => .discard
  | .breakLoop => .breakLoop
  | .continueLoop => .continueLoop

def Stmt.resizedAll (size : Sizes) : List Stmt → List Stmt
  | [] => []
  | s :: ss => s.resized size :: resizedAll size ss

end

def FuncDef.resized (size : Sizes) (f : FuncDef) : FuncDef :=
  { f with params := f.params.map (VarDecl.resized size), body := Stmt.resizedAll size f.body }

def Decl.resized (size : Sizes) : Decl → Decl
  | .absent => .absent
  | .var v => .var (v.resized size)
  | .func f => .func (f.resized size)

def Shader.resized (size : Sizes) (s : Shader) : Shader :=
  { s with decls := s.decls.map (Decl.resized size) }

/-! ### What stays -/

variable {size : Sizes}

@[simp] lemma Stmt.isAbsent_resized (s : Stmt) : (s.resized size).isAbsent = s.isAbsent := by
  cases s <;> simp [Stmt.resized, Stmt.isAbsent]

lemma Stmt.resizedAll_eq_map (ss : List Stmt) :
    Stmt.resizedAll size ss = ss.map (Stmt.resized size) := by
  induction ss with
  | nil => rw [Stmt.resizedAll, List.map_nil]
  | cons s ss ih => rw [Stmt.resizedAll, ih, List.map_cons]

lemma Stmt.exprs_resized (s : Stmt) : (s.resized size).exprs = s.exprs := by
  induction s using Stmt.inductOn with
  | block ss ih =>
    rw [Stmt.resized, Stmt.exprs, Stmt.exprs, Stmt.resizedAll_eq_map, Stmt.exprsOf_eq_flatMap,
      Stmt.exprsOf_eq_flatMap, List.flatMap_map]
    exact List.flatMap_congr ih
  | ifElse cond yes no hyes hno => rw [Stmt.resized, Stmt.exprs, Stmt.exprs, hyes, hno]
  | loop init cond post body hinit hbody =>
    rw [Stmt.resized, Stmt.exprs, Stmt.exprs, hinit, hbody]
  | decl v => rw [Stmt.resized, Stmt.exprs, Stmt.exprs, VarDecl.resized]
  | _ => rw [Stmt.resized]

lemma Stmt.exprsOf_resizedAll (ss : List Stmt) :
    Stmt.exprsOf (Stmt.resizedAll size ss) = Stmt.exprsOf ss := by
  rw [Stmt.resizedAll_eq_map, Stmt.exprsOf_eq_flatMap, Stmt.exprsOf_eq_flatMap, List.flatMap_map]
  exact List.flatMap_congr fun s _ => s.exprs_resized

@[simp] lemma FuncDef.accumulator_resized (f : FuncDef) :
    (f.resized size).accumulator = f.accumulator := by
  have hfind : (f.params.map (VarDecl.resized size)).find? (fun p => p.var.out) =
      (f.params.find? fun p => p.var.out).map (VarDecl.resized size) := by
    rw [List.find?_map]
    rfl
  unfold FuncDef.accumulator FuncDef.resized
  dsimp only
  rw [hfind]
  cases f.params.find? fun p => p.var.out <;> rfl

lemma Decl.param?_resized (x : Decl) :
    (x.resized size).param? = x.param?.map (Variable.resized size) := by
  cases x with
  | var v =>
    show (if v.var.qualifier = .param then _ else none) =
      (if v.var.qualifier = .param then _ else none).map _
    split <;> rfl
  | _ => rfl

lemma Shader.params_resized (s : Shader) :
    (s.resized size).params = s.params.map (Variable.resized size) := by
  unfold Shader.params Shader.resized
  rw [List.filterMap_map, List.map_filterMap]
  congr 1
  funext x
  exact x.param?_resized

lemma Shader.func?_resized (s : Shader) (name : String) :
    (s.resized size).func? name = (s.func? name).map (FuncDef.resized size) := by
  unfold Shader.func? Shader.resized
  rw [List.findSome?_map, List.map_findSome?]
  congr 1
  funext x
  cases x with
  | func f =>
    show (if f.name = name then _ else none) = (if f.name = name then _ else none).map _
    split <;> rfl
  | _ => rfl

/-! ### The sizes that a shader has -/

lemma Stmt.resized_self (s : Stmt) : s.resized Variable.arraySize = s := by
  induction s using Stmt.inductOn with
  | block ss ih =>
    rw [Stmt.resized, Stmt.resizedAll_eq_map, List.map_congr_left ih, List.map_id']
  | ifElse cond yes no hyes hno => rw [Stmt.resized, hyes, hno]
  | loop init cond post body hinit hbody => rw [Stmt.resized, hinit, hbody]
  | _ => rw [Stmt.resized] <;> rfl

lemma Shader.resized_self (s : Shader) : s.resized Variable.arraySize = s := by
  have hdecl : ∀ x : Decl, x.resized Variable.arraySize = x := by
    intro x
    cases x with
    | func f =>
      show Decl.func { f with params := f.params.map id, body := _ } = _
      rw [List.map_id, Stmt.resizedAll_eq_map, List.map_congr_left fun s _ => s.resized_self,
        List.map_id']
    | _ => rfl
  have hdecls : s.decls.map (Decl.resized Variable.arraySize) = s.decls :=
    (List.map_congr_left fun x _ => hdecl x).trans (List.map_id _)
  rw [Shader.resized, hdecls]

/-! ### What has a size -/

/-- A variable as it is declared, under a type and a name of the target language. -/
structure Declarator where
  type : String
  name : String
  var : Variable
  deriving DecidableEq

def Variable.declarator (types names : NameTable) (v : Variable) : Declarator :=
  ⟨types.get v.type.name, names.get v.name, v⟩

def Declarator.ifArray (d : Declarator) : List Declarator := if d.var.isArray then [d] else []

/-- The array that is declared at the start of a loop, if any. -/
def Stmt.startArrays (types names : NameTable) : Stmt → List Declarator
  | .decl v => (v.var.declarator types names).ifArray
  | _ => []

mutual

/-- The arrays that a statement declares, under the types and names that the tables have for them. A
constant is a replacement text and shows no size, except at the start of a loop. -/
def Stmt.arrays (types names : NameTable) : Stmt → List Declarator
  | .block ss => arraysOf types names ss
  | .decl v => if v.var.qualifier = .const then [] else (v.var.declarator types names).ifArray
  | .ifElse _ yes no => yes.arrays types names ++ no.arrays types names
  | .loop init _ _ body => init.startArrays types names ++ body.arrays types names
  | _ => []

def Stmt.arraysOf (types names : NameTable) : List Stmt → List Declarator
  | [] => []
  | s :: ss => s.arrays types names ++ arraysOf types names ss

end

lemma Stmt.arraysOf_eq_flatMap (types names : NameTable) (ss : List Stmt) :
    Stmt.arraysOf types names ss = ss.flatMap (Stmt.arrays types names) := by
  induction ss with
  | nil => simp [Stmt.arraysOf]
  | cons s ss ih => simp [Stmt.arraysOf, ih]

end Shaderwright
