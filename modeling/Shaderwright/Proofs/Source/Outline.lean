import Shaderwright.Proofs.Source.Elaboration

/-!
The outline of a shader tree and of a shader file: what the nodes say one by one, the outer ones
first. The outline of a file has all kinds that a statement or an expression sets, although only
the first one is read; so the tree that comes out of a file has the outline of the file in which
the other kinds are left out.
-/

namespace Shaderwright

/-- What a node of a tree says by itself, without the nodes below it. -/
inductive Mark where
  | absent
  | ident (name : String)
  | literal (text : String)
  | call (callee : String) (args : Nat)
  | binary (op : String)
  | unary (op : String)
  | assign (op : String)
  | member (field : String)
  | index
  | var (v : Variable)
  | discard
  | breakLoop
  | continueLoop
  | block (stmts : Nat)
  | decl
  | expr
  | returns
  | ifElse
  | loop
  | func (name : String) (returns : ShaderType) (params body : Nat)
  | shader (name : String) (decls : Nat)
  deriving DecidableEq, Repr

/-! ### The outline of a tree -/

def Expr.mark : Expr → Mark
  | .absent => .absent
  | .ident name _ => .ident name
  | .literal text _ => .literal text
  | .call callee args => .call callee args.length
  | .binary op _ _ => .binary op
  | .unary op _ => .unary op
  | .assign op _ _ => .assign op
  | .member _ field => .member field
  | .index _ _ => .index

/-- What the nodes of an expression say, the outer ones first. -/
def Expr.outline (e : Expr) : List Mark := e.parts.map Expr.mark

lemma Expr.outline_eq_cons (e : Expr) :
    e.outline = e.mark :: e.inner.flatMap Expr.outline := by
  rw [outline, parts_eq_cons, List.map_cons, List.map_flatMap]
  rfl

/-- The number of a variable is no part of what its declaration says. -/
def VarDecl.outline (d : VarDecl) : List Mark := .var { d.var with id := 0 } :: d.init.outline

mutual

def Stmt.outline : Stmt → List Mark
  | .absent => [.absent]
  | .block ss => .block ss.length :: outlineOf ss
  | .decl d => .decl :: d.outline
  | .expr x => .expr :: x.outline
  | .returns value => .returns :: value.outline
  | .ifElse cond yes no => .ifElse :: (cond.outline ++ (yes.outline ++ no.outline))
  | .loop init cond post body =>
    .loop :: (init.outline ++ (cond.outline ++ (post.outline ++ body.outline)))
  | .discard => [.discard]
  | .breakLoop => [.breakLoop]
  | .continueLoop => [.continueLoop]

def Stmt.outlineOf : List Stmt → List Mark
  | [] => []
  | s :: ss => s.outline ++ outlineOf ss

end

def FuncDef.outline (g : FuncDef) : List Mark :=
  .func g.name g.returns g.params.length g.body.length ::
    (g.params.flatMap VarDecl.outline ++ Stmt.outlineOf g.body)

def Decl.outline : Decl → List Mark
  | .absent => [.absent]
  | .var d => d.outline
  | .func g => g.outline

def Shader.outline (s : Shader) : List Mark :=
  .shader s.name s.decls.length :: s.decls.flatMap Decl.outline

namespace Source

/-! ### The outline of a file -/

def scalarMarks : Yaml.Scalar → List Mark
  | .null => []
  | .bool b => [.literal (if b then "true" else "false")]
  | .int n => [.literal (toString n)]
  | .float x => [.literal (floatText x)]
  | .string s => [.ident s]

mutual

def ExprForm.outline : ExprForm → List Mark
  | .scalar s => scalarMarks s
  | .list _ => []
  | .kinds ks => ExprForm.outlineOfKinds ks

def ExprKind.outline : ExprKind → List Mark
  | .lit text => [.literal text]
  | .call callee as => .call callee as.length :: ExprForm.outlineOf as
  | .binary op x y => .binary op :: (ExprForm.outlineOfPart x ++ ExprForm.outlineOfPart y)
  | .unary op x => .unary op :: ExprForm.outlineOfPart x
  | .assign op lhs rhs =>
    .assign (if op = "" then "=" else op) ::
      (ExprForm.outlineOfPart lhs ++ ExprForm.outlineOfPart rhs)
  | .member x field => .member field :: ExprForm.outlineOfPart x
  | .index x i => .index :: (ExprForm.outlineOfPart x ++ ExprForm.outlineOfPart i)

def ExprForm.outlineOfKinds : List ExprKind → List Mark
  | [] => []
  | k :: ks => k.outline ++ ExprForm.outlineOfKinds ks

def ExprForm.outlineOfPart : Option ExprForm → List Mark
  | none => [.absent]
  | some e => e.outline

def ExprForm.outlineOf : List ExprForm → List Mark
  | [] => []
  | e :: es => e.outline ++ ExprForm.outlineOf es

end

/-- The variable that a form describes, up to its number. -/
def VarForm.described (f : VarForm) : Variable where
  id := 0
  name := f.name
  type := (ShaderType.parse? f.type).getD default
  qualifier := (Qualifier.parse? f.qualifier).getD default
  precision := (Precision.parse? f.precision).getD default
  slot := Int64.ofInt f.slot
  isArray := 0 < f.array
  arraySize := Int64.ofInt f.array
  out := f.out

def VarForm.outline (f : VarForm) : List Mark :=
  .var f.described :: ExprForm.outlineOfPart f.init

def wordMarks : String → List Mark
  | "discard" => [.discard]
  | "break" => [.breakLoop]
  | "continue" => [.continueLoop]
  | "return" => [.returns, .absent]
  | _ => []

mutual

def StmtForm.outline : StmtForm → List Mark
  | .word text => wordMarks text
  | .kinds ks => StmtForm.outlineOfKinds ks

def StmtKind.outline : StmtKind → List Mark
  | .block ss => .block ss.length :: StmtForm.outlineOf ss
  | .var f => .decl :: f.outline
  | .expr e => .expr :: e.outline
  | .returns e => .returns :: e.outline
  | .ifElse cond yes no =>
    .ifElse :: (ExprForm.outlineOfPart cond ++
      (.block yes.length :: StmtForm.outlineOf yes ++ StmtForm.outlineOfBranch no))
  | .loop init cond post body =>
    .loop :: (StmtForm.outlineOfPart init ++ (ExprForm.outlineOfPart cond ++
      (ExprForm.outlineOfPart post ++ .block body.length :: StmtForm.outlineOf body)))

def StmtForm.outlineOfKinds : List StmtKind → List Mark
  | [] => []
  | k :: ks => k.outline ++ StmtForm.outlineOfKinds ks

def StmtForm.outlineOfBranch : Option (List StmtForm) → List Mark
  | none => [.absent]
  | some ss => .block ss.length :: StmtForm.outlineOf ss

def StmtForm.outlineOfPart : Option StmtForm → List Mark
  | none => [.absent]
  | some s => s.outline

def StmtForm.outlineOf : List StmtForm → List Mark
  | [] => []
  | s :: ss => s.outline ++ StmtForm.outlineOf ss

end

def FuncForm.outline (f : FuncForm) : List Mark :=
  .func f.name ((ShaderType.parse? f.returns).getD default) f.params.length f.body.length ::
    (f.params.flatMap VarForm.outline ++ StmtForm.outlineOf f.body)

def DeclForm.outline (d : DeclForm) : List Mark :=
  d.var.elim [] VarForm.outline ++ d.func.elim [] FuncForm.outline

def ShaderForm.outline (f : ShaderForm) : List Mark :=
  .shader f.name f.decls.length :: f.decls.flatMap DeclForm.outline

/-! ### The file with its first kinds -/

mutual

def ExprForm.pruned : ExprForm → ExprForm
  | .scalar s => .scalar s
  | .list shown => .list shown
  | .kinds [] => .kinds []
  | .kinds (k :: _) => .kinds [k.pruned]

def ExprKind.pruned : ExprKind → ExprKind
  | .lit text => .lit text
  | .call callee as => .call callee (ExprForm.prunedAll as)
  | .binary op x y => .binary op (ExprForm.prunedPart x) (ExprForm.prunedPart y)
  | .unary op x => .unary op (ExprForm.prunedPart x)
  | .assign op lhs rhs => .assign op (ExprForm.prunedPart lhs) (ExprForm.prunedPart rhs)
  | .member x field => .member (ExprForm.prunedPart x) field
  | .index x i => .index (ExprForm.prunedPart x) (ExprForm.prunedPart i)

def ExprForm.prunedPart : Option ExprForm → Option ExprForm
  | none => none
  | some e => some e.pruned

def ExprForm.prunedAll : List ExprForm → List ExprForm
  | [] => []
  | e :: es => e.pruned :: ExprForm.prunedAll es

end

def VarForm.pruned (f : VarForm) : VarForm := { f with init := ExprForm.prunedPart f.init }

mutual

def StmtForm.pruned : StmtForm → StmtForm
  | .word text => .word text
  | .kinds [] => .kinds []
  | .kinds (k :: _) => .kinds [k.pruned]

def StmtKind.pruned : StmtKind → StmtKind
  | .block ss => .block (StmtForm.prunedAll ss)
  | .var f => .var f.pruned
  | .expr e => .expr e.pruned
  | .returns e => .returns e.pruned
  | .ifElse cond yes no =>
    .ifElse (ExprForm.prunedPart cond) (StmtForm.prunedAll yes) (StmtForm.prunedBranch no)
  | .loop init cond post body =>
    .loop (StmtForm.prunedPart init) (ExprForm.prunedPart cond) (ExprForm.prunedPart post)
      (StmtForm.prunedAll body)

def StmtForm.prunedBranch : Option (List StmtForm) → Option (List StmtForm)
  | none => none
  | some ss => some (StmtForm.prunedAll ss)

def StmtForm.prunedPart : Option StmtForm → Option StmtForm
  | none => none
  | some s => some s.pruned

def StmtForm.prunedAll : List StmtForm → List StmtForm
  | [] => []
  | s :: ss => s.pruned :: StmtForm.prunedAll ss

end

def FuncForm.pruned (f : FuncForm) : FuncForm :=
  { f with params := f.params.map VarForm.pruned, body := StmtForm.prunedAll f.body }

def DeclForm.pruned (d : DeclForm) : DeclForm :=
  ⟨d.var.map VarForm.pruned, d.func.map FuncForm.pruned⟩

/-- The file in which every statement and every expression keeps only its first kind. -/
def ShaderForm.pruned (f : ShaderForm) : ShaderForm :=
  { f with decls := f.decls.map DeclForm.pruned }

/-! ### The tree says what the first kinds say -/

lemma outline_scalarExpr {scope : Scope} {s : Yaml.Scalar} {e : Expr}
    (h : scalarExpr scope s = .ok e) : e.outline = scalarMarks s := by
  cases s with
  | null => cases h
  | string text =>
    simp only [scalarExpr] at h
    split_ifs at h
    · cases h
    · cases h
      rw [Expr.outline_eq_cons]
      rfl
  | _ =>
    cases h
    rw [Expr.outline_eq_cons]
    rfl

lemma outline_literalOf (text : String) : (literalOf text).outline = [.literal text] := by
  unfold literalOf
  split_ifs <;> exact Expr.outline_eq_cons _

mutual

lemma outline_expr {scope : Scope} : ∀ {form : ExprForm} {e : Expr},
    expr scope form = .ok e → e.outline = form.pruned.outline
  | .scalar s, e, h => by
    rw [ExprForm.pruned, ExprForm.outline]
    exact outline_scalarExpr (by rwa [expr] at h)
  | .list shown, e, h => by rw [expr] at h; cases h
  | .kinds [], e, h => by rw [expr] at h; cases h
  | .kinds (k :: ks), e, h => by
    rw [ExprForm.pruned, ExprForm.outline, ExprForm.outlineOfKinds, ExprForm.outlineOfKinds,
      List.append_nil]
    exact outline_exprKind (by rwa [expr] at h)

lemma outline_exprKind {scope : Scope} : ∀ {kind : ExprKind} {e : Expr},
    exprKind scope kind = .ok e → e.outline = kind.pruned.outline
  | .lit text, e, h => by
    rw [exprKind] at h
    cases h
    rw [ExprKind.pruned, ExprKind.outline, outline_literalOf]
  | .call callee as, e, h => by
    rw [exprKind] at h
    split_ifs at h
    · cases h
    · obtain ⟨es, hes, h⟩ := Resolve.bind_eq_ok.mp h
      cases h
      obtain ⟨hlength, houtline⟩ := outline_args hes
      rw [ExprKind.pruned, ExprKind.outline, ← hlength, ← houtline]
      exact Expr.outline_eq_cons _
  | .binary op x y, e, h => by
    rw [exprKind] at h
    obtain ⟨x', hx, h⟩ := Resolve.bind_eq_ok.mp h
    obtain ⟨y', hy, h⟩ := Resolve.bind_eq_ok.mp h
    cases h
    rw [ExprKind.pruned, ExprKind.outline, ← outline_operand hx, ← outline_operand hy,
      Expr.outline_eq_cons]
    simp [Expr.inner, Expr.mark]
  | .unary op x, e, h => by
    rw [exprKind] at h
    obtain ⟨x', hx, h⟩ := Resolve.bind_eq_ok.mp h
    cases h
    rw [ExprKind.pruned, ExprKind.outline, ← outline_operand hx, Expr.outline_eq_cons]
    simp [Expr.inner, Expr.mark]
  | .assign op lhs rhs, e, h => by
    rw [exprKind] at h
    obtain ⟨l, hl, h⟩ := Resolve.bind_eq_ok.mp h
    obtain ⟨r, hr, h⟩ := Resolve.bind_eq_ok.mp h
    cases h
    rw [ExprKind.pruned, ExprKind.outline, ← outline_operand hl, ← outline_operand hr,
      Expr.outline_eq_cons]
    simp [Expr.inner, Expr.mark]
  | .member x field, e, h => by
    rw [exprKind] at h
    obtain ⟨x', hx, h⟩ := Resolve.bind_eq_ok.mp h
    cases h
    rw [ExprKind.pruned, ExprKind.outline, ← outline_operand hx, Expr.outline_eq_cons]
    simp [Expr.inner, Expr.mark]
  | .index x i, e, h => by
    rw [exprKind] at h
    obtain ⟨x', hx, h⟩ := Resolve.bind_eq_ok.mp h
    obtain ⟨i', hi, h⟩ := Resolve.bind_eq_ok.mp h
    cases h
    rw [ExprKind.pruned, ExprKind.outline, ← outline_operand hx, ← outline_operand hi,
      Expr.outline_eq_cons]
    simp [Expr.inner, Expr.mark]

lemma outline_operand {scope : Scope} : ∀ {form : Option ExprForm} {e : Expr},
    operand scope form = .ok e → e.outline = ExprForm.outlineOfPart (ExprForm.prunedPart form)
  | none, e, h => by rw [operand] at h; cases h
  | some form, e, h => by
    rw [ExprForm.prunedPart, ExprForm.outlineOfPart]
    exact outline_expr (by rwa [operand] at h)

lemma outline_args {scope : Scope} {callee : String} : ∀ {i : Nat} {forms : List ExprForm}
    {es : List Expr}, args scope callee i forms = .ok es →
      es.length = (ExprForm.prunedAll forms).length ∧
        es.flatMap Expr.outline = ExprForm.outlineOf (ExprForm.prunedAll forms)
  | _, [], es, h => by
    rw [args] at h
    cases h
    rw [ExprForm.prunedAll, ExprForm.outlineOf]
    exact ⟨rfl, rfl⟩
  | i, form :: forms, es, h => by
    rw [args] at h
    obtain ⟨e, he, h⟩ := Resolve.bind_eq_ok.mp h
    obtain ⟨es', hes, h⟩ := Resolve.bind_eq_ok.mp h
    cases h
    obtain ⟨hlength, houtline⟩ := outline_args hes
    rw [ExprForm.prunedAll, ExprForm.outlineOf, ← houtline,
      ← outline_expr (Resolve.within_eq_ok.mp he)]
    exact ⟨by simp [hlength], rfl⟩

end

lemma outline_part {scope : Scope} {step : Step} {form : Option ExprForm} {e : Expr}
    (h : optionalExpr scope step form = .ok e) :
    e.outline = ExprForm.outlineOfPart (ExprForm.prunedPart form) := by
  cases form with
  | none =>
    cases h
    rw [ExprForm.prunedPart, ExprForm.outlineOfPart]
    exact Expr.outline_eq_cons _
  | some form =>
    rw [ExprForm.prunedPart, ExprForm.outlineOfPart]
    exact outline_expr (Resolve.within_eq_ok.mp h)

lemma outline_variableBody {c : Context} {f : VarForm} {d : VarDecl}
    (h : variableBody c f = .ok d) : d.outline = f.pruned.outline := by
  unfold variableBody at h
  -- every check but the last one is a match on what a word means
  split at h
  swap
  · cases h
  rename_i type htype
  split at h
  swap
  · cases h
  rename_i qualifier hqualifier
  split at h
  swap
  · cases h
  rename_i precision hprecision
  dsimp only at h
  split_ifs at h
  · cases h
  have houtline (init : Expr)
      (hinit : init.outline = ExprForm.outlineOfPart (ExprForm.prunedPart f.init)) :
      VarDecl.outline ⟨{ f.described with id := c.declared }, init⟩ = f.pruned.outline := by
    rw [VarDecl.outline, hinit]
    rfl
  simp only [VarForm.described, htype, hqualifier, hprecision, Option.getD_some] at houtline
  split at h
  next hform =>
    cases h
    refine houtline _ ?_
    rw [hform, ExprForm.prunedPart, ExprForm.outlineOfPart]
    exact Expr.outline_eq_cons _
  next form hform =>
    obtain ⟨init, hinit, h⟩ := Resolve.bind_eq_ok.mp h
    cases h
    refine houtline _ ?_
    rw [hform, ExprForm.prunedPart, ExprForm.outlineOfPart]
    exact outline_expr hinit

lemma outline_variableDecl {c c' : Context} {f : VarForm} {d : VarDecl}
    (h : variableDecl c f = .ok (d, c')) : d.outline = f.pruned.outline := by
  unfold variableDecl at h
  split_ifs at h with hname
  · cases h
  · obtain ⟨d', hd, h⟩ := Resolve.bind_eq_ok.mp h
    cases h
    exact outline_variableBody (Resolve.within_eq_ok.mp hd)

lemma outline_params {c c' : Context} {forms : List VarForm} {ps : List VarDecl}
    (h : params c forms = .ok (ps, c')) :
    ps.length = forms.length ∧
      ps.flatMap VarDecl.outline = (forms.map VarForm.pruned).flatMap VarForm.outline := by
  induction forms generalizing c ps with
  | nil =>
    cases h
    exact ⟨rfl, rfl⟩
  | cons f forms ih =>
    unfold params at h
    obtain ⟨⟨p, d⟩, hp, h⟩ := Resolve.bind_eq_ok.mp h
    obtain ⟨⟨ps', e⟩, hps, h⟩ := Resolve.bind_eq_ok.mp h
    cases h
    obtain ⟨hlength, houtline⟩ := ih hps
    rw [List.map_cons, List.flatMap_cons, List.flatMap_cons, outline_variableDecl hp, houtline]
    exact ⟨by simp [hlength], rfl⟩

lemma outline_wordStmt {word : String} {s : Stmt} (h : wordStmt word = .ok s) :
    s.outline = wordMarks word := by
  unfold wordStmt at h
  split at h <;> cases h
  · rw [Stmt.outline]; rfl
  · rw [Stmt.outline]; rfl
  · rw [Stmt.outline]; rfl
  · rw [Stmt.outline, Expr.outline_eq_cons]; rfl

mutual

lemma outline_stmt : ∀ {c c' : Context} {form : StmtForm} {s : Stmt},
    stmt c form = .ok (s, c') → s.outline = form.pruned.outline
  | c, c', .word text, s, h => by
    rw [stmt] at h
    obtain ⟨s', hs, h⟩ := Resolve.bind_eq_ok.mp h
    cases h
    rw [StmtForm.pruned, StmtForm.outline]
    exact outline_wordStmt hs
  | c, c', .kinds [], s, h => by rw [stmt] at h; cases h
  | c, c', .kinds (k :: ks), s, h => by
    rw [StmtForm.pruned, StmtForm.outline, StmtForm.outlineOfKinds, StmtForm.outlineOfKinds,
      List.append_nil]
    exact outline_stmtKind (by rwa [stmt] at h)

lemma outline_stmtKind : ∀ {c c' : Context} {kind : StmtKind} {s : Stmt},
    stmtKind c kind = .ok (s, c') → s.outline = kind.pruned.outline
  | c, c', .block forms, s, h => by
    rw [stmtKind] at h
    obtain ⟨⟨ss, d⟩, hss, h⟩ := Resolve.bind_eq_ok.mp h
    cases h
    obtain ⟨hlength, houtline⟩ := outline_stmts hss
    rw [StmtKind.pruned, StmtKind.outline, Stmt.outline, hlength, houtline]
  | c, c', .var f, s, h => by
    rw [stmtKind] at h
    obtain ⟨⟨d, e⟩, hd, h⟩ := Resolve.bind_eq_ok.mp h
    cases h
    rw [StmtKind.pruned, StmtKind.outline, Stmt.outline, outline_variableDecl hd]
  | c, c', .expr form, s, h => by
    rw [stmtKind] at h
    obtain ⟨x, hx, h⟩ := Resolve.bind_eq_ok.mp h
    cases h
    rw [StmtKind.pruned, StmtKind.outline, Stmt.outline, outline_expr hx]
  | c, c', .returns form, s, h => by
    rw [stmtKind] at h
    obtain ⟨x, hx, h⟩ := Resolve.bind_eq_ok.mp h
    cases h
    rw [StmtKind.pruned, StmtKind.outline, Stmt.outline, outline_expr hx]
  | c, c', .ifElse none _ _, s, h => by rw [stmtKind] at h; cases h
  | c, c', .ifElse (some cond) yes no, s, h => by
    rw [stmtKind] at h
    obtain ⟨x, hx, h⟩ := Resolve.bind_eq_ok.mp h
    obtain ⟨⟨ys, d⟩, hys, h⟩ := Resolve.bind_eq_ok.mp h
    obtain ⟨⟨n, e⟩, hn, h⟩ := Resolve.bind_eq_ok.mp h
    cases h
    obtain ⟨hlength, houtline⟩ := outline_stmts (Resolve.within_eq_ok.mp hys)
    rw [StmtKind.pruned, StmtKind.outline, ExprForm.prunedPart, ExprForm.outlineOfPart,
      Stmt.outline, Stmt.outline, outline_expr hx, outline_elseBranch hn, hlength, houtline]
  | c, c', .loop init cond post body, s, h => by
    rw [stmtKind] at h
    obtain ⟨⟨i, d⟩, hi, h⟩ := Resolve.bind_eq_ok.mp h
    obtain ⟨x, hx, h⟩ := Resolve.bind_eq_ok.mp h
    obtain ⟨y, hy, h⟩ := Resolve.bind_eq_ok.mp h
    obtain ⟨⟨bs, e⟩, hbs, h⟩ := Resolve.bind_eq_ok.mp h
    cases h
    obtain ⟨hlength, houtline⟩ := outline_stmts (Resolve.within_eq_ok.mp hbs)
    rw [StmtKind.pruned, StmtKind.outline, Stmt.outline, Stmt.outline, outline_loopInit hi,
      outline_part hx, outline_part hy, hlength, houtline]

lemma outline_elseBranch : ∀ {c c' : Context} {forms : Option (List StmtForm)} {s : Stmt},
    elseBranch c forms = .ok (s, c') →
      s.outline = StmtForm.outlineOfBranch (StmtForm.prunedBranch forms)
  | c, c', none, s, h => by
    rw [elseBranch] at h
    cases h
    rw [StmtForm.prunedBranch, StmtForm.outlineOfBranch, Stmt.outline]
  | c, c', some forms, s, h => by
    rw [elseBranch] at h
    obtain ⟨⟨ss, d⟩, hss, h⟩ := Resolve.bind_eq_ok.mp h
    cases h
    obtain ⟨hlength, houtline⟩ := outline_stmts (Resolve.within_eq_ok.mp hss)
    rw [StmtForm.prunedBranch, StmtForm.outlineOfBranch, Stmt.outline, hlength, houtline]

lemma outline_loopInit : ∀ {c c' : Context} {form : Option StmtForm} {s : Stmt},
    loopInit c form = .ok (s, c') → s.outline = StmtForm.outlineOfPart (StmtForm.prunedPart form)
  | c, c', none, s, h => by
    rw [loopInit] at h
    cases h
    rw [StmtForm.prunedPart, StmtForm.outlineOfPart, Stmt.outline]
  | c, c', some form, s, h => by
    rw [loopInit] at h
    rw [StmtForm.prunedPart, StmtForm.outlineOfPart]
    exact outline_stmt (Resolve.within_eq_ok.mp h)

lemma outline_stmts : ∀ {c c' : Context} {i : Nat} {forms : List StmtForm} {ss : List Stmt},
    stmts c i forms = .ok (ss, c') →
      ss.length = (StmtForm.prunedAll forms).length ∧
        Stmt.outlineOf ss = StmtForm.outlineOf (StmtForm.prunedAll forms)
  | c, c', i, [], ss, h => by
    rw [stmts] at h
    cases h
    rw [StmtForm.prunedAll, StmtForm.outlineOf, Stmt.outlineOf]
    exact ⟨rfl, rfl⟩
  | c, c', i, form :: forms, ss, h => by
    rw [stmts] at h
    obtain ⟨⟨s, d⟩, hs, h⟩ := Resolve.bind_eq_ok.mp h
    obtain ⟨⟨ss', e⟩, hss, h⟩ := Resolve.bind_eq_ok.mp h
    cases h
    obtain ⟨hlength, houtline⟩ := outline_stmts hss
    rw [StmtForm.prunedAll, StmtForm.outlineOf, Stmt.outlineOf, houtline,
      outline_stmt (Resolve.within_eq_ok.mp hs)]
    exact ⟨by simp [hlength], rfl⟩

end

lemma outline_function {c c' : Context} {form : FuncForm} {g : FuncDef}
    (h : function c form = .ok (g, c')) : g.outline = form.pruned.outline := by
  replace h := Resolve.within_eq_ok.mp h
  split at h
  swap
  · cases h
  rename_i returns hreturns
  obtain ⟨⟨ps, d⟩, hps, h⟩ := Resolve.bind_eq_ok.mp h
  obtain ⟨⟨body, e⟩, hbody, h⟩ := Resolve.bind_eq_ok.mp h
  cases h
  obtain ⟨hparams, houtlineParams⟩ := outline_params hps
  obtain ⟨hlength, houtline⟩ := outline_stmts hbody
  simp [FuncForm.outline, FuncForm.pruned, FuncDef.outline, hreturns, hparams, hlength,
    houtlineParams, houtline]

lemma outline_decl {c c' : Context} {form : DeclForm} {x : Decl}
    (h : decl c form = .ok (x, c')) : x.outline = form.pruned.outline := by
  obtain ⟨var, func⟩ := form
  unfold decl at h
  split at h
  next v hvar hfunc =>
    obtain ⟨⟨d, e⟩, hd, h⟩ := Resolve.bind_eq_ok.mp h
    cases h
    simp_all [DeclForm.outline, DeclForm.pruned, Decl.outline, outline_variableDecl hd]
  next f hvar hfunc =>
    obtain ⟨⟨g, d⟩, hg, h⟩ := Resolve.bind_eq_ok.mp h
    cases h
    simp_all [DeclForm.outline, DeclForm.pruned, Decl.outline, outline_function hg]
  next => cases h

lemma outline_decls {c : Context} {i : Nat} {forms : List DeclForm} {ds : List Decl}
    (h : decls c i forms = .ok ds) :
    ds.length = forms.length ∧
      ds.flatMap Decl.outline = (forms.map DeclForm.pruned).flatMap DeclForm.outline := by
  induction forms generalizing c i ds with
  | nil =>
    cases h
    exact ⟨rfl, rfl⟩
  | cons form forms ih =>
    unfold decls at h
    obtain ⟨⟨d, e⟩, hd, h⟩ := Resolve.bind_eq_ok.mp h
    obtain ⟨ds', hds, h⟩ := Resolve.bind_eq_ok.mp h
    cases h
    obtain ⟨hlength, houtline⟩ := ih hds
    rw [List.map_cons, List.flatMap_cons, List.flatMap_cons,
      outline_decl (Resolve.within_eq_ok.mp hd), houtline]
    exact ⟨by simp [hlength], rfl⟩

lemma outline_shader {f : ShaderForm} {s : Shader} (h : shader f = .ok s) :
    s.outline = f.pruned.outline := by
  obtain ⟨ds, hds, h⟩ := Resolve.bind_eq_ok.mp h
  cases h
  obtain ⟨hlength, houtline⟩ := outline_decls hds
  simp [Shader.outline, ShaderForm.outline, ShaderForm.pruned, hlength, houtline]

end Source

end Shaderwright
