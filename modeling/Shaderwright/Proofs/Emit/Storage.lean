import Mathlib.Tactic.Common
import Shaderwright.Proofs.Emit.Acceptance
import Shaderwright.Proofs.Shader.Complete
import Shaderwright.Proofs.Shader.Respelling

/-!
The storage of variables. A function that declares no parameter of the shader is written without
any word for their storage, and without anything that a language writes for the variables outside
of its functions: the text stays the same if the language has other words for them.
-/

namespace Shaderwright

variable {σ α β : Type} {f : Option String}

def Emit.SameIn (f : Option String) (m m' : Emit σ α) : Prop :=
  ∀ w, w.function = f → m'.exec w = m.exec w

namespace Emit.SameIn

lemma refl (m : Emit σ α) : SameIn f m m := fun _ _ => rfl

lemma bind {m m' : Emit σ α} {k k' : α → Emit σ β} {p : Prop} (hm : SameIn f m m')
    (ha : Accepts f m p) (hk : ∀ a, SameIn f (k a) (k' a)) :
    SameIn f (m >>= k) (m' >>= k') := by
  intro w hw
  rw [exec_bind, exec_bind, hm w hw]
  rcases hex : m.exec w with ⟨e | a, v⟩
  · rfl
  · exact hk a v (ha.stays w a v hw hex)

lemma next {m : Emit σ α} {k k' : α → Emit σ β} {p : Prop} (ha : Accepts f m p)
    (hk : ∀ a, SameIn f (k a) (k' a)) : SameIn f (m >>= k) (m >>= k') :=
  bind (refl m) ha hk

lemma first {m m' : Emit σ α} (hm : SameIn f m m') (k : α → Emit σ β) :
    SameIn f (m >>= k) (m' >>= k) := by
  intro w hw
  rw [exec_bind, exec_bind, hm w hw]

lemma get {k k' : Writer σ → Emit σ β} (hk : ∀ w, w.function = f → SameIn f (k w) (k' w)) :
    SameIn f (MonadState.get >>= k) (MonadState.get >>= k') :=
  fun w hw => hk w hw w hw

lemma andThen {m m' : Emit σ α} (hm : SameIn f m m') (g : Writer σ → Writer σ) :
    SameIn f (m.andThen g) (m'.andThen g) := by
  intro w hw
  rw [exec_andThen, exec_andThen, hm w hw]

lemma braces {m m' : Emit σ Unit} (hm : SameIn f m m') :
    SameIn f (Emit.braces m) (Emit.braces m') := by
  have hpush : Accepts f (pushIndent : Emit σ Unit) True :=
    .of_exec (fun _ => ()) _ exec_pushIndent fun _ => rfl
  exact next (.write _) fun _ => next hpush fun _ => hm.first _

end Emit.SameIn

/-! ### Functions without parameters of the shader -/

lemma VarDecl.qualifier_ne_of_localWritable {rule : SampleRule} {v : VarDecl}
    (h : v.localWritable rule f = true) : v.var.qualifier ≠ .param := by
  intro hv
  simp [localWritable, hv] at h

/-- What can be written inside a function declares no parameter, unless a loop starts with one. -/
lemma Stmt.qualifier_ne_of_writable {rule : SampleRule} {s : Stmt} (h : s.writable rule f = true)
    (hstarts : ∀ v, .decl v ∈ s.loopStarts → v.var.qualifier ≠ .param) :
    ∀ v ∈ s.variables, v.qualifier ≠ .param := by
  induction s using Stmt.inductOn with
  | block ss ih =>
    simp only [writable, allWritable_eq_true] at h
    rw [Stmt.variables, variablesOf_eq_flatMap]
    intro v hv
    obtain ⟨s, hs, hv⟩ := List.mem_flatMap.mp hv
    exact ih s hs (h s hs) (fun u hu => hstarts u (mem_loopStartsOf hs hu)) v hv
  | decl v =>
    rw [writable] at h
    simpa [Stmt.variables] using VarDecl.qualifier_ne_of_localWritable h
  | ifElse cond yes no hyes hno =>
    simp only [writable, Bool.and_eq_true, Bool.or_eq_true] at h
    simp only [loopStarts, List.mem_append] at hstarts
    rw [Stmt.variables, List.forall_mem_append]
    refine ⟨hyes h.1.2 fun v hv => hstarts v (.inl hv), ?_⟩
    rcases h.2 with habsent | hwritable
    · cases no with
      | absent => simp [Stmt.variables]
      | _ => simp [isAbsent] at habsent
    · exact hno hwritable fun v hv => hstarts v (.inr hv)
  | loop init cond post body _ hbody =>
    simp only [writable, Bool.and_eq_true] at h
    simp only [loopStarts, List.mem_cons, List.mem_append] at hstarts
    rw [Stmt.variables, List.forall_mem_append]
    refine ⟨?_, hbody h.2 fun v hv => hstarts v (.inr (.inr hv))⟩
    cases init with
    | absent => simp [Stmt.variables]
    | decl v => simpa [Stmt.variables] using hstarts v (.inl rfl)
    | expr x => simp [Stmt.variables]
    | _ => simp [startWritable] at h
  | _ => simp [Stmt.variables]

lemma FuncDef.qualifier_ne_of_writable {rule : SampleRule} {g : FuncDef}
    (h : g.writable rule = true)
    (hstarts : ∀ v, .decl v ∈ Stmt.loopStartsOf g.body → v.var.qualifier ≠ .param) :
    ∀ v ∈ Stmt.variablesOf g.body, v.qualifier ≠ .param := by
  simp only [writable, Bool.and_eq_true, Stmt.allWritable_eq_true] at h
  rw [Stmt.variablesOf_eq_flatMap]
  intro v hv
  obtain ⟨s, hs, hv⟩ := List.mem_flatMap.mp hv
  exact Stmt.qualifier_ne_of_writable (h.2 s hs)
    (fun u hu => hstarts u (Stmt.mem_loopStartsOf hs hu)) v hv

/-! ### Another word for the storage of a parameter -/

namespace ExprDialect

def withQualifiers (d : ExprDialect σ) (t : NameTable) : ExprDialect σ := { d with qualifiers := t }

variable (d : ExprDialect σ) (t : NameTable)

lemma operand_withQualifiers (e : Expr) : (d.withQualifiers t).operand e = d.operand e := by
  -- nothing but an array element has a second way to be written
  have hplain : ∀ {e : Expr}, (∀ name ref i, e ≠ .index (.ident name ref) i) →
      (d.withQualifiers t).expr e = d.expr e → (d.withQualifiers t).operand e = d.operand e := by
    intro e hnot he
    unfold operand
    rw [he]
    split
    · exact absurd rfl (hnot _ _ _)
    · rfl
  have hwrite : ∀ {e : Expr}, (d.withQualifiers t).operand e = d.operand e →
      (d.withQualifiers t).expr e = d.expr e := congrArg Operand.write
  induction e using Expr.inductOn with
  | absent => exact hplain (by simp) (by simp only [expr])
  | ident name ref => exact hplain (by simp) (by simp only [expr]; rfl)
  | literal text kind => exact hplain (by simp) (by simp only [expr])
  | call callee args ih =>
    refine hplain (by simp) ?_
    rw [expr, expr, operands_eq_map, operands_eq_map, List.map_congr_left ih]
    rfl
  | binary op x y hx hy => exact hplain (by simp) (by simp only [expr, hwrite hx, hwrite hy])
  | unary op x hx => exact hplain (by simp) (by simp only [expr, hwrite hx])
  | assign op lhs rhs hl hr => exact hplain (by simp) (by simp only [expr, hwrite hl, hwrite hr])
  | member x field hx => exact hplain (by simp) (by simp only [expr, hwrite hx])
  | index x i hx hi =>
    have he : (d.withQualifiers t).expr (.index x i) = d.expr (.index x i) := by
      simp only [expr, hwrite hx, hwrite hi]
    unfold operand
    rw [he]
    split
    · rename_i heq
      rw [← (Expr.index.inj heq).2, hwrite hi]
    · rfl

lemma expr_withQualifiers (e : Expr) : (d.withQualifiers t).expr e = d.expr e :=
  congrArg Operand.write (d.operand_withQualifiers t e)

end ExprDialect

lemma Qualifier.text_ne_param {q : Qualifier} (hq : q ≠ .param) : q.text ≠ "param" := by
  cases q with
  | none => decide
  | const => decide
  | param => exact absurd rfl hq
  | other n =>
    intro h
    have hhead : (text (.other n)).toList.head? = "param".toList.head? := by rw [h]
    simp [text] at hhead

/-- Nothing but a parameter is stored under the word for parameters. -/
lemma get?_qualifierTable (param param' out : String) {key : String} (hkey : key ≠ "param") :
    (qualifierTable param' out).get? key = (qualifierTable param out).get? key := by
  have hne : (key == "param") = false := beq_eq_false_iff_ne.mpr hkey
  simp only [qualifierTable, NameTable.get?, List.lookup_cons, hne]
  rfl

namespace ExprDialect

variable {d : ExprDialect σ} {param out : String}

lemma qualifier_withQualifiers (hd : d.qualifiers = qualifierTable param out) (param' : String)
    {key : String} (hkey : key ≠ "param") :
    (d.withQualifiers (qualifierTable param' out)).qualifier key = d.qualifier key := by
  unfold qualifier mapped withQualifiers
  rw [hd, get?_qualifierTable param param' out hkey]
  rfl

lemma varDeclText_withQualifiers (hd : d.qualifiers = qualifierTable param out) (param' : String)
    {v : VarDecl} (hv : v.var.qualifier ≠ .param) :
    (d.withQualifiers (qualifierTable param' out)).varDeclText v = d.varDeclText v := by
  unfold varDeclText exprText
  rw [qualifier_withQualifiers hd param' (Qualifier.text_ne_param hv), expr_withQualifiers]
  rfl

lemma defineConstant_withQualifiers (hd : d.qualifiers = qualifierTable param out)
    (param' : String) {v : VarDecl} (hv : v.var.qualifier ≠ .param) :
    (d.withQualifiers (qualifierTable param' out)).defineConstant v = d.defineConstant v := by
  unfold defineConstant exprText
  rw [qualifier_withQualifiers hd param' (Qualifier.text_ne_param hv), expr_withQualifiers]
  rfl

lemma paramText_withQualifiers (hd : d.qualifiers = qualifierTable param out) (param' : String)
    (p : VarDecl) :
    (d.withQualifiers (qualifierTable param' out)).paramText p = d.paramText p := by
  unfold paramText
  rw [qualifier_withQualifiers hd param' (by decide)]
  rfl

end ExprDialect

/-! ### Statements -/

namespace StmtDialect

variable {rule : SampleRule} {d d' : StmtDialect σ}

/-- The language that declares the variables outside of its functions in some other way. -/
def withOutside (d : StmtDialect σ) (outside : VarDecl → Emit σ Unit) : StmtDialect σ :=
  { d with
    declare := fun v => do
      match (← get).function with
      | none => outside v
      | some _ => d.declare v }

lemma sameIn_withOutside (d : StmtDialect σ) (outside : VarDecl → Emit σ Unit) (g : String)
    (v : VarDecl) : Emit.SameIn (some g) (d.declare v) ((d.withOutside outside).declare v) := by
  intro w hw
  show (match w.function with
    | none => outside v
    | some _ => d.declare v).exec w = _
  rw [hw]

/-- Two languages that differ inside `f` at most in how they declare a parameter. -/
structure AlikeIn (f : Option String) (d d' : StmtDialect σ) : Prop where
  expr : ∀ e, d'.expr e = d.expr e
  variableNames : d'.variableNames = d.variableNames
  varDeclText : ∀ v, v.var.qualifier ≠ .param → d'.varDeclText v = d.varDeclText v
  declare : ∀ v, v.var.qualifier ≠ .param → Emit.SameIn f (d.declare v) (d'.declare v)
  discard : d'.discard = d.discard

/-- Other words for the storage of parameters and another way to declare variables outside of the
functions make no difference inside of a function. -/
lemma alikeIn_withOutside {d : ExprDialect σ} {param out discard : String}
    {declare declare' : VarDecl → Emit σ Unit} (hd : d.qualifiers = qualifierTable param out)
    (hdeclare : ∀ v, v.var.qualifier ≠ .param → declare' v = declare v) (param' : String)
    (outside : VarDecl → Emit σ Unit) (g : String) :
    AlikeIn (some g) ⟨d, declare, discard⟩
      (withOutside ⟨d.withQualifiers (qualifierTable param' out), declare', discard⟩ outside) where
  expr := d.expr_withQualifiers _
  variableNames := rfl
  varDeclText v hv := ExprDialect.varDeclText_withQualifiers hd param' hv
  declare v hv := by
    intro w hw
    rw [sameIn_withOutside _ outside g v w hw]
    dsimp only
    rw [hdeclare v hv]
  discard := rfl

namespace AlikeIn

lemma variableName (h : AlikeIn f d d') (name : String) :
    d'.variableName name = d.variableName name := by
  unfold ExprDialect.variableName
  rw [h.variableNames]

lemma compound (h : AlikeIn f d d') {body body' : Emit σ Unit}
    (hbody : Emit.SameIn f body body') :
    Emit.SameIn f (d.compound body) (d'.compound body') := by
  unfold ExprDialect.compound
  refine .get fun w _ => .next (.change fun _ => rfl) fun _ => ?_
  split
  · simp only [ExprDialect.entryBody_eq, h.variableName]
    refine .braces (.next (.writeLine _) fun _ => .first ?_ _)
    exact .next (.change fun _ => rfl) fun _ => hbody.andThen _
  · exact hbody.braces

lemma stmts (hd : d.Accepting rule f) {ss : List Stmt}
    (h : ∀ s ∈ ss, Emit.SameIn f (d.stmt s) (d'.stmt s)) :
    Emit.SameIn f (d.stmts ss) (d'.stmts ss) := by
  induction ss with
  | nil =>
    rw [StmtDialect.stmts, StmtDialect.stmts]
    exact .refl _
  | cons s ss ih =>
    rw [StmtDialect.stmts, StmtDialect.stmts]
    exact .bind (h s List.mem_cons_self) (hd.stmt_branch s).1 fun _ =>
      ih fun s' hs' => h s' (List.mem_cons_of_mem _ hs')

lemma loopStart (h : AlikeIn f d d') {s : Stmt} (hs : ∀ v ∈ s.variables, v.qualifier ≠ .param) :
    d'.loopStart s = d.loopStart s := by
  cases s with
  | decl v =>
    simp only [StmtDialect.loopStart]
    rw [h.varDeclText v (hs _ (by simp [Stmt.variables]))]
  | expr x => exact h.expr x
  | _ => rfl

lemma optional (h : AlikeIn f d d') (e : Expr) : d'.optional e = d.optional e := by
  unfold StmtDialect.optional
  rw [h.expr]

lemma stmt_branch (h : AlikeIn f d d') (hd : d.Accepting rule f) {s : Stmt}
    (hs : ∀ v ∈ s.variables, v.qualifier ≠ .param) :
    Emit.SameIn f (d.stmt s) (d'.stmt s) ∧ Emit.SameIn f (d.branch s) (d'.branch s) := by
  -- a branch that is no block is the statement in braces
  have hsingle : ∀ {s : Stmt}, (∀ d : StmtDialect σ, d.branch s = Emit.braces (d.stmt s)) →
      Emit.SameIn f (d.stmt s) (d'.stmt s) →
      Emit.SameIn f (d.stmt s) (d'.stmt s) ∧ Emit.SameIn f (d.branch s) (d'.branch s) := by
    intro s hbranch hs
    rw [hbranch d, hbranch d']
    exact ⟨hs, hs.braces⟩
  induction s using Stmt.inductOn with
  | block ss ih =>
    simp only [Stmt.variables, Stmt.variablesOf_eq_flatMap, List.mem_flatMap] at hs
    have hss := h.compound (stmts hd fun s hmem => (ih s hmem fun v hv => hs v ⟨s, hmem, hv⟩).1)
    constructor
    · rw [stmt, stmt]
      exact .next .writeIndent fun _ => hss.first _
    · simp only [branch, contents]
      exact hss
  | decl v =>
    refine hsingle (fun _ => rfl) ?_
    rw [stmt, stmt]
    exact h.declare v (hs _ (by simp [Stmt.variables]))
  | expr x =>
    refine hsingle (fun _ => rfl) ?_
    rw [stmt, stmt, h.expr]
    exact .refl _
  | returns value =>
    refine hsingle (fun _ => rfl) ?_
    rw [stmt, stmt, h.expr]
    simp only [h.variableName]
    exact .refl _
  | ifElse cond yes no hyes hno =>
    simp only [Stmt.variables, List.forall_mem_append] at hs
    have hyes' := (hyes hs.1).2
    have hno' := (hno hs.2).2
    refine hsingle (fun _ => rfl) ?_
    rw [stmt, stmt, h.expr]
    refine .next .writeIndent fun _ => .next (.write _) fun _ => .next (hd.calls.expr cond) fun _ =>
      .next (.write _) fun _ => .bind hyes' (hd.stmt_branch yes).2 fun _ => ?_
    split
    · exact .refl _
    · exact .next (.write _) fun _ => hno'.first _
  | loop init cond post body hinit hbody =>
    simp only [Stmt.variables, List.forall_mem_append] at hs
    refine hsingle (fun _ => rfl) ?_
    rw [stmt, stmt, h.loopStart hs.1, h.optional, h.optional]
    exact .next .writeIndent fun _ => .next (.write _) fun _ => .next (hd.loopStart init) fun _ =>
      .next (.write _) fun _ => .next (hd.optional cond) fun _ => .next (.write _) fun _ =>
      .next (hd.optional post) fun _ => .next (.write _) fun _ => (hbody hs.2).2.first _
  | discard =>
    refine hsingle (fun _ => rfl) ?_
    rw [stmt, stmt, h.discard]
    exact .refl _
  | absent => exact hsingle (fun _ => rfl) (.refl _)
  | breakLoop => exact hsingle (fun _ => rfl) (.refl _)
  | continueLoop => exact hsingle (fun _ => rfl) (.refl _)

lemma funcWithSignature (h : AlikeIn f d d') (hd : d.Accepting rule f) (signature : String)
    {g : FuncDef} (hg : ∀ v ∈ Stmt.variablesOf g.body, v.qualifier ≠ .param) :
    Emit.SameIn f (d.funcWithSignature signature g) (d'.funcWithSignature signature g) := by
  rw [Stmt.variablesOf_eq_flatMap] at hg
  have hbody := h.compound (stmts hd fun s hs =>
    (h.stmt_branch hd fun v hv => hg v (List.mem_flatMap.mpr ⟨s, hs, hv⟩)).1)
  exact .next .writeIndent fun _ => .next (.write _) fun _ => hbody.first _

end AlikeIn

end StmtDialect

end Shaderwright
