import Mathlib.Tactic.Common
import Shaderwright.Proofs.Emit.Discipline
import Shaderwright.Proofs.Emit.NameTable
import Shaderwright.Proofs.Shader.Complete

/-!
What can go wrong with a complete tree. A missing part, a type or qualifier without a name and a
missing declaration cannot; what is left is what the target language objects to, a stage input out
of reach, and a loop that starts with a statement of another kind.
-/

namespace Shaderwright

variable {σ α β : Type} {P : Fault → Prop}

namespace Emit

/-- Whatever stops the step satisfies `P`. -/
def FaultsIn (P : Fault → Prop) (m : Emit σ α) : Prop :=
  ∀ w e v, m.exec w = (.error e, v) → P e

namespace FaultsIn

lemma of_exec {m : Emit σ α} (r : Writer σ → α) (g : Writer σ → Writer σ)
    (hm : ∀ w, m.exec w = (.ok (r w), g w)) : FaultsIn P m := by
  intro w e v h
  rw [hm] at h
  cases h

lemma pure (a : α) : FaultsIn P (Pure.pure a : Emit σ α) :=
  of_exec (fun _ => a) id fun _ => rfl

lemma throw {e : Fault} (he : P e) : FaultsIn P (MonadExcept.throw e : Emit σ α) := by
  intro w e' v h
  cases h
  exact he

lemma get : FaultsIn P (MonadState.get : Emit σ (Writer σ)) := of_exec id id fun _ => rfl

lemma change (g : Writer σ → Writer σ) : FaultsIn P (modify g : Emit σ Unit) :=
  of_exec (fun _ => ()) g fun _ => rfl

lemma write (text : String) : FaultsIn P (Emit.write text : Emit σ Unit) := change _

lemma writeIndent : FaultsIn P (Emit.writeIndent : Emit σ Unit) := change _

lemma writeLine (text : String) : FaultsIn P (Emit.writeLine text : Emit σ Unit) :=
  of_exec (fun _ => ()) _ (exec_writeLine text)

lemma bind {m : Emit σ α} {k : α → Emit σ β} (hm : FaultsIn P m) (hk : ∀ a, FaultsIn P (k a)) :
    FaultsIn P (m >>= k) := by
  intro w e v h
  rw [exec_bind] at h
  rcases hex : m.exec w with ⟨e' | a, u⟩
  · rw [hex] at h
    cases h
    exact hm w e _ hex
  · rw [hex] at h
    exact hk a u e v h

lemma throw_bind {e : Fault} (he : P e) (k : α → Emit σ β) :
    FaultsIn P (MonadExcept.throw e >>= k) := by
  intro w e' v h
  rw [exec_bind, exec_throw] at h
  cases h
  exact he

lemma captured {m : Emit σ Unit} (hm : FaultsIn P m) : FaultsIn P (Emit.captured m) := by
  intro w e v h
  rw [exec_captured] at h
  rcases hex : m.exec { w with out := "" } with ⟨e' | _, u⟩
  · rw [hex] at h
    cases h
    exact hm _ e u hex
  · rw [hex] at h
    cases h

lemma andThen {m : Emit σ α} (hm : FaultsIn P m) (g : Writer σ → Writer σ) :
    FaultsIn P (m.andThen g) := by
  intro w e v h
  rw [exec_andThen] at h
  exact hm w e _ (Prod.ext (Prod.mk.inj h).1 rfl)

lemma separated (separator : String) {steps : List (Emit σ Unit)}
    (h : ∀ step ∈ steps, FaultsIn P step) : FaultsIn P (Emit.separated separator steps) := by
  induction steps with
  | nil => exact pure ()
  | cons step rest ih =>
    have hstep := h step List.mem_cons_self
    have hrest := ih fun step' h' => h step' (List.mem_cons_of_mem _ h')
    cases rest with
    | nil => exact hstep
    | cons next others => exact hstep.bind fun _ => (write separator).bind fun _ => hrest

lemma braces {m : Emit σ Unit} (hm : FaultsIn P m) : FaultsIn P (Emit.braces m) :=
  (write _).bind fun _ => (change _).bind fun _ => hm.bind fun _ => (change _).bind fun _ =>
    writeIndent.bind fun _ => write _

lemma forM {m : α → Emit σ Unit} {xs : List α} (h : ∀ x ∈ xs, FaultsIn P (m x)) :
    FaultsIn P (xs.forM m) := by
  induction xs with
  | nil => exact pure ()
  | cons x xs ih =>
    exact (h x List.mem_cons_self).bind fun _ => ih fun y hy => h y (List.mem_cons_of_mem _ hy)

lemma mapM {m : α → Emit σ β} {xs : List α} (h : ∀ x ∈ xs, FaultsIn P (m x)) :
    FaultsIn P (xs.mapM m) := by
  induction xs with
  | nil => exact pure []
  | cons x xs ih =>
    rw [List.mapM_cons]
    exact (h x List.mem_cons_self).bind fun _ =>
      (ih fun y hy => h y (List.mem_cons_of_mem _ hy)).bind fun _ => pure _

end FaultsIn

end Emit

/-! ### Expressions -/

structure Operand.FaultsIn (P : Fault → Prop) (o : Operand σ) : Prop where
  write : Emit.FaultsIn P o.write
  element : ∀ name index, o.element = some (name, index) → Emit.FaultsIn P index

/-- A language with the common types and qualifiers, where nothing but what satisfies `P` stops a
call unless it stops an argument. -/
structure ExprDialect.FaultsIn (P : Fault → Prop) (d : ExprDialect σ) : Prop where
  inputScope : ∀ name, P (.inputScope name)
  constantWithoutValue : ∀ name, P (.refused (.constantWithoutValue name))
  types : ∃ texture, d.types = typeTable texture
  qualifiers : ∃ param out, d.qualifiers = qualifierTable param out
  call : ∀ callee args, (∀ o ∈ args, Operand.FaultsIn P o) → Emit.FaultsIn P (d.call callee args)

namespace ExprDialect

variable {d : ExprDialect σ}

lemma faultsIn_mapped {t : NameTable} {key : String} (h : (t.get? key).isSome = true) :
    Emit.FaultsIn P (mapped t key : Emit σ String) := by
  obtain ⟨value, hvalue⟩ := Option.isSome_iff_exists.mp h
  rw [mapped, hvalue]
  exact .pure value

lemma faultsIn_variableName (d : ExprDialect σ) (name : String) :
    Emit.FaultsIn P (d.variableName name) :=
  .of_exec _ id (d.exec_variableName name)

lemma faultsIn_callNamed (name : String) {args : List (Operand σ)}
    (h : ∀ o ∈ args, Operand.FaultsIn P o) : Emit.FaultsIn P (callNamed name args) := by
  refine .bind (.write _) fun _ => .bind (.separated ", " ?_) fun _ => .write _
  intro step hstep
  obtain ⟨o, ho, rfl⟩ := List.mem_map.mp hstep
  exact (h o ho).write

lemma faultsIn_callMapped (functions : NameTable) (callee : String) {args : List (Operand σ)}
    (h : ∀ o ∈ args, Operand.FaultsIn P o) :
    Emit.FaultsIn P (callMapped functions callee args) := by
  unfold callMapped
  split <;> exact faultsIn_callNamed _ h

namespace FaultsIn

lemma typeName (hd : d.FaultsIn P) {t : ShaderType} (ht : t.known = true) :
    Emit.FaultsIn P (d.typeName t) := by
  obtain ⟨texture, htypes⟩ := hd.types
  apply faultsIn_mapped
  rw [htypes, NameTable.isSome_get? (typeTable texture) (typeTable "") rfl (by simp [typeTable])]
  exact ht

/-- The keys of the qualifiers are the same in all languages. -/
lemma qualifier (hd : d.FaultsIn P) {key : String}
    (hkey : ((qualifierTable "" "").get? key).isSome = true) :
    Emit.FaultsIn P (d.qualifier key) := by
  obtain ⟨param, out, hqualifiers⟩ := hd.qualifiers
  apply faultsIn_mapped
  rw [hqualifiers, NameTable.isSome_get? (qualifierTable param out) (qualifierTable "" "") rfl
    (by simp [qualifierTable])]
  exact hkey

lemma qualifierOut (hd : d.FaultsIn P) : Emit.FaultsIn P (d.qualifier "out") :=
  hd.qualifier (by decide)

/-- A complete expression is stopped by a stage input out of reach or by a call. -/
lemma operand (hd : d.FaultsIn P) {e : Expr} (h : e.Complete) : (d.operand e).FaultsIn P := by
  -- nothing but an array element has a second way to be written
  have hplain : ∀ {e : Expr}, (d.operand e).element = none → Emit.FaultsIn P (d.expr e) →
      (d.operand e).FaultsIn P := by
    intro e hnone he
    exact ⟨he, by simp [hnone]⟩
  induction e using Expr.inductOn with
  | absent => exact absurd h Expr.not_complete_absent
  | ident name ref =>
    refine hplain rfl ?_
    rw [ExprDialect.expr]
    refine .bind .get fun w => ?_
    dsimp only
    split
    · exact .throw_bind (hd.inputScope name) _
    · exact (d.faultsIn_variableName name).bind fun _ => .write _
  | literal text kind =>
    refine hplain rfl ?_
    rw [ExprDialect.expr]
    exact .write text
  | call callee args ih =>
    refine hplain rfl ?_
    rw [ExprDialect.expr, operands_eq_map]
    apply hd.call
    intro o ho
    obtain ⟨arg, harg, rfl⟩ := List.mem_map.mp ho
    exact ih arg harg (Expr.complete_call.mp h arg harg)
  | binary op x y ihx ihy =>
    obtain ⟨hx, hy⟩ := Expr.complete_binary.mp h
    refine hplain rfl ?_
    rw [ExprDialect.expr]
    exact .bind (.write _) fun _ => .bind (ihx hx).write fun _ => .bind (.write _) fun _ =>
      .bind (ihy hy).write fun _ => .write _
  | unary op x ih =>
    refine hplain rfl ?_
    rw [ExprDialect.expr]
    exact .bind (.write _) fun _ => (ih (Expr.complete_unary.mp h)).write
  | assign op lhs rhs ihl ihr =>
    obtain ⟨hl, hr⟩ := Expr.complete_assign.mp h
    refine hplain rfl ?_
    rw [ExprDialect.expr]
    exact .bind (ihl hl).write fun _ => .bind (.write _) fun _ => (ihr hr).write
  | member x field ih =>
    refine hplain rfl ?_
    rw [ExprDialect.expr]
    exact .bind (ih (Expr.complete_member.mp h)).write fun _ => .write _
  | index x i ihx ihi =>
    obtain ⟨hx, hi⟩ := Expr.complete_index.mp h
    refine ⟨?_, fun name index hindex => ?_⟩
    · show Emit.FaultsIn P (d.expr (.index x i))
      rw [ExprDialect.expr]
      exact .bind (ihx hx).write fun _ => .bind (.write _) fun _ =>
        .bind (ihi hi).write fun _ => .write _
    · unfold ExprDialect.operand at hindex
      split at hindex
      · rename_i heq
        obtain ⟨-, rfl⟩ := Expr.index.inj heq
        obtain ⟨-, rfl⟩ := Prod.mk.inj (Option.some.inj hindex)
        exact (ihi hi).write
      · cases hindex

lemma expr (hd : d.FaultsIn P) {e : Expr} (h : e.Complete) : Emit.FaultsIn P (d.expr e) :=
  (hd.operand h).write

lemma exprText (hd : d.FaultsIn P) {e : Expr} (h : e.Complete) : Emit.FaultsIn P (d.exprText e) :=
  (hd.expr h).captured

/-! ### Declarations -/

lemma varDeclText (hd : d.FaultsIn P) {v : VarDecl} (h : v.Complete) :
    Emit.FaultsIn P (d.varDeclText v) := by
  refine .bind (hd.typeName h.type) fun type => .bind (hd.qualifier h.qualifier) fun qualifier =>
    .bind (d.faultsIn_variableName _) fun name => ?_
  dsimp only
  split
  · exact .pure _
  · rename_i hinit
    exact .bind (hd.exprText (h.init.complete (by simpa using hinit))) fun _ => .pure _

lemma varDecl (hd : d.FaultsIn P) {v : VarDecl} (h : v.Complete) :
    Emit.FaultsIn P (d.varDecl v) :=
  (hd.varDeclText h).bind fun _ => .writeLine _

lemma defineConstant (hd : d.FaultsIn P) {v : VarDecl} (h : v.Complete) :
    Emit.FaultsIn P (d.defineConstant v) := by
  unfold ExprDialect.defineConstant
  dsimp only
  split
  · exact .throw_bind (hd.constantWithoutValue _) _
  · rename_i hinit
    exact .bind (hd.qualifier h.qualifier) fun _ =>
      .bind (hd.exprText (h.init.complete (by simpa using hinit))) fun _ =>
      .bind (d.faultsIn_variableName _) fun _ => .writeLine _

lemma paramText (hd : d.FaultsIn P) {p : VarDecl} (h : p.Complete) :
    Emit.FaultsIn P (d.paramText p) := by
  refine .bind (hd.typeName h.type) fun type => .bind (d.faultsIn_variableName _) fun name => ?_
  dsimp only
  split
  · exact .bind hd.qualifierOut fun _ => .pure _
  · exact .pure _

end FaultsIn

lemma faultsIn_compound (d : ExprDialect σ) {body : Emit σ Unit} (hbody : Emit.FaultsIn P body) :
    Emit.FaultsIn P (d.compound body) := by
  unfold compound
  refine .bind .get fun w => .bind (.change _) fun _ => ?_
  split
  · rw [entryBody_eq]
    refine .braces (.bind (.writeLine _) fun _ => .bind ?_ fun _ =>
      .bind (d.faultsIn_variableName _) fun _ => .writeLine _)
    exact .bind (.change _) fun _ => hbody.andThen _
  · exact hbody.braces

end ExprDialect

/-! ### Statements -/

/-- Where a loop starts with a statement that it must not start with, this satisfies `P`. -/
def StartsIn (P : Fault → Prop) (starts : List Stmt) : Prop :=
  ∀ s ∈ starts, s.canStart = false → P (.loopStart s.shape)

lemma StartsIn.mono {starts starts' : List Stmt} (h : StartsIn P starts')
    (hsub : starts ⊆ starts') : StartsIn P starts :=
  fun s hs => h s (hsub hs)

structure StmtDialect.FaultsIn (P : Fault → Prop) (d : StmtDialect σ) : Prop
    extends ExprDialect.FaultsIn P d.toExprDialect where
  declare : ∀ v : VarDecl, v.Complete → Emit.FaultsIn P (d.declare v)

namespace StmtDialect

variable {d : StmtDialect σ}

lemma FaultsIn.loopStart (hd : d.FaultsIn P) {s : Stmt} (h : s.isAbsent = false → s.Complete)
    (hstart : s.canStart = false → P (.loopStart s.shape)) : Emit.FaultsIn P (d.loopStart s) := by
  cases s with
  | absent => exact .pure ()
  | decl v =>
    cases h rfl with
    | decl hv => exact .bind (hd.varDeclText hv) fun _ => .write _
  | expr x =>
    cases h rfl with
    | expr hx => exact hd.expr hx
  | _ => exact .throw (hstart rfl)

lemma FaultsIn.optional (hd : d.FaultsIn P) {e : Expr} (h : e.CompleteIfAny) :
    Emit.FaultsIn P (d.optional e) := by
  unfold StmtDialect.optional
  split
  · exact .pure ()
  · rename_i he
    exact hd.expr (h.complete (by simpa using he))

lemma faultsIn_stmts {ss : List Stmt} (h : ∀ s ∈ ss, Emit.FaultsIn P (d.stmt s)) :
    Emit.FaultsIn P (d.stmts ss) := by
  induction ss with
  | nil =>
    rw [stmts]
    exact .pure ()
  | cons s ss ih =>
    rw [stmts]
    exact .bind (h s List.mem_cons_self) fun _ => ih fun s' hs' => h s' (List.mem_cons_of_mem _ hs')

/-- A complete statement is stopped by an expression or a declaration in it, or by the start of a
loop, also where it is a branch. -/
lemma FaultsIn.stmt_branch (hd : d.FaultsIn P) {s : Stmt} (h : s.Complete)
    (hstarts : StartsIn P s.loopStarts) :
    Emit.FaultsIn P (d.stmt s) ∧ Emit.FaultsIn P (d.branch s) := by
  -- a branch that is no block is the statement in braces
  have hsingle : ∀ {s : Stmt}, d.branch s = Emit.braces (d.stmt s) →
      Emit.FaultsIn P (d.stmt s) → Emit.FaultsIn P (d.stmt s) ∧ Emit.FaultsIn P (d.branch s) := by
    intro s hbranch hs
    exact ⟨hs, hbranch ▸ hs.braces⟩
  induction h with
  | @block ss _ ih =>
    have hss : Emit.FaultsIn P (d.compound (d.stmts ss)) := by
      refine d.faultsIn_compound (faultsIn_stmts fun s hs => (ih s hs (hstarts.mono ?_)).1)
      rw [Stmt.loopStarts]
      exact Stmt.mem_loopStartsOf hs
    constructor
    · rw [stmt]
      exact .bind .writeIndent fun _ => hss.bind fun _ => .write _
    · rw [branch, contents]
      exact hss
  | decl hv =>
    refine hsingle rfl ?_
    rw [stmt]
    exact hd.declare _ hv
  | expr hx =>
    refine hsingle rfl ?_
    rw [stmt]
    exact .bind .writeIndent fun _ => .bind (hd.expr hx) fun _ => .write _
  | returns hvalue =>
    refine hsingle rfl ?_
    rw [stmt]
    refine .bind .writeIndent fun _ => ?_
    split
    · refine .bind .get fun w => ?_
      dsimp only
      split
      · exact .write _
      · exact .bind (d.faultsIn_variableName _) fun _ => .write _
    · rename_i hpresent
      exact .bind (.write _) fun _ =>
        .bind (hd.expr (hvalue.complete (by simpa using hpresent))) fun _ => .write _
  | @ifElse cond yes no hcond _ _ ihyes ihno =>
    rw [Stmt.loopStarts] at hstarts
    have hyes := (ihyes (hstarts.mono (List.subset_append_left _ _))).2
    have hno : no.isAbsent = false → Emit.FaultsIn P (d.branch no) := fun hpresent =>
      (ihno hpresent (hstarts.mono (List.subset_append_right _ _))).2
    refine hsingle rfl ?_
    rw [stmt]
    refine .bind .writeIndent fun _ => .bind (.write _) fun _ => .bind (hd.expr hcond) fun _ =>
      .bind (.write _) fun _ => .bind hyes fun _ => ?_
    dsimp only
    split
    · exact .write _
    · rename_i hpresent
      exact .bind (.write _) fun _ => .bind (hno (by simpa using hpresent)) fun _ => .write _
  | @loop init cond post body hinit hcond hpost _ _ ihbody =>
    rw [Stmt.loopStarts] at hstarts
    have hstart : init.canStart = false → P (.loopStart init.shape) :=
      hstarts init List.mem_cons_self
    have hbody := (ihbody (hstarts.mono (List.subset_cons_of_subset _
      (List.subset_append_right _ _)))).2
    refine hsingle rfl ?_
    rw [stmt]
    exact .bind .writeIndent fun _ => .bind (.write _) fun _ =>
      .bind (hd.loopStart hinit hstart) fun _ => .bind (.write _) fun _ =>
      .bind (hd.optional hcond) fun _ => .bind (.write _) fun _ =>
      .bind (hd.optional hpost) fun _ => .bind (.write _) fun _ =>
      .bind hbody fun _ => .write _
  | discard =>
    refine hsingle rfl ?_
    rw [stmt]
    exact .writeLine _
  | breakLoop =>
    refine hsingle rfl ?_
    rw [stmt]
    exact .writeLine _
  | continueLoop =>
    refine hsingle rfl ?_
    rw [stmt]
    exact .writeLine _

lemma FaultsIn.funcWithSignature (hd : d.FaultsIn P) (signature : String) {f : FuncDef}
    (h : f.Complete) (hstarts : StartsIn P (Stmt.loopStartsOf f.body)) :
    Emit.FaultsIn P (d.funcWithSignature signature f) := by
  have hbody : Emit.FaultsIn P (d.stmts f.body) := faultsIn_stmts fun s hs =>
    (hd.stmt_branch (h.body s hs) (hstarts.mono (Stmt.mem_loopStartsOf hs))).1
  exact .bind .writeIndent fun _ => .bind (.write _) fun _ =>
    .bind (d.faultsIn_compound hbody) fun _ => .write _

lemma FaultsIn.funcDef (hd : d.FaultsIn P) {f : FuncDef} (h : f.Complete)
    (hstarts : StartsIn P (Stmt.loopStartsOf f.body)) : Emit.FaultsIn P (d.funcDef f) :=
  .bind (hd.typeName h.returns) fun _ => .bind (.mapM fun p hp => hd.paramText (h.params p hp))
    fun _ => hd.funcWithSignature _ h hstarts

end StmtDialect

/-! ### Declarations of a shader -/

structure Dialect.FaultsIn (P : Fault → Prop) (d : Dialect σ) : Prop where
  declare : ∀ v : VarDecl, v.Complete → Emit.FaultsIn P (d.declare v)
  define : ∀ f : FuncDef, f.Complete → StartsIn P (Stmt.loopStartsOf f.body) →
    Emit.FaultsIn P (d.define f)

namespace Dialect

variable {d : Dialect σ}

lemma FaultsIn.decl (hd : d.FaultsIn P) {x : Decl} (h : x.Complete)
    (hstarts : StartsIn P x.loopStarts) : Emit.FaultsIn P (d.decl x) := by
  cases h with
  | var hv => exact hd.declare _ hv
  | func hf => exact .bind (.change _) fun _ => (hd.define _ hf hstarts).andThen _

lemma FaultsIn.decls (hd : d.FaultsIn P) {xs : List Decl} (h : ∀ x ∈ xs, x.Complete)
    (hstarts : StartsIn P (xs.flatMap Decl.loopStarts)) : Emit.FaultsIn P (d.decls xs) := by
  induction xs with
  | nil => exact .pure ()
  | cons x xs ih =>
    rw [List.flatMap_cons] at hstarts
    have hx := hd.decl (h x List.mem_cons_self) (hstarts.mono (List.subset_append_left _ _))
    exact .bind hx fun _ => ih (fun y hy => h y (List.mem_cons_of_mem _ hy))
      (hstarts.mono (List.subset_append_right _ _))

end Dialect

/-! ### What is reported -/

/-- A fault that is reported as a refusal of one of the kinds, or as the start of a loop that is
neither a declaration nor an expression. -/
def Fault.Typed (kinds : List RefusalKind) (starts : List Stmt) (f : Fault) : Prop :=
  (∃ why, f = .refused why ∧ why.kind ∈ kinds) ∨
    ∃ s ∈ starts, s.canStart = false ∧ f = .loopStart s.shape

/-- What a language refuses by rules of its own has one of the kinds. -/
def Dialect.Refuses (kinds : List RefusalKind) (d : Dialect σ) : Prop :=
  ∀ P : Fault → Prop, (∀ why : Refusal, why.kind ∈ kinds → P (.refused why)) →
    (∀ name, P (.inputScope name)) → d.FaultsIn P

/-- A complete shader that cannot be written is refused or has a loop that does not start as it
should. A stage input out of reach counts among the declarations that are refused. -/
lemma Dialect.Refuses.typed {d : Dialect σ} {kinds : List RefusalKind} (hd : d.Refuses kinds)
    (hkinds : .declaration ∈ kinds) {xs : List Decl} (h : ∀ x ∈ xs, x.Complete) {w v : Writer σ}
    {e : Fault} (hexec : (d.decls xs).exec w = (.error e, v)) :
    e.ofTarget.Typed kinds (xs.flatMap Decl.loopStarts) := by
  have hfaults : d.FaultsIn fun f => f.ofTarget.Typed kinds (xs.flatMap Decl.loopStarts) :=
    hd _ (fun why hwhy => .inl ⟨why, rfl, hwhy⟩) fun name => .inl ⟨_, rfl, hkinds⟩
  exact hfaults.decls h (fun s hs hstart => .inr ⟨s, hs, hstart, rfl⟩) w e v hexec

end Shaderwright
