import Mathlib.Data.List.Forall2
import Mathlib.Tactic.Common
import Shaderwright.Proofs.Emit.Discipline
import Shaderwright.Proofs.Emit.NameTable
import Shaderwright.Proofs.Emit.Writable

/-!
When a step succeeds. Inside one function this depends on the tree alone, whatever was written
before: an expression or a statement is written exactly if it is writable.
-/

namespace Shaderwright

variable {σ α β : Type}

namespace Emit

/-- Inside `f` the step succeeds exactly if `p` holds, and then stays there. -/
structure Accepts (f : Option String) (m : Emit σ α) (p : Prop) : Prop where
  iff : ∀ w, w.function = f → ((∃ a v, m.exec w = (.ok a, v)) ↔ p)
  stays : ∀ w a v, w.function = f → m.exec w = (.ok a, v) → v.function = f

namespace Accepts

variable {f : Option String} {p q : Prop}

lemma congr {m : Emit σ α} (h : Accepts f m p) (hpq : p ↔ q) : Accepts f m q :=
  ⟨fun w hw => (h.iff w hw).trans hpq, h.stays⟩

lemma of_exec {m : Emit σ α} (r : Writer σ → α) (g : Writer σ → Writer σ)
    (hm : ∀ w, m.exec w = (.ok (r w), g w)) (hg : ∀ w, (g w).function = w.function) :
    Accepts f m True := by
  refine ⟨fun w _ => ⟨fun _ => trivial, fun _ => ⟨_, _, hm w⟩⟩, fun w a v hw h => ?_⟩
  obtain ⟨-, rfl⟩ := Prod.mk.inj ((hm w).symm.trans h)
  rw [hg, hw]

lemma pure (a : α) : Accepts f (Pure.pure a : Emit σ α) True :=
  of_exec (fun _ => a) id (fun _ => rfl) fun _ => rfl

lemma throw (e : Fault) : Accepts f (MonadExcept.throw e : Emit σ α) False :=
  ⟨fun w _ => by simp, fun w a v _ h => by simp at h⟩

lemma write (text : String) : Accepts f (Emit.write text : Emit σ Unit) True :=
  of_exec (fun _ => ()) _ (exec_write text) fun _ => rfl

lemma writeIndent : Accepts f (Emit.writeIndent : Emit σ Unit) True :=
  of_exec (fun _ => ()) _ exec_writeIndent fun _ => rfl

lemma writeLine (text : String) : Accepts f (Emit.writeLine text : Emit σ Unit) True :=
  of_exec (fun _ => ()) _ (exec_writeLine text) fun _ => rfl

lemma bind {m : Emit σ α} {k : α → Emit σ β} (hm : Accepts f m p)
    (hk : ∀ a, Accepts f (k a) q) : Accepts f (m >>= k) (p ∧ q) where
  iff w hw := by
    simp only [exec_bind_eq_ok]
    constructor
    · rintro ⟨b, v, a, u, hu, hv⟩
      have hfu := hm.stays w a u hw hu
      exact ⟨(hm.iff w hw).mp ⟨a, u, hu⟩, ((hk a).iff u hfu).mp ⟨b, v, hv⟩⟩
    · rintro ⟨hp, hq⟩
      obtain ⟨a, u, hu⟩ := (hm.iff w hw).mpr hp
      obtain ⟨b, v, hv⟩ := ((hk a).iff u (hm.stays w a u hw hu)).mpr hq
      exact ⟨b, v, a, u, hu, hv⟩
  stays w b v hw h := by
    obtain ⟨a, u, hu, hv⟩ := exec_bind_eq_ok.mp h
    exact (hk a).stays u b v (hm.stays w a u hw hu) hv

lemma before {m : Emit σ α} {k : α → Emit σ β} (hm : Accepts f m True)
    (hk : ∀ a, Accepts f (k a) p) : Accepts f (m >>= k) p :=
  (hm.bind hk).congr (by rw [true_and])

lemma after {m : Emit σ α} {k : α → Emit σ β} (hm : Accepts f m p)
    (hk : ∀ a, Accepts f (k a) True) : Accepts f (m >>= k) p :=
  (hm.bind hk).congr (by rw [and_true])

/-- A step may look at the state as long as its success depends on the function alone. -/
lemma get {k : Writer σ → Emit σ β} (hk : ∀ w : Writer σ, w.function = f → Accepts f (k w) p) :
    Accepts f (MonadState.get >>= k) p :=
  ⟨fun w hw => (hk w hw).iff w hw, fun w b v hw h => (hk w hw).stays w b v hw h⟩

lemma captured {m : Emit σ Unit} (hm : Accepts f m p) : Accepts f (Emit.captured m) p where
  iff w hw := by
    rw [← hm.iff { w with out := "" } hw, exec_captured]
    rcases m.exec { w with out := "" } with ⟨e | _, v⟩ <;> simp
  stays w a v hw h := by
    rw [exec_captured] at h
    rcases hex : m.exec { w with out := "" } with ⟨e | _, u⟩
    · simp [hex] at h
    · rw [hex] at h
      obtain ⟨-, rfl⟩ := Prod.mk.inj h
      exact hm.stays { w with out := "" } () u hw hex

lemma separated (separator : String) {steps : List (Emit σ Unit)} {xs : List α} {q : α → Prop}
    (h : List.Forall₂ (fun step x => Accepts f step (q x)) steps xs) :
    Accepts f (Emit.separated separator steps) (∀ x ∈ xs, q x) := by
  induction h with
  | nil => exact (pure ()).congr (by simp)
  | @cons step x rest xs hstep hrest ih =>
    cases rest with
    | nil =>
      cases hrest
      exact hstep.congr (by simp)
    | cons next others =>
      refine (hstep.bind fun _ => (write separator).before fun _ => ih).congr ?_
      simp only [List.forall_mem_cons]

lemma braces {m : Emit σ Unit} (hm : Accepts f m p) : Accepts f (Emit.braces m) p := by
  have hpush : Accepts f (pushIndent : Emit σ Unit) True :=
    of_exec (fun _ => ()) _ exec_pushIndent fun _ => rfl
  have hpop : Accepts f (popIndent : Emit σ Unit) True :=
    of_exec (fun _ => ()) _ exec_popIndent fun _ => rfl
  exact (write _).before fun _ => hpush.before fun _ => hm.after fun _ => hpop.before fun _ =>
    writeIndent.before fun _ => write _

lemma change {g : Writer σ → Writer σ} (hg : ∀ w, (g w).function = w.function) :
    Accepts f (modify g : Emit σ Unit) True :=
  of_exec (fun _ => ()) g (exec_modify g) hg

lemma andThen {m : Emit σ α} {g : Writer σ → Writer σ} (hm : Accepts f m p)
    (hg : ∀ w, (g w).function = w.function) : Accepts f (m.andThen g) p where
  iff w hw := by
    rw [← hm.iff w hw, exec_andThen]
    rcases m.exec w with ⟨e | a, v⟩ <;> simp
  stays w a v hw h := by
    rw [exec_andThen] at h
    obtain ⟨hr, rfl⟩ := Prod.mk.inj h
    rw [hg]
    exact hm.stays w a _ hw (Prod.ext hr rfl)

lemma forM {m : β → Emit σ Unit} {g : α → β} {q : α → Prop} {xs : List α}
    (h : ∀ x ∈ xs, Accepts f (m (g x)) (q x)) :
    Accepts f ((xs.map g).forM m) (∀ x ∈ xs, q x) := by
  induction xs with
  | nil => exact (pure ()).congr (by simp)
  | cons x xs ih =>
    refine ((h x List.mem_cons_self).bind fun _ =>
      ih fun y hy => h y (List.mem_cons_of_mem _ hy)).congr ?_
    simp only [List.forall_mem_cons]

lemma mapM {m : α → Emit σ β} {q : α → Prop} (h : ∀ x, Accepts f (m x) (q x)) (xs : List α) :
    Accepts f (xs.mapM m) (∀ x ∈ xs, q x) := by
  induction xs with
  | nil => exact (pure []).congr (by simp)
  | cons x xs ih =>
    rw [List.mapM_cons]
    refine ((h x).bind fun _ => ih.after fun _ => pure _).congr ?_
    simp only [List.forall_mem_cons]

end Accepts

end Emit

/-! ### Expressions -/

namespace ExprDialect

variable {rule : SampleRule} {f : Option String} {d : ExprDialect σ}

lemma accepts_mapped (t : NameTable) (key : String) :
    Emit.Accepts f (mapped t key : Emit σ String) ((t.get? key).isSome = true) := by
  unfold mapped
  split
  · rename_i h
    exact (Emit.Accepts.pure _).congr (by simp [h])
  · rename_i h
    exact (Emit.Accepts.throw _).congr (by simp [h])

lemma accepts_variableName (d : ExprDialect σ) (name : String) :
    Emit.Accepts f (d.variableName name) True :=
  .of_exec _ id (d.exec_variableName name) fun _ => rfl

/-- The argument of a call is written exactly if it is writable, and so is the index of an array
element. -/
structure OperandAccepts (rule : SampleRule) (f : Option String) (d : ExprDialect σ) (e : Expr) :
    Prop where
  write : Emit.Accepts f (d.expr e) (e.writable rule f = true)
  element : ∀ name ref i, e = .index (.ident name ref) i →
    Emit.Accepts f (d.expr i) (i.writable rule f = true)

/-- A language whose calls are written exactly if they are writable. -/
def CallsAccept (rule : SampleRule) (f : Option String) (d : ExprDialect σ) : Prop :=
  ∀ callee args, (∀ e ∈ args, d.OperandAccepts rule f e) →
    Emit.Accepts f (d.call callee (args.map d.operand))
      ((Expr.call callee args).writable rule f = true)

lemma accepts_callNamed (name : String) {args : List Expr}
    (h : ∀ e ∈ args, d.OperandAccepts rule f e) :
    Emit.Accepts f (callNamed name (args.map d.operand))
      (∀ e ∈ args, e.writable rule f = true) := by
  refine (Emit.Accepts.write _).before fun _ => .after (.separated ", " ?_) fun _ => .write _
  rw [List.map_map, List.forall₂_map_left_iff]
  exact List.forall₂_same.mpr fun e he => (h e he).write

lemma CallsAccept.operand (hd : d.CallsAccept rule f) (e : Expr) : d.OperandAccepts rule f e := by
  -- nothing but an array element has a second way to be written
  have hplain : ∀ {e : Expr}, (∀ name ref i, e ≠ .index (.ident name ref) i) →
      Emit.Accepts f (d.expr e) (e.writable rule f = true) → d.OperandAccepts rule f e := by
    intro e hnot he
    exact ⟨he, fun name ref i h => absurd h (hnot name ref i)⟩
  induction e using Expr.inductOn with
  | absent =>
    refine hplain (by simp) ?_
    rw [ExprDialect.expr]
    exact (Emit.Accepts.throw _).congr (by simp [Expr.writable])
  | ident name ref =>
    refine hplain (by simp) ?_
    have hname : Emit.Accepts f (do Emit.write (← d.variableName name)) True :=
      (d.accepts_variableName name).before fun _ => .write _
    rw [ExprDialect.expr]
    refine .get fun w hw => ?_
    dsimp only
    rw [hw]
    split
    · rename_i hinput
      refine ((Emit.Accepts.throw _).bind fun _ => hname).congr ?_
      simpa [Expr.writable, or_iff_not_imp_left] using hinput
    · rename_i hinput
      refine hname.congr ?_
      simpa [Expr.writable, or_iff_not_imp_left] using hinput
  | literal text kind =>
    refine hplain (by simp) ?_
    rw [ExprDialect.expr]
    exact (Emit.Accepts.write text).congr (by simp [Expr.writable])
  | call callee args ih =>
    refine hplain (by simp) ?_
    rw [ExprDialect.expr, operands_eq_map]
    exact hd callee args ih
  | binary op x y hx hy =>
    refine hplain (by simp) ?_
    rw [ExprDialect.expr]
    refine ((Emit.Accepts.write _).before fun _ => hx.write.bind fun _ =>
      (Emit.Accepts.write _).before fun _ => hy.write.after fun _ => .write _).congr ?_
    rw [Expr.writable, Bool.and_eq_true]
  | unary op x hx =>
    refine hplain (by simp) ?_
    rw [ExprDialect.expr]
    exact ((Emit.Accepts.write _).before fun _ => hx.write).congr (by rw [Expr.writable])
  | assign op lhs rhs hl hr =>
    refine hplain (by simp) ?_
    rw [ExprDialect.expr]
    refine (hl.write.bind fun _ => (Emit.Accepts.write _).before fun _ => hr.write).congr ?_
    rw [Expr.writable, Bool.and_eq_true]
  | member x field hx =>
    refine hplain (by simp) ?_
    rw [ExprDialect.expr]
    exact (hx.write.after fun _ => .write _).congr (by rw [Expr.writable])
  | index x i hx hi =>
    constructor
    · rw [ExprDialect.expr]
      refine (hx.write.bind fun _ => (Emit.Accepts.write _).before fun _ =>
        hi.write.after fun _ => .write _).congr ?_
      rw [Expr.writable, Bool.and_eq_true]
    · intro name ref j h
      obtain ⟨-, rfl⟩ := Expr.index.inj h
      exact hi.write

lemma CallsAccept.expr (hd : d.CallsAccept rule f) (e : Expr) :
    Emit.Accepts f (d.expr e) (e.writable rule f = true) :=
  (hd.operand e).write

lemma CallsAccept.exprText (hd : d.CallsAccept rule f) (e : Expr) :
    Emit.Accepts f (d.exprText e) (e.writable rule f = true) :=
  (hd.expr e).captured

/-! ### Declarations -/

/-- A language whose calls and tables are those of the writable trees. -/
structure Accepting (rule : SampleRule) (f : Option String) (d : ExprDialect σ) : Prop where
  calls : d.CallsAccept rule f
  types : ∃ texture, d.types = typeTable texture
  qualifiers : ∃ param out, d.qualifiers = qualifierTable param out

namespace Accepting

lemma typeName (hd : d.Accepting rule f) (t : ShaderType) :
    Emit.Accepts f (d.typeName t) (t.known = true) := by
  obtain ⟨texture, htypes⟩ := hd.types
  refine (accepts_mapped d.types t.name).congr ?_
  rw [htypes, ShaderType.known,
    NameTable.isSome_get? (typeTable texture) (typeTable "") rfl (by simp [typeTable])]

lemma qualifierOut (hd : d.Accepting rule f) : Emit.Accepts f (d.qualifier "out") True := by
  obtain ⟨param, out, hqualifiers⟩ := hd.qualifiers
  refine (accepts_mapped d.qualifiers "out").congr ?_
  rw [hqualifiers, NameTable.isSome_get? (qualifierTable param out) (qualifierTable "" "") rfl
    (by simp [qualifierTable])]
  decide

lemma qualifier (hd : d.Accepting rule f) (q : Qualifier) :
    Emit.Accepts f (d.qualifier q.text) (q.known = true) := by
  obtain ⟨param, out, hqualifiers⟩ := hd.qualifiers
  refine (accepts_mapped d.qualifiers q.text).congr ?_
  rw [hqualifiers, Qualifier.known, NameTable.isSome_get? (qualifierTable param out)
    (qualifierTable "" "") rfl (by simp [qualifierTable])]

lemma varDeclText (hd : d.Accepting rule f) (v : VarDecl) :
    Emit.Accepts f (d.varDeclText v) (v.writable rule f = true) := by
  have hvalue : ∀ head : String, Emit.Accepts f
      (if v.init.isAbsent then Pure.pure head
        else do return head ++ " = " ++ (← d.exprText v.init) : Emit σ String)
      ((v.init.isAbsent || v.init.writable rule f) = true) := by
    intro head
    split
    · rename_i h
      exact (Emit.Accepts.pure head).congr (by simp [h])
    · rename_i h
      exact ((hd.calls.exprText v.init).after fun _ => .pure _).congr (by simp [h])
  refine ((hd.typeName _).bind fun type => (hd.qualifier _).bind fun qualifier =>
    (d.accepts_variableName _).before fun name => hvalue _).congr ?_
  simp only [VarDecl.writable, Bool.and_eq_true, and_assoc]

lemma varDecl (hd : d.Accepting rule f) (v : VarDecl) :
    Emit.Accepts f (d.varDecl v) (v.writable rule f = true) :=
  (hd.varDeclText v).after fun _ => .writeLine _

lemma defineConstant (hd : d.Accepting rule f) {v : VarDecl} (hv : v.var.qualifier = .const) :
    Emit.Accepts f (d.defineConstant v) (v.constWritable rule f = true) := by
  have hconst : Qualifier.known .const = true := by decide
  have hrest : Emit.Accepts f (do
      let define ← d.qualifier v.var.qualifier.text
      let value ← d.exprText v.init
      Emit.writeLine (define ++ " " ++ (← d.variableName v.var.name) ++ " (" ++ value ++ ")"))
      (v.init.writable rule f = true) := by
    refine ((hd.qualifier _).bind fun _ => (hd.calls.exprText _).after fun _ =>
      (d.accepts_variableName _).before fun _ => .writeLine _).congr ?_
    simp [hv, hconst]
  unfold ExprDialect.defineConstant
  dsimp only
  split
  · rename_i h
    exact ((Emit.Accepts.throw _).bind fun _ => hrest).congr (by simp [VarDecl.constWritable, h])
  · rename_i h
    exact hrest.congr (by simp [VarDecl.constWritable, h])

lemma paramText (hd : d.Accepting rule f) (p : VarDecl) :
    Emit.Accepts f (d.paramText p) (p.var.type.known = true) := by
  refine (hd.typeName _).after fun type => (d.accepts_variableName _).before fun name => ?_
  dsimp only
  split
  · exact hd.qualifierOut.before fun _ => .pure _
  · exact .pure _

end Accepting

/-! ### Blocks -/

lemma accepts_compound (d : ExprDialect σ) {body : Emit σ Unit} {p : Prop}
    (hbody : Emit.Accepts f body p) : Emit.Accepts f (d.compound body) p := by
  unfold compound
  refine .get fun w _ => .before (.change fun _ => rfl) fun _ => ?_
  split
  · rw [entryBody_eq]
    refine .braces ((Emit.Accepts.writeLine _).before fun _ => .after ?_ fun _ =>
      (d.accepts_variableName _).before fun _ => .writeLine _)
    exact .before (.change fun _ => rfl) fun _ => hbody.andThen fun _ => rfl
  · exact hbody.braces

end ExprDialect

/-! ### Statements -/

namespace StmtDialect

variable {rule : SampleRule} {f : Option String} {d : StmtDialect σ}

/-- A language that also declares exactly the writable variables inside a function. -/
structure Accepting (rule : SampleRule) (f : Option String) (d : StmtDialect σ) : Prop
    extends ExprDialect.Accepting rule f d.toExprDialect where
  declare : ∀ v, Emit.Accepts f (d.declare v) (v.localWritable rule f = true)

lemma Accepting.loopStart (hd : d.Accepting rule f) (s : Stmt) :
    Emit.Accepts f (d.loopStart s) (s.startWritable rule f = true) := by
  cases s with
  | absent => exact (Emit.Accepts.pure ()).congr (by simp [Stmt.startWritable])
  | decl v => exact (hd.varDeclText v).after fun _ => .write _
  | expr x => exact hd.calls.expr x
  | _ => exact (Emit.Accepts.throw _).congr (by simp [Stmt.startWritable])

lemma Accepting.optional (hd : d.Accepting rule f) (e : Expr) :
    Emit.Accepts f (d.optional e) ((e.isAbsent || e.writable rule f) = true) := by
  unfold StmtDialect.optional
  split
  · rename_i h
    exact (Emit.Accepts.pure ()).congr (by simp [h])
  · rename_i h
    exact (hd.calls.expr e).congr (by simp [h])

lemma accepts_stmts {ss : List Stmt}
    (h : ∀ s ∈ ss, Emit.Accepts f (d.stmt s) (s.writable rule f = true)) :
    Emit.Accepts f (d.stmts ss) (Stmt.allWritable rule f ss = true) := by
  induction ss with
  | nil =>
    rw [stmts]
    exact (Emit.Accepts.pure ()).congr (by simp [Stmt.allWritable])
  | cons s ss ih =>
    have hs := h s List.mem_cons_self
    have hss := ih fun s' hs' => h s' (List.mem_cons_of_mem _ hs')
    rw [stmts]
    exact (hs.bind fun _ => hss).congr (by rw [Stmt.allWritable, Bool.and_eq_true])

lemma Accepting.stmt_branch (hd : d.Accepting rule f) (s : Stmt) :
    Emit.Accepts f (d.stmt s) (s.writable rule f = true) ∧
      Emit.Accepts f (d.branch s) (s.writable rule f = true) := by
  -- a branch that is no block is the statement in braces
  have hsingle : ∀ {s : Stmt}, d.branch s = Emit.braces (d.stmt s) →
      Emit.Accepts f (d.stmt s) (s.writable rule f = true) →
      Emit.Accepts f (d.stmt s) (s.writable rule f = true) ∧
        Emit.Accepts f (d.branch s) (s.writable rule f = true) := by
    intro s hbranch hs
    exact ⟨hs, hbranch ▸ hs.braces⟩
  induction s using Stmt.inductOn with
  | absent =>
    refine hsingle rfl ?_
    rw [stmt]
    exact (Emit.Accepts.throw _).congr (by simp [Stmt.writable])
  | block ss ih =>
    have hss : Emit.Accepts f (d.compound (d.stmts ss))
        ((Stmt.block ss).writable rule f = true) := by
      rw [Stmt.writable]
      exact d.accepts_compound (accepts_stmts fun s hs => (ih s hs).1)
    constructor
    · rw [stmt]
      exact Emit.Accepts.writeIndent.before fun _ => hss.after fun _ => .write _
    · rw [branch, contents]
      exact hss
  | decl v =>
    refine hsingle rfl ?_
    rw [stmt, Stmt.writable]
    exact hd.declare v
  | expr x =>
    refine hsingle rfl ?_
    rw [stmt, Stmt.writable]
    exact Emit.Accepts.writeIndent.before fun _ => (hd.calls.expr x).after fun _ => .write _
  | returns value =>
    refine hsingle rfl ?_
    rw [stmt, Stmt.writable]
    refine Emit.Accepts.writeIndent.before fun _ => ?_
    split
    · rename_i h
      refine Emit.Accepts.congr (p := True) (.get fun w _ => ?_) (by simp [h])
      dsimp only
      split
      · exact .write _
      · exact (d.accepts_variableName _).before fun _ => .write _
    · rename_i h
      refine ((Emit.Accepts.write _).before fun _ => (hd.calls.expr value).after fun _ =>
        .write _).congr (by simp [h])
  | ifElse cond yes no hyes hno =>
    have helse : Emit.Accepts f (do
        unless no.isAbsent do
          Emit.write " else "
          d.branchOf no (contents d no) (stmt d no)
        Emit.write "\n") ((no.isAbsent || no.writable rule f) = true) := by
      dsimp only
      split
      · rename_i h
        exact (Emit.Accepts.write _).congr (by simp [h])
      · rename_i h
        exact ((Emit.Accepts.write _).before fun _ => hno.2.after fun _ => .write _).congr
          (by simp [h])
    refine hsingle rfl ?_
    rw [stmt]
    refine (Emit.Accepts.writeIndent.before fun _ => (Emit.Accepts.write _).before fun _ =>
      (hd.calls.expr cond).bind fun _ => (Emit.Accepts.write _).before fun _ =>
      hyes.2.bind fun _ => helse).congr ?_
    simp only [Stmt.writable, Bool.and_eq_true, and_assoc]
  | loop init cond post body hinit hbody =>
    refine hsingle rfl ?_
    rw [stmt]
    refine (Emit.Accepts.writeIndent.before fun _ => (Emit.Accepts.write _).before fun _ =>
      (hd.loopStart init).bind fun _ => (Emit.Accepts.write _).before fun _ =>
      (hd.optional cond).bind fun _ => (Emit.Accepts.write _).before fun _ =>
      (hd.optional post).bind fun _ => (Emit.Accepts.write _).before fun _ =>
      hbody.2.after fun _ => .write _).congr ?_
    simp only [Stmt.writable, Bool.and_eq_true, and_assoc]
  | discard =>
    refine hsingle rfl ?_
    rw [stmt]
    exact (Emit.Accepts.writeLine _).congr (by simp [Stmt.writable])
  | breakLoop =>
    refine hsingle rfl ?_
    rw [stmt]
    exact (Emit.Accepts.writeLine _).congr (by simp [Stmt.writable])
  | continueLoop =>
    refine hsingle rfl ?_
    rw [stmt]
    exact (Emit.Accepts.writeLine _).congr (by simp [Stmt.writable])

lemma Accepting.funcWithSignature (hd : d.Accepting rule f) (signature : String) (g : FuncDef) :
    Emit.Accepts f (d.funcWithSignature signature g)
      (Stmt.allWritable rule f g.body = true) :=
  Emit.Accepts.writeIndent.before fun _ => (Emit.Accepts.write _).before fun _ =>
    (d.accepts_compound (accepts_stmts fun s _ => (hd.stmt_branch s).1)).after fun _ => .write _

end StmtDialect

/-! ### Declarations of a shader -/

namespace Dialect

variable {d : Dialect σ} {p : Prop}

lemma accepts_func {f : FuncDef} (h : Emit.Accepts (some f.name) (d.define f) p) :
    Emit.Accepts none (d.decl (.func f)) p where
  iff w hw := by
    rw [← h.iff { w with function := some f.name } rfl, exec_func]
    rcases (d.define f).exec { w with function := some f.name } with ⟨e | a, v⟩ <;> simp
  stays w a v _ hv := by
    rw [exec_func] at hv
    obtain ⟨-, rfl⟩ := Prod.mk.inj hv
    rfl

lemma accepts_decls {q : Decl → Prop} {xs : List Decl}
    (h : ∀ x ∈ xs, Emit.Accepts none (d.decl x) (q x)) :
    Emit.Accepts none (d.decls xs) (∀ x ∈ xs, q x) := by
  induction xs with
  | nil => exact (Emit.Accepts.pure ()).congr (by simp)
  | cons x xs ih =>
    refine ((h x List.mem_cons_self).bind fun _ =>
      ih fun y hy => h y (List.mem_cons_of_mem _ hy)).congr ?_
    simp only [List.forall_mem_cons]

/-- Where all declarations are written, each of them is written from outside of the functions. -/
lemma Tame.exists_exec_decl {g : σ → σ} (hd : d.Tame g) {xs : List Decl} {w v : Writer σ}
    (hw : w.Calm {}) (h : (d.decls xs).exec w = (.ok (), v)) {x : Decl} (hx : x ∈ xs) :
    ∃ u u', u.Calm {} ∧ (d.decl x).exec u = (.ok (), u') := by
  induction xs generalizing w with
  | nil => simp at hx
  | cons y ys ih =>
    obtain ⟨_, u, hy, hys⟩ := Emit.exec_bind_eq_ok.mp h
    rcases List.mem_cons.mp hx with rfl | hx
    · exact ⟨w, u, hw, hy⟩
    · have hu := (hd.decl y).keeps w hw
      rw [hy] at hu
      exact ih hu hys hx

end Dialect

end Shaderwright
