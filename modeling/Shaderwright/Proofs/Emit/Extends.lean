import Mathlib.Tactic.Common
import Shaderwright.Proofs.Emit.Appends

/-!
The output only grows, and nobody looks at it. From every state of the writer a step puts a text
behind the output, also where it fails on the way, and neither the text nor anything else that it
does depends on the output in front. Unlike a step that writes an expression, a step that writes a
statement may change the rest of the state.
-/

namespace Shaderwright

variable {σ α β : Type} {R : σ → σ → Prop}

namespace Emit

/-- Whatever the output is, the step gives the same result, puts the same text behind it and leaves
the same state. -/
def Extends (m : Emit σ α) : Prop :=
  ∀ w : Writer σ, ∃ (r : Except Fault α) (text : String) (v : Writer σ),
    ∀ out, m.exec { w with out := out } = (r, { v with out := out ++ text })

lemma Appends.extends {m : Emit σ α} (hm : Appends R m) : Extends m := by
  intro w
  obtain ⟨r, text, own, -, hexec⟩ := hm w
  exact ⟨r, text, { w with own := own }, hexec⟩

namespace Extends

lemma of_exec {m : Emit σ α} (r : Writer σ → Except Fault α) (g : Writer σ → Writer σ)
    (hm : ∀ w, m.exec w = (r w, g w)) (hr : ∀ w out, r { w with out := out } = r w)
    (hg : ∀ w out, g { w with out := out } = { g w with out := out }) : Extends m := by
  intro w
  refine ⟨r w, "", g w, fun out => ?_⟩
  rw [hm, hr, hg, String.append_empty]

lemma pure (a : α) : Extends (Pure.pure a : Emit σ α) :=
  of_exec (fun _ => .ok a) id (fun _ => rfl) (fun _ _ => rfl) fun _ _ => rfl

lemma throw (e : Fault) : Extends (MonadExcept.throw e : Emit σ α) :=
  of_exec (fun _ => .error e) id (fun _ => rfl) (fun _ _ => rfl) fun _ _ => rfl

lemma change {g : Writer σ → Writer σ}
    (hg : ∀ w out, g { w with out := out } = { g w with out := out }) :
    Extends (modify g : Emit σ Unit) :=
  of_exec (fun _ => .ok ()) g (fun _ => rfl) (fun _ _ => rfl) hg

lemma bind {m : Emit σ α} {k : α → Emit σ β} (hm : Extends m) (hk : ∀ a, Extends (k a)) :
    Extends (m >>= k) := by
  intro w
  obtain ⟨r, text, v, hexec⟩ := hm w
  cases r with
  | error e =>
    refine ⟨.error e, text, v, fun out => ?_⟩
    rw [exec_bind, hexec]
  | ok a =>
    obtain ⟨r', text', v', hexec'⟩ := hk a v
    refine ⟨r', text ++ text', v', fun out => ?_⟩
    rw [exec_bind_of_ok (hexec out), hexec', String.append_assoc]

lemma get {k : Writer σ → Emit σ α} (hk : ∀ w, Extends (k w))
    (hsame : ∀ w out, k { w with out := out } = k w) : Extends (MonadState.get >>= k) := by
  intro w
  obtain ⟨r, text, v, hexec⟩ := hk w w
  refine ⟨r, text, v, fun out => ?_⟩
  rw [exec_bind_of_ok (exec_get _), hsame]
  exact hexec out

lemma write (text : String) : Extends (Emit.write text : Emit σ Unit) :=
  fun w => ⟨.ok (), text, w, fun _ => rfl⟩

lemma writeIndent : Extends (Emit.writeIndent : Emit σ Unit) :=
  fun w => ⟨.ok (), indentation w.depth, w, fun _ => rfl⟩

lemma writeLine (text : String) : Extends (Emit.writeLine text : Emit σ Unit) :=
  bind writeIndent fun _ => write _

lemma andThen {m : Emit σ α} {g : Writer σ → Writer σ} (hm : Extends m)
    (hg : ∀ w out, g { w with out := out } = { g w with out := out }) : Extends (m.andThen g) := by
  intro w
  obtain ⟨r, text, v, hexec⟩ := hm w
  refine ⟨r, text, g v, fun out => ?_⟩
  rw [exec_andThen, hexec, hg]

/-- The output is put aside for a step and put back behind it, whatever the step does. -/
lemma captured (m : Emit σ Unit) : Extends (Emit.captured m) := by
  intro w
  rcases hexec : m.exec { w with out := "" } with ⟨e | _, v⟩
  · exact ⟨.error e, "", v, fun out => by simp [exec_captured, hexec]⟩
  · exact ⟨.ok v.out, "", v, fun out => by simp [exec_captured, hexec]⟩

lemma mapM {m : α → Emit σ β} (h : ∀ x, Extends (m x)) (xs : List α) : Extends (xs.mapM m) := by
  induction xs with
  | nil => exact pure []
  | cons x xs ih =>
    rw [List.mapM_cons]
    exact bind (h x) fun _ => bind ih fun _ => pure _

lemma braces {m : Emit σ Unit} (hm : Extends m) : Extends (Emit.braces m) :=
  bind (write _) fun _ => bind (change fun _ _ => rfl) fun _ => bind hm fun _ =>
    bind (change fun _ _ => rfl) fun _ => bind writeIndent fun _ => write _

end Extends

end Emit

/-! ### Declarations -/

namespace ExprDialect

open Emit (Extends)

variable (d : ExprDialect σ)

lemma extends_mapped (t : NameTable) (key : String) : Extends (mapped t key : Emit σ String) := by
  unfold mapped
  split
  · exact .pure _
  · exact .throw _

lemma extends_variableName (name : String) : Extends (d.variableName name) :=
  .get (fun _ => .pure _) fun _ _ => rfl

lemma extends_varDeclText (v : VarDecl) : Extends (d.varDeclText v) := by
  refine .bind (extends_mapped _ _) fun type => .bind (extends_mapped _ _) fun qualifier =>
    .bind (d.extends_variableName _) fun name => ?_
  dsimp only
  split
  · exact .pure _
  · exact .bind (.captured _) fun _ => .pure _

lemma extends_varDecl (v : VarDecl) : Extends (d.varDecl v) :=
  .bind (d.extends_varDeclText v) fun _ => .writeLine _

lemma extends_defineConstant (v : VarDecl) : Extends (d.defineConstant v) := by
  have hrest : Extends (do
      let define ← d.qualifier v.var.qualifier.text
      let value ← d.exprText v.init
      Emit.writeLine (define ++ " " ++ (← d.variableName v.var.name) ++ " (" ++ value ++ ")")) :=
    .bind (extends_mapped _ _) fun _ => .bind (.captured _) fun _ =>
      .bind (d.extends_variableName _) fun _ => .writeLine _
  unfold defineConstant
  dsimp only
  split
  · exact .bind (.throw _) fun _ => hrest
  · exact hrest

lemma extends_paramText (p : VarDecl) : Extends (d.paramText p) := by
  refine .bind (extends_mapped _ _) fun type => .bind (d.extends_variableName _) fun name => ?_
  dsimp only
  split
  · exact .bind (extends_mapped _ _) fun _ => .pure _
  · exact .pure _

lemma extends_compound {body : Emit σ Unit} (hbody : Extends body) : Extends (d.compound body) := by
  unfold compound
  refine .get (fun w => .bind (.change fun _ _ => rfl) fun _ => ?_) fun _ _ => rfl
  split
  · rw [entryBody_eq]
    exact .braces (.bind (.writeLine _) fun _ => .bind (.bind (.change fun _ _ => rfl) fun _ =>
      hbody.andThen fun _ _ => rfl) fun _ => .bind (d.extends_variableName _) fun _ => .writeLine _)
  · exact hbody.braces

end ExprDialect

/-! ### Statements -/

/-- Expressions and declarations of the language only extend the output. -/
structure StmtDialect.Extends (d : StmtDialect σ) : Prop where
  expr : ∀ e, Emit.Extends (d.expr e)
  declare : ∀ v, Emit.Extends (d.declare v)

namespace StmtDialect

variable {d : StmtDialect σ}

lemma Extends.loopStart (hd : d.Extends) (s : Stmt) : Emit.Extends (d.loopStart s) := by
  cases s with
  | absent => exact .pure ()
  | decl v => exact .bind (d.extends_varDeclText v) fun _ => .write _
  | expr x => exact hd.expr x
  | _ => exact .throw _

lemma Extends.optional (hd : d.Extends) (e : Expr) : Emit.Extends (d.optional e) := by
  unfold StmtDialect.optional
  split
  · exact .pure ()
  · exact hd.expr e

lemma extends_stmts {ss : List Stmt} (h : ∀ s ∈ ss, Emit.Extends (d.stmt s)) :
    Emit.Extends (d.stmts ss) := by
  induction ss with
  | nil =>
    rw [stmts]
    exact .pure ()
  | cons s ss ih =>
    rw [stmts]
    rw [List.forall_mem_cons] at h
    exact .bind h.1 fun _ => ih h.2

lemma Extends.stmt_branch (hd : d.Extends) (s : Stmt) :
    Emit.Extends (d.stmt s) ∧ Emit.Extends (d.branch s) := by
  -- a branch that is no block is the statement in braces
  have hsingle : ∀ {s : Stmt}, d.branch s = Emit.braces (d.stmt s) → Emit.Extends (d.stmt s) →
      Emit.Extends (d.stmt s) ∧ Emit.Extends (d.branch s) := by
    intro s hbranch hs
    exact ⟨hs, hbranch ▸ hs.braces⟩
  induction s using Stmt.inductOn with
  | absent =>
    refine hsingle rfl ?_
    rw [stmt]
    exact .throw _
  | block ss ih =>
    have hss : Emit.Extends (d.compound (d.stmts ss)) :=
      d.extends_compound (extends_stmts fun s hs => (ih s hs).1)
    constructor
    · rw [stmt]
      exact .bind .writeIndent fun _ => .bind hss fun _ => .write _
    · rw [branch, contents]
      exact hss
  | decl v =>
    refine hsingle rfl ?_
    rw [stmt]
    exact hd.declare v
  | expr x =>
    refine hsingle rfl ?_
    rw [stmt]
    exact .bind .writeIndent fun _ => .bind (hd.expr x) fun _ => .write _
  | returns value =>
    refine hsingle rfl ?_
    rw [stmt]
    refine .bind .writeIndent fun _ => ?_
    split
    · refine .get (fun w => ?_) fun _ _ => rfl
      dsimp only
      split
      · exact .write _
      · exact .bind (d.extends_variableName _) fun _ => .write _
    · exact .bind (.write _) fun _ => .bind (hd.expr value) fun _ => .write _
  | ifElse cond yes no hyes hno =>
    refine hsingle rfl ?_
    rw [stmt]
    refine .bind .writeIndent fun _ => .bind (.write _) fun _ => .bind (hd.expr cond) fun _ =>
      .bind (.write _) fun _ => .bind hyes.2 fun _ => ?_
    dsimp only
    split
    · exact .write _
    · exact .bind (.write _) fun _ => .bind hno.2 fun _ => .write _
  | loop init cond post body _ hbody =>
    refine hsingle rfl ?_
    rw [stmt]
    exact .bind .writeIndent fun _ => .bind (.write _) fun _ => .bind (hd.loopStart init) fun _ =>
      .bind (.write _) fun _ => .bind (hd.optional cond) fun _ => .bind (.write _) fun _ =>
      .bind (hd.optional post) fun _ => .bind (.write _) fun _ => .bind hbody.2 fun _ => .write _
  | discard =>
    refine hsingle rfl ?_
    rw [stmt]
    exact .writeLine _
  | breakLoop =>
    refine hsingle rfl ?_
    rw [stmt]
    exact .writeLine _
  | continueLoop =>
    refine hsingle rfl ?_
    rw [stmt]
    exact .writeLine _

lemma Extends.stmts (hd : d.Extends) (ss : List Stmt) : Emit.Extends (d.stmts ss) :=
  extends_stmts fun s _ => (hd.stmt_branch s).1

lemma Extends.funcWithSignature (hd : d.Extends) (signature : String) (f : FuncDef) :
    Emit.Extends (d.funcWithSignature signature f) :=
  .bind .writeIndent fun _ => .bind (.write _) fun _ =>
    .bind (d.extends_compound (hd.stmts f.body)) fun _ => .write _

lemma Extends.funcDef (hd : d.Extends) (f : FuncDef) : Emit.Extends (d.funcDef f) :=
  .bind (ExprDialect.extends_mapped _ _) fun _ => .bind (.mapM d.extends_paramText _) fun _ =>
    hd.funcWithSignature _ f

end StmtDialect

end Shaderwright
