import Mathlib.Tactic.Common
import Shaderwright.Emit.Names
import Shaderwright.Emit.Shader
import Shaderwright.Proofs.Emit.Exec
import Shaderwright.Proofs.Shader.Parts

/-!
The discipline of a code writer. What a step writes does not depend on what was written before,
and a step that succeeds leaves the indentation, the function, the accumulator and the mark of
the entry point as it found them. A target language keeps to this with all its declarations as
soon as its own calls and declarations do.
-/

namespace Shaderwright

variable {σ α β : Type}

/-- Where a step is written: in which function, and with which accumulator. -/
structure Scope where
  function : Option String := none
  accumulator : String := ""

namespace Writer

/-- The writer is in this scope, and the next block is an ordinary one. -/
structure Calm (c : Scope) (w : Writer σ) : Prop where
  function : w.function = c.function
  accumulator : w.accumulator = c.accumulator
  entry : w.entry.armed = false

/-- The second writer has `before` in front of its output and the state `g` gives it. -/
structure Lifts (before : String) (g : σ → σ) (w w' : Writer σ) : Prop where
  out : w'.out = before ++ w.out
  depth : w'.depth = w.depth
  own : w'.own = g w.own

lemma Lifts.write {before : String} {g : σ → σ} {w w' : Writer σ} (h : Lifts before g w w')
    (text : String) :
    Lifts before g { w with out := w.out ++ text } { w' with out := w'.out ++ text } :=
  ⟨by rw [h.out, String.append_assoc], h.depth, h.own⟩

end Writer

open Writer

namespace Emit

/-- A step that keeps to the discipline in a scope, under the change `g` of the own state. -/
structure Tame (c : Scope) (g : σ → σ) (m : Emit σ α) : Prop where
  keeps : ∀ w, Calm c w → Calm c (m.exec w).2
  balanced : ∀ w a v, Calm c w → m.exec w = (.ok a, v) → v.depth = w.depth
  lifts : ∀ before w w', Calm c w → Calm c w' → Lifts before g w w' →
    (m.exec w').1 = (m.exec w).1 ∧ Lifts before g (m.exec w).2 (m.exec w').2

namespace Tame

variable {c : Scope} {g : σ → σ}

lemma pure (a : α) : Tame c g (Pure.pure a : Emit σ α) where
  keeps _ hw := hw
  balanced w a v _ h := by
    obtain ⟨-, rfl⟩ := Prod.mk.inj h
    rfl
  lifts _ _ _ _ _ hl := ⟨rfl, hl⟩

lemma throw (e : Fault) : Tame c g (MonadExcept.throw e : Emit σ α) where
  keeps _ hw := hw
  balanced w a v _ h := by simp at h
  lifts _ _ _ _ _ hl := ⟨rfl, hl⟩

lemma bind {m : Emit σ α} {k : α → Emit σ β} (hm : Tame c g m) (hk : ∀ a, Tame c g (k a)) :
    Tame c g (m >>= k) where
  keeps w hw := by
    have hv := hm.keeps w hw
    rw [exec_bind]
    generalize m.exec w = x at hv ⊢
    obtain ⟨e | a, v⟩ := x
    · exact hv
    · exact (hk a).keeps v hv
  balanced w b v hw h := by
    obtain ⟨a, u, hu, hv⟩ := exec_bind_eq_ok.mp h
    have hcalm := hm.keeps w hw
    rw [hu] at hcalm
    exact ((hk a).balanced u b v hcalm hv).trans (hm.balanced w a u hw hu)
  lifts before w w' hw hw' hl := by
    obtain ⟨hr, hl'⟩ := hm.lifts before w w' hw hw' hl
    have hv := hm.keeps w hw
    have hv' := hm.keeps w' hw'
    rw [exec_bind, exec_bind]
    generalize m.exec w = x at hr hl' hv ⊢
    generalize m.exec w' = x' at hr hl' hv' ⊢
    obtain ⟨r, v⟩ := x
    obtain ⟨r', v'⟩ := x'
    obtain rfl : r' = r := hr
    cases r' with
    | error e => exact ⟨rfl, hl'⟩
    | ok a => exact (hk a).lifts before v v' hv hv' hl'

/-- A step that looks at the state may look at what a change does not touch. -/
lemma get {k : Writer σ → Emit σ β} (hk : ∀ w, Calm c w → Tame c g (k w))
    (hsame : ∀ before w w', Calm c w → Calm c w' → Lifts before g w w' → k w' = k w) :
    Tame c g (MonadState.get >>= k) where
  keeps w hw := (hk w hw).keeps w hw
  balanced w b v hw h := (hk w hw).balanced w b v hw h
  lifts before w w' hw hw' hl := by
    have hlift := (hk w hw).lifts before w w' hw hw' hl
    rw [exec_bind, exec_bind]
    simp only [exec_get]
    rwa [hsame before w w' hw hw' hl]

lemma write (text : String) : Tame c g (Emit.write text : Emit σ Unit) where
  keeps _ hw := ⟨hw.function, hw.accumulator, hw.entry⟩
  balanced w a v _ h := by
    obtain ⟨-, rfl⟩ := Prod.mk.inj h
    rfl
  lifts _ _ _ _ _ hl := ⟨rfl, hl.write text⟩

lemma writeIndent : Tame c g (Emit.writeIndent : Emit σ Unit) where
  keeps _ hw := ⟨hw.function, hw.accumulator, hw.entry⟩
  balanced w a v _ h := by
    obtain ⟨-, rfl⟩ := Prod.mk.inj h
    rfl
  lifts before w w' _ _ hl := by
    refine ⟨rfl, ?_⟩
    have hwrite := hl.write (indentation w.depth)
    rw [exec_writeIndent, exec_writeIndent]
    simpa only [hl.depth] using hwrite

lemma writeLine (text : String) : Tame c g (Emit.writeLine text : Emit σ Unit) :=
  bind writeIndent fun _ => write _

lemma captured {m : Emit σ Unit} (hm : Tame c g m) : Tame c g (Emit.captured m) where
  keeps w hw := by
    have hv := hm.keeps { w with out := "" } ⟨hw.function, hw.accumulator, hw.entry⟩
    rw [exec_captured]
    generalize m.exec { w with out := "" } = x at hv ⊢
    obtain ⟨e | _, v⟩ := x <;> exact ⟨hv.function, hv.accumulator, hv.entry⟩
  balanced w a v hw h := by
    rw [exec_captured] at h
    rcases hex : m.exec { w with out := "" } with ⟨e | _, u⟩
    · simp [hex] at h
    · rw [hex] at h
      obtain ⟨-, rfl⟩ := Prod.mk.inj h
      exact hm.balanced { w with out := "" } () u ⟨hw.function, hw.accumulator, hw.entry⟩ hex
  lifts before w w' hw hw' hl := by
    have hempty : Lifts "" g { w with out := "" } { w' with out := "" } :=
      ⟨rfl, hl.depth, hl.own⟩
    obtain ⟨hr, hl'⟩ := hm.lifts "" { w with out := "" } { w' with out := "" }
      ⟨hw.function, hw.accumulator, hw.entry⟩ ⟨hw'.function, hw'.accumulator, hw'.entry⟩ hempty
    rw [exec_captured, exec_captured]
    generalize m.exec { w with out := "" } = x at hr hl' ⊢
    generalize m.exec { w' with out := "" } = x' at hr hl' ⊢
    obtain ⟨r, v⟩ := x
    obtain ⟨r', v'⟩ := x'
    obtain rfl : r' = r := hr
    have hout : v'.out = v.out := by simpa using hl'.out
    cases r' with
    | error e => exact ⟨rfl, hl.out, hl'.depth, hl'.own⟩
    | ok _ => exact ⟨by simp [hout], hl.out, hl'.depth, hl'.own⟩

lemma separated (separator : String) {steps : List (Emit σ Unit)}
    (h : ∀ step ∈ steps, Tame c g step) : Tame c g (Emit.separated separator steps) := by
  induction steps with
  | nil => exact pure ()
  | cons step rest ih =>
    have hstep := h step List.mem_cons_self
    have hrest := ih fun s hs => h s (List.mem_cons_of_mem _ hs)
    cases rest with
    | nil => exact hstep
    | cons next others => exact bind hstep fun _ => bind (write _) fun _ => hrest

lemma indented {m : Emit σ Unit} (hm : Tame c g m) :
    Tame c g (do pushIndent; m; popIndent : Emit σ Unit) := by
  have hpush : ∀ w : Writer σ, Calm c w → Calm c { w with depth := w.depth + 1 } :=
    fun w hw => ⟨hw.function, hw.accumulator, hw.entry⟩
  constructor
  · intro w hw
    have hv := hm.keeps _ (hpush w hw)
    rw [exec_indented]
    generalize m.exec { w with depth := w.depth + 1 } = x at hv ⊢
    obtain ⟨e | _, v⟩ := x
    · exact hv
    · exact ⟨hv.function, hv.accumulator, hv.entry⟩
  · intro w a v hw h
    rw [exec_indented] at h
    rcases hex : m.exec { w with depth := w.depth + 1 } with ⟨e | _, u⟩
    · simp [hex] at h
    · have hdepth := hm.balanced _ () u (hpush w hw) hex
      rw [hex] at h
      obtain ⟨-, rfl⟩ := Prod.mk.inj h
      simp [hdepth]
  · intro before w w' hw hw' hl
    have hdeeper : Lifts before g { w with depth := w.depth + 1 }
        { w' with depth := w'.depth + 1 } := ⟨hl.out, congrArg (· + 1) hl.depth, hl.own⟩
    obtain ⟨hr, hl'⟩ := hm.lifts before _ _ (hpush w hw) (hpush w' hw') hdeeper
    rw [exec_indented, exec_indented]
    generalize m.exec { w with depth := w.depth + 1 } = x at hr hl' ⊢
    generalize m.exec { w' with depth := w'.depth + 1 } = x' at hr hl' ⊢
    obtain ⟨r, v⟩ := x
    obtain ⟨r', v'⟩ := x'
    obtain rfl : r' = r := hr
    cases r' with
    | error e => exact ⟨rfl, hl'⟩
    | ok _ => exact ⟨rfl, hl'.out, congrArg (· - 1) hl'.depth, hl'.own⟩

lemma braces {m : Emit σ Unit} (hm : Tame c g m) : Tame c g (Emit.braces m) := by
  rw [braces_eq]
  exact bind (write _) fun _ => bind hm.indented fun _ => bind writeIndent fun _ => write _

/-- A change of the state that touches neither the output nor the depth nor the own state. -/
def Silent (h : Writer σ → Writer σ) : Prop :=
  ∀ w, (h w).out = w.out ∧ (h w).depth = w.depth ∧ (h w).own = w.own

lemma lifts_of_silent {h : Writer σ → Writer σ} (hs : Silent h) {before : String}
    {w w' : Writer σ} (hl : Lifts before g w w') : Lifts before g (h w) (h w') := by
  obtain ⟨hout, hdepth, hown⟩ := hs w
  obtain ⟨hout', hdepth', hown'⟩ := hs w'
  exact ⟨by rw [hout', hout, hl.out], by rw [hdepth', hdepth, hl.depth],
    by rw [hown', hown, hl.own]⟩

/-- A step in an inner scope, which is left again whether the step succeeds or not. -/
lemma inScope {m : Emit σ α} {c' : Scope} {enter leave : Writer σ → Writer σ}
    (hm : Tame c' g m) (henter : ∀ w, Calm c w → Calm c' (enter w))
    (hleave : ∀ w, Calm c' w → Calm c (leave w)) (hs : Silent enter) (hs' : Silent leave) :
    Tame c g (modify enter >>= fun _ => m.andThen leave) where
  keeps w hw := hleave _ (hm.keeps _ (henter w hw))
  balanced w a v hw h := by
    rw [exec_bind_of_ok (exec_modify enter w), exec_andThen] at h
    obtain ⟨hr, rfl⟩ := Prod.mk.inj h
    have hdepth := hm.balanced (enter w) a _ (henter w hw) (Prod.ext hr rfl)
    rw [(hs' _).2.1, hdepth, (hs w).2.1]
  lifts before w w' hw hw' hl := by
    obtain ⟨hr, hl'⟩ :=
      hm.lifts before _ _ (henter w hw) (henter w' hw') (lifts_of_silent hs hl)
    exact ⟨hr, lifts_of_silent hs' hl'⟩

lemma silent {h : Writer σ → Writer σ} (hcalm : ∀ w, Calm c w → Calm c (h w)) (hs : Silent h) :
    Tame c g (modify h : Emit σ Unit) where
  keeps w hw := hcalm w hw
  balanced w a v _ hv := by
    obtain ⟨-, rfl⟩ := Prod.mk.inj hv
    exact (hs w).2.1
  lifts before w w' _ _ hl := ⟨rfl, lifts_of_silent hs hl⟩

lemma forM {m : α → Emit σ Unit} {xs : List α} (h : ∀ x ∈ xs, Tame c g (m x)) :
    Tame c g (xs.forM m) := by
  induction xs with
  | nil => exact pure ()
  | cons x xs ih =>
    exact bind (h x List.mem_cons_self) fun _ => ih fun y hy => h y (List.mem_cons_of_mem _ hy)

lemma mapM {m : α → Emit σ β} (h : ∀ x, Tame c g (m x)) (xs : List α) :
    Tame c g (xs.mapM m) := by
  induction xs with
  | nil => exact pure []
  | cons x xs ih =>
    rw [List.mapM_cons]
    exact bind (h x) fun _ => bind ih fun _ => pure _

end Tame

/-- A step that keeps to the discipline under every change leaves the own state alone. -/
lemma own_of_tame {c : Scope} {m : Emit σ α} (hm : ∀ g, Tame c g m) {w : Writer σ}
    (hw : w.Calm c) : (m.exec w).2.own = w.own :=
  ((hm fun _ => w.own).lifts "" w w hw hw ⟨by simp, rfl, rfl⟩).2.own

end Emit

/-! ### Expressions -/

namespace ExprDialect

/-- An expression as the argument of a call. -/
def operand (d : ExprDialect σ) (e : Expr) : Operand σ where
  expr := e
  write := d.expr e
  element :=
    match e with
    | .index (.ident name _) i => some (name, d.expr i)
    | _ => none

lemma operands_eq_map (d : ExprDialect σ) (es : List Expr) :
    d.operands es = es.map d.operand := by
  induction es with
  | nil => rw [operands, List.map_nil]
  | cons e es ih =>
    rw [List.map_cons, ← ih]
    conv_lhs => unfold operands
    split
    · simp_all
    · simp_all [operand]
    · simp_all [operand]

end ExprDialect

/-- An argument keeps to the discipline, and so does the index of an array element. -/
structure Operand.Tame (c : Scope) (g : σ → σ) (o : Operand σ) : Prop where
  write : Emit.Tame c g o.write
  element : ∀ name index, o.element = some (name, index) → Emit.Tame c g index

/-- Calls keep to the discipline if their arguments do, and the names do not change with `g`. -/
structure ExprDialect.Tame (c : Scope) (g : σ → σ) (d : ExprDialect σ) : Prop where
  variableNames : ∀ s, d.variableNames (g s) = d.variableNames s
  call : ∀ callee args, (∀ o ∈ args, Operand.Tame c g o) → Emit.Tame c g (d.call callee args)

namespace ExprDialect

variable {c : Scope} {g : σ → σ} {d : ExprDialect σ}

lemma tame_mapped (t : NameTable) (key : String) :
    Emit.Tame c g (mapped t key : Emit σ String) := by
  unfold mapped
  split
  · exact .pure _
  · exact .throw _

lemma tame_callNamed (name : String) {args : List (Operand σ)}
    (h : ∀ o ∈ args, Operand.Tame c g o) : Emit.Tame c g (callNamed name args) := by
  refine .bind (.write _) fun _ => .bind (.separated ", " ?_) fun _ => .write _
  intro step hstep
  obtain ⟨o, ho, rfl⟩ := List.mem_map.mp hstep
  exact (h o ho).write

lemma Tame.variableName (hd : d.Tame c g) (name : String) :
    Emit.Tame c g (d.variableName name) := by
  refine .get (fun _ _ => .pure _) fun before w w' _ _ hl => ?_
  rw [hl.own, hd.variableNames]

lemma Tame.operand (hd : d.Tame c g) (e : Expr) : (d.operand e).Tame c g := by
  -- nothing but an array element has a second way to be written
  have hplain : ∀ {e : Expr}, (d.operand e).element = none → Emit.Tame c g (d.expr e) →
      (d.operand e).Tame c g := by
    intro e hnone he
    exact ⟨he, by simp [hnone]⟩
  induction e using Expr.inductOn with
  | absent =>
    refine hplain rfl ?_
    rw [ExprDialect.expr]
    exact .throw _
  | ident name ref =>
    refine hplain rfl ?_
    rw [ExprDialect.expr]
    refine .get (fun w _ => ?_) fun before w w' hw hw' _ => ?_
    · dsimp only
      split
      · exact .bind (.throw _) fun _ => .bind (hd.variableName name) fun _ => .write _
      · exact .bind (hd.variableName name) fun _ => .write _
    · rw [hw.function, hw'.function]
  | literal text kind =>
    refine hplain rfl ?_
    rw [ExprDialect.expr]
    exact .write text
  | call callee args ih =>
    refine hplain rfl ?_
    rw [ExprDialect.expr, operands_eq_map]
    apply hd.call
    intro o ho
    obtain ⟨arg, harg, rfl⟩ := List.mem_map.mp ho
    exact ih arg harg
  | binary op x y hx hy =>
    refine hplain rfl ?_
    rw [ExprDialect.expr]
    exact .bind (.write _) fun _ => .bind hx.write fun _ => .bind (.write _) fun _ =>
      .bind hy.write fun _ => .write _
  | unary op x hx =>
    refine hplain rfl ?_
    rw [ExprDialect.expr]
    exact .bind (.write _) fun _ => hx.write
  | assign op lhs rhs hl hr =>
    refine hplain rfl ?_
    rw [ExprDialect.expr]
    exact .bind hl.write fun _ => .bind (.write _) fun _ => hr.write
  | member x field hx =>
    refine hplain rfl ?_
    rw [ExprDialect.expr]
    exact .bind hx.write fun _ => .write _
  | index x i hx hi =>
    refine ⟨?_, ?_⟩
    · show Emit.Tame c g (d.expr (.index x i))
      rw [ExprDialect.expr]
      exact .bind hx.write fun _ => .bind (.write _) fun _ => .bind hi.write fun _ => .write _
    · intro name index hindex
      unfold ExprDialect.operand at hindex
      split at hindex
      · rename_i heq
        obtain ⟨-, rfl⟩ := Expr.index.inj heq
        obtain ⟨-, rfl⟩ := Prod.mk.inj (Option.some.inj hindex)
        exact hi.write
      · simp at hindex

lemma Tame.expr (hd : d.Tame c g) (e : Expr) : Emit.Tame c g (d.expr e) := (hd.operand e).write

lemma Tame.exprText (hd : d.Tame c g) (e : Expr) : Emit.Tame c g (d.exprText e) :=
  .captured (hd.expr e)

/-! ### Declarations -/

lemma Tame.defineConstant (hd : d.Tame c g) (v : VarDecl) :
    Emit.Tame c g (d.defineConstant v) := by
  have hrest : Emit.Tame c g (do
      let define ← d.qualifier v.var.qualifier.text
      let value ← d.exprText v.init
      Emit.writeLine (define ++ " " ++ (← d.variableName v.var.name) ++ " (" ++ value ++ ")")) :=
    .bind (tame_mapped _ _) fun _ => .bind (hd.exprText _) fun _ => .bind (hd.variableName _)
      fun _ => .writeLine _
  unfold ExprDialect.defineConstant
  dsimp only
  split
  · exact .bind (.throw _) fun _ => hrest
  · exact hrest

lemma Tame.varDeclText (hd : d.Tame c g) (v : VarDecl) : Emit.Tame c g (d.varDeclText v) := by
  refine .bind (tame_mapped _ _) fun type => .bind (tame_mapped _ _) fun qualifier =>
    .bind (hd.variableName _) fun name => ?_
  dsimp only
  split
  · exact .pure _
  · exact .bind (hd.exprText _) fun _ => .pure _

lemma Tame.varDecl (hd : d.Tame c g) (v : VarDecl) : Emit.Tame c g (d.varDecl v) :=
  .bind (hd.varDeclText v) fun _ => .writeLine _

lemma Tame.paramText (hd : d.Tame c g) (p : VarDecl) : Emit.Tame c g (d.paramText p) := by
  refine .bind (tame_mapped _ _) fun type => .bind (hd.variableName _) fun name => ?_
  dsimp only
  split
  · exact .bind (tame_mapped _ _) fun _ => .pure _
  · exact .pure _

/-! ### Blocks -/

lemma tame_compound (d : ExprDialect σ) {body : Emit σ Unit} (hbody : Emit.Tame c g body) :
    Emit.Tame c g (d.compound body) := by
  have hdisarm : Emit.Tame c g
      (modify fun w => { w with entry := w.entry.disarmed } : Emit σ Unit) :=
    .silent (fun w hw => ⟨hw.function, hw.accumulator, rfl⟩) fun w => ⟨rfl, rfl, rfl⟩
  unfold compound
  refine .get (fun w hw => ?_) fun before w w' hw hw' _ => ?_
  · simp only [hw.entry, Bool.false_eq_true, if_false]
    exact .bind hdisarm fun _ => hbody.braces
  · simp only [hw.entry, hw'.entry, Bool.false_eq_true, if_false]

lemma entryBody_eq (d : ExprDialect σ) (mark : EntryMark) (body : Emit σ Unit) :
    d.entryBody mark body = Emit.braces (do
      Emit.writeLine mark.init
      (do
        modify fun w => { w with accumulator := mark.accumulator }
        body.andThen fun w => { w with accumulator := "" })
      Emit.writeLine ("return " ++ (← d.variableName mark.accumulator) ++ ";")) := by
  simp only [entryBody, Emit.braces, bind_assoc]

lemma Tame.entryBody {f : Option String} {mark : EntryMark} {body : Emit σ Unit}
    (hd : d.Tame ⟨f, ""⟩ g) (hbody : Emit.Tame ⟨f, mark.accumulator⟩ g body) :
    Emit.Tame ⟨f, ""⟩ g (d.entryBody mark body) := by
  rw [entryBody_eq]
  refine .braces (.bind (.writeLine _) fun _ => .bind ?_ fun _ => .bind (hd.variableName _)
    fun _ => .writeLine _)
  exact hbody.inScope (fun w hw => ⟨hw.function, rfl, hw.entry⟩)
    (fun w hw => ⟨hw.function, rfl, hw.entry⟩) (fun w => ⟨rfl, rfl, rfl⟩) fun w => ⟨rfl, rfl, rfl⟩

end ExprDialect

/-! ### Statements -/

structure StmtDialect.Tame (c : Scope) (g : σ → σ) (d : StmtDialect σ) : Prop
    extends ExprDialect.Tame c g d.toExprDialect where
  declare : ∀ v, Emit.Tame c g (d.declare v)

namespace StmtDialect

variable {c : Scope} {g : σ → σ} {d : StmtDialect σ}

lemma Tame.loopStart (hd : d.Tame c g) (s : Stmt) : Emit.Tame c g (d.loopStart s) := by
  cases s with
  | absent => exact .pure ()
  | decl v => exact .bind (hd.varDeclText v) fun _ => .write _
  | expr x => exact hd.expr x
  | _ => exact .throw _

lemma Tame.optional (hd : d.Tame c g) (e : Expr) : Emit.Tame c g (d.optional e) := by
  unfold StmtDialect.optional
  split
  · exact .pure ()
  · exact hd.expr e

lemma tame_branchOf (d : StmtDialect σ) (s : Stmt) {contents whole : Emit σ Unit}
    (hcontents : Emit.Tame c g contents) (hwhole : Emit.Tame c g whole) :
    Emit.Tame c g (d.branchOf s contents whole) := by
  unfold branchOf
  split
  · exact d.tame_compound hcontents
  · exact hwhole.braces

lemma tame_stmts {ss : List Stmt} (h : ∀ s ∈ ss, Emit.Tame c g (d.stmt s)) :
    Emit.Tame c g (d.stmts ss) := by
  induction ss with
  | nil =>
    rw [stmts]
    exact .pure ()
  | cons s ss ih =>
    rw [stmts]
    exact .bind (h s List.mem_cons_self) fun _ => ih fun s' hs' => h s' (List.mem_cons_of_mem _ hs')

lemma Tame.stmt_contents (hd : d.Tame c g) (s : Stmt) :
    Emit.Tame c g (d.stmt s) ∧ Emit.Tame c g (d.contents s) := by
  -- only a block has contents
  have hno : ∀ {s : Stmt}, d.contents s = pure () → Emit.Tame c g (d.stmt s) →
      Emit.Tame c g (d.stmt s) ∧ Emit.Tame c g (d.contents s) := by
    intro s hnone hs
    exact ⟨hs, hnone ▸ .pure ()⟩
  induction s using Stmt.inductOn with
  | absent =>
    refine hno (by simp [contents]) ?_
    rw [stmt]
    exact .throw _
  | block ss ih =>
    have hss : Emit.Tame c g (d.stmts ss) := tame_stmts fun s hs => (ih s hs).1
    constructor
    · rw [stmt]
      exact .bind .writeIndent fun _ => .bind (d.tame_compound hss) fun _ => .write _
    · rw [contents]
      exact hss
  | decl v =>
    refine hno (by simp [contents]) ?_
    rw [stmt]
    exact hd.declare v
  | expr x =>
    refine hno (by simp [contents]) ?_
    rw [stmt]
    exact .bind .writeIndent fun _ => .bind (hd.expr x) fun _ => .write _
  | returns value =>
    refine hno (by simp [contents]) ?_
    rw [stmt]
    refine .bind .writeIndent fun _ => ?_
    split
    · refine .get (fun w hw => ?_) fun before w w' hw hw' _ => ?_
      · dsimp only
        split
        · exact .write _
        · exact .bind (hd.variableName _) fun _ => .write _
      · rw [hw.accumulator, hw'.accumulator]
    · exact .bind (.write _) fun _ => .bind (hd.expr value) fun _ => .write _
  | ifElse cond yes no hyes helse =>
    refine hno (by simp [contents]) ?_
    rw [stmt]
    refine .bind .writeIndent fun _ => .bind (.write _) fun _ => .bind (hd.expr cond) fun _ =>
      .bind (.write _) fun _ => .bind (d.tame_branchOf yes hyes.2 hyes.1) fun _ => ?_
    dsimp only
    split
    · exact .write _
    · exact .bind (.write _) fun _ => .bind (d.tame_branchOf no helse.2 helse.1) fun _ => .write _
  | loop init cond post body hinit hbody =>
    refine hno (by simp [contents]) ?_
    rw [stmt]
    exact .bind .writeIndent fun _ => .bind (.write _) fun _ => .bind (hd.loopStart init) fun _ =>
      .bind (.write _) fun _ => .bind (hd.optional cond) fun _ => .bind (.write _) fun _ =>
      .bind (hd.optional post) fun _ => .bind (.write _) fun _ =>
      .bind (d.tame_branchOf body hbody.2 hbody.1) fun _ => .write _
  | discard =>
    refine hno (by simp [contents]) ?_
    rw [stmt]
    exact .writeLine _
  | breakLoop =>
    refine hno (by simp [contents]) ?_
    rw [stmt]
    exact .writeLine _
  | continueLoop =>
    refine hno (by simp [contents]) ?_
    rw [stmt]
    exact .writeLine _

lemma Tame.stmts (hd : d.Tame c g) (ss : List Stmt) : Emit.Tame c g (d.stmts ss) :=
  tame_stmts fun s _ => (hd.stmt_contents s).1

/-! ### Functions -/

lemma Tame.funcWithSignature (hd : d.Tame c g) (signature : String) (f : FuncDef) :
    Emit.Tame c g (d.funcWithSignature signature f) :=
  .bind .writeIndent fun _ => .bind (.write _) fun _ =>
    .bind (d.tame_compound (hd.stmts f.body)) fun _ => .write _

lemma Tame.funcDef (hd : d.Tame c g) (f : FuncDef) : Emit.Tame c g (d.funcDef f) :=
  .bind (ExprDialect.tame_mapped _ _) fun _ => .bind (.mapM hd.paramText _) fun _ =>
    hd.funcWithSignature _ f

/-- Behind the mark of the entry point a function has the body of the entry point. -/
lemma funcWithSignature_armed (d : StmtDialect σ) (mark : EntryMark) (hmark : mark.armed = true)
    (signature : String) (f : FuncDef) :
    (do modify fun w => { w with entry := mark }; d.funcWithSignature signature f : Emit σ Unit) =
      (do
        modify fun w => { w with entry := mark.disarmed }
        Emit.writeIndent
        Emit.write (signature ++ " ")
        d.entryBody mark (d.stmts f.body)
        Emit.write "\n\n") := by
  refine Emit.ext fun w => ?_
  simp [funcWithSignature, ExprDialect.compound, Emit.exec_bind, hmark]

/-- The entry point, whose body has the accumulator that the mark names. -/
lemma Tame.entryPoint {f : Option String} {mark : EntryMark} (hmark : mark.armed = true)
    (hd : d.Tame ⟨f, ""⟩ g) (hbody : d.Tame ⟨f, mark.accumulator⟩ g) (signature : String)
    (main : FuncDef) :
    Emit.Tame ⟨f, ""⟩ g
      (do modify fun w => { w with entry := mark }; d.funcWithSignature signature main) := by
  rw [d.funcWithSignature_armed mark hmark]
  refine .bind ?_ fun _ => .bind .writeIndent fun _ => .bind (.write _) fun _ =>
    .bind (hd.entryBody (hbody.stmts main.body)) fun _ => .write _
  exact .silent (fun w hw => ⟨hw.function, hw.accumulator, rfl⟩) fun w => ⟨rfl, rfl, rfl⟩

end StmtDialect

/-! ### Declarations of a shader -/

/-- Declarations keep to the discipline outside all functions, and definitions inside their own. -/
structure Dialect.Tame (g : σ → σ) (d : Dialect σ) : Prop where
  declare : ∀ v, Emit.Tame {} g (d.declare v)
  define : ∀ f : FuncDef, Emit.Tame ⟨some f.name, ""⟩ g (d.define f)

namespace Dialect

variable {g : σ → σ} {d : Dialect σ}

lemma exec_func (d : Dialect σ) (f : FuncDef) (w : Writer σ) :
    (d.decl (.func f)).exec w =
      (((d.define f).exec { w with function := some f.name }).1,
        { ((d.define f).exec { w with function := some f.name }).2 with function := none }) := rfl

lemma tame_func {f : FuncDef} (h : Emit.Tame ⟨some f.name, ""⟩ g (d.define f)) :
    Emit.Tame {} g (d.decl (.func f)) :=
  h.inScope (fun _ hw => ⟨rfl, hw.accumulator, hw.entry⟩)
    (fun _ hw => ⟨rfl, hw.accumulator, hw.entry⟩) (fun _ => ⟨rfl, rfl, rfl⟩)
    fun _ => ⟨rfl, rfl, rfl⟩

lemma Tame.decl (hd : d.Tame g) (x : Decl) : Emit.Tame {} g (d.decl x) := by
  cases x with
  | absent => exact .throw _
  | var v => exact hd.declare v
  | func f => exact tame_func (hd.define f)

lemma Tame.decls (hd : d.Tame g) (xs : List Decl) : Emit.Tame {} g (d.decls xs) := by
  induction xs with
  | nil => exact .pure ()
  | cons x xs ih => exact .bind (hd.decl x) fun _ => ih

lemma decls_append (d : Dialect σ) (xs ys : List Decl) :
    d.decls (xs ++ ys) = (do d.decls xs; d.decls ys) := by
  induction xs with
  | nil => rfl
  | cons x xs ih =>
    rw [List.cons_append, decls, decls, ih]
    simp only [bind_assoc]

end Dialect

end Shaderwright
