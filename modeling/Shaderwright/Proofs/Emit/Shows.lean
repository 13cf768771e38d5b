import Mathlib.Data.List.Forall2
import Mathlib.Tactic.Common
import Shaderwright.Emit.Names
import Shaderwright.Proofs.Emit.Discipline
import Shaderwright.Proofs.Text.Lines

/-!
What shows in a text. A step that succeeds leaves alone what was written before it, and whatever
shows in the text of a part of the tree shows in the text of the whole.
-/

namespace Shaderwright

namespace Text

/-- The part stands somewhere in the text. -/
def Within (part text : String) : Prop := ∃ before behind, text = before ++ part ++ behind

variable {part text : String}

lemma Within.refl (text : String) : Within text text := ⟨"", "", by simp⟩

lemma within_empty (text : String) : Within "" text := ⟨"", text, by simp⟩

lemma Within.append_right (h : Within part text) (behind : String) :
    Within part (text ++ behind) := by
  obtain ⟨a, b, rfl⟩ := h
  exact ⟨a, b ++ behind, by simp only [String.append_assoc]⟩

lemma Within.append_left (h : Within part text) (before : String) :
    Within part (before ++ text) := by
  obtain ⟨a, b, rfl⟩ := h
  exact ⟨before ++ a, b, by simp only [String.append_assoc]⟩

lemma Within.trans {whole : String} (h : Within part text) (h' : Within text whole) :
    Within part whole := by
  obtain ⟨before, behind, rfl⟩ := h'
  exact (h.append_left before).append_right behind

lemma occursIn_append (part before behind : List Char) :
    occursIn part (before ++ (part ++ behind)) = true := by
  induction before with
  | nil =>
    rw [List.nil_append]
    rcases htext : part ++ behind with _ | ⟨c, text⟩
    · simp [occursIn, (List.append_eq_nil_iff.mp htext).1]
    · rw [occursIn, ← htext, behind?_append]
      rfl
  | cons c before ih => simp [occursIn, ih]

/-- A search finds whatever stands in the text. -/
lemma Within.contains (h : Within part text) : contains text part = true := by
  obtain ⟨before, behind, rfl⟩ := h
  simpa [Text.contains] using occursIn_append part.toList before.toList behind.toList

end Text

open Text (Within)

variable {σ α β : Type} {P : Expr → String → Prop}

/-- Each of the expressions shows in the text by a part that `P` tells. -/
def Shown (P : Expr → String → Prop) (es : List Expr) (text : String) : Prop :=
  ∀ e ∈ es, ∃ part, P e part ∧ Within part text

namespace Shown

variable {es es' : List Expr} {text text' : String}

lemma nil (text : String) : Shown P [] text := by simp [Shown]

lemma cons {e : Expr} (h : Shown P es text) (he : P e "") : Shown P (e :: es) text :=
  List.forall_mem_cons.mpr ⟨⟨"", he, Text.within_empty text⟩, h⟩

lemma append_right (h : Shown P es text) (behind : String) : Shown P es (text ++ behind) := by
  intro e he
  obtain ⟨part, hpart, hwithin⟩ := h e he
  exact ⟨part, hpart, hwithin.append_right behind⟩

lemma append_left (h : Shown P es text) (before : String) : Shown P es (before ++ text) := by
  intro e he
  obtain ⟨part, hpart, hwithin⟩ := h e he
  exact ⟨part, hpart, hwithin.append_left before⟩

lemma append (h : Shown P es text) (h' : Shown P es' text') :
    Shown P (es ++ es') (text ++ text') :=
  List.forall_mem_append.mpr ⟨h.append_right text', h'.append_left text⟩

lemma mono (h : Shown P es text) (hsub : es' ⊆ es) : Shown P es' text :=
  fun e he => h e (hsub he)

end Shown

namespace Emit

/-- If the step succeeds inside `f`, it stays there and has written behind what was there, and
these expressions show in it. -/
def Shows (P : Expr → String → Prop) (f : Option String) (es : List Expr) (m : Emit σ α) : Prop :=
  ∀ w a v, w.function = f → m.exec w = (.ok a, v) →
    v.function = f ∧ ∃ text, v.out = w.out ++ text ∧ Shown P es text

/-- If the step succeeds inside `f`, it stays there and has written nothing, and these expressions
show in its result. -/
def Tells (P : Expr → String → Prop) (f : Option String) (es : List Expr) (m : Emit σ String) :
    Prop :=
  ∀ w a v, w.function = f → m.exec w = (.ok a, v) →
    v.function = f ∧ v.out = w.out ∧ Shown P es a

variable {f : Option String} {es es' : List Expr}

namespace Shows

lemma mono {m : Emit σ α} (h : Shows P f es m) (hsub : es' ⊆ es) : Shows P f es' m := by
  intro w a v hw hv
  obtain ⟨hf, text, hout, hshown⟩ := h w a v hw hv
  exact ⟨hf, text, hout, hshown.mono hsub⟩

lemma cons {m : Emit σ α} {e : Expr} (h : Shows P f es m) (he : P e "") :
    Shows P f (e :: es) m := by
  intro w a v hw hv
  obtain ⟨hf, text, hout, hshown⟩ := h w a v hw hv
  exact ⟨hf, text, hout, hshown.cons he⟩

lemma throw (e : Fault) : Shows P f es (MonadExcept.throw e : Emit σ α) := by
  intro w a v hw hv
  simp at hv

lemma of_exec {m : Emit σ α} (r : Writer σ → α) (g : Writer σ → Writer σ)
    (hm : ∀ w, m.exec w = (.ok (r w), g w)) (hout : ∀ w, (g w).out = w.out)
    (hfunction : ∀ w, (g w).function = w.function) : Shows P f [] m := by
  intro w a v hw hv
  obtain ⟨-, rfl⟩ := Prod.mk.inj ((hm w).symm.trans hv)
  exact ⟨(hfunction w).trans hw, "", by simp [hout], .nil _⟩

lemma pure (a : α) : Shows P f [] (Pure.pure a : Emit σ α) :=
  of_exec (fun _ => a) id (fun _ => rfl) (fun _ => rfl) fun _ => rfl

lemma change {g : Writer σ → Writer σ} (hout : ∀ w, (g w).out = w.out)
    (hfunction : ∀ w, (g w).function = w.function) : Shows P f [] (modify g : Emit σ Unit) :=
  of_exec (fun _ => ()) g (fun _ => rfl) hout hfunction

lemma get {k : Writer σ → Emit σ β} (hk : ∀ w, w.function = f → Shows P f es (k w)) :
    Shows P f es (MonadState.get >>= k) :=
  fun w b v hw hv => hk w hw w b v hw hv

lemma write {text : String} (h : Shown P es text) :
    Shows P f es (Emit.write text : Emit σ Unit) := by
  intro w a v hw hv
  obtain ⟨-, rfl⟩ := Prod.mk.inj hv
  exact ⟨hw, text, rfl, h⟩

lemma mark (text : String) : Shows P f [] (Emit.write text : Emit σ Unit) := write (.nil text)

lemma writeIndent : Shows P f [] (Emit.writeIndent : Emit σ Unit) := by
  intro w a v hw hv
  obtain ⟨-, rfl⟩ := Prod.mk.inj hv
  exact ⟨hw, _, rfl, .nil _⟩

lemma bind {m : Emit σ α} {k : α → Emit σ β} (hm : Shows P f es m)
    (hk : ∀ a, Shows P f es' (k a)) : Shows P f (es ++ es') (m >>= k) := by
  intro w b v hw hv
  obtain ⟨a, u, hu, hv⟩ := exec_bind_eq_ok.mp hv
  obtain ⟨hf, text, hout, hshown⟩ := hm w a u hw hu
  obtain ⟨hf', text', hout', hshown'⟩ := hk a u b v hf hv
  exact ⟨hf', text ++ text', by rw [hout', hout, String.append_assoc], hshown.append hshown'⟩

lemma after {m : Emit σ α} {k : α → Emit σ β} (hm : Shows P f [] m)
    (hk : ∀ a, Shows P f es (k a)) : Shows P f es (m >>= k) :=
  hm.bind hk

lemma before {m : Emit σ α} {k : α → Emit σ β} (hm : Shows P f es m)
    (hk : ∀ a, Shows P f [] (k a)) : Shows P f es (m >>= k) :=
  (hm.bind hk).mono (by simp)

lemma writeLine {text : String} (h : Shown P es text) :
    Shows P f es (Emit.writeLine text : Emit σ Unit) :=
  writeIndent.after fun _ => write (h.append_right "\n")

lemma andThen {m : Emit σ α} {g : Writer σ → Writer σ} (hm : Shows P f es m)
    (hout : ∀ w, (g w).out = w.out) (hfunction : ∀ w, (g w).function = w.function) :
    Shows P f es (m.andThen g) := by
  intro w a v hw hv
  rw [exec_andThen] at hv
  obtain ⟨hr, rfl⟩ := Prod.mk.inj hv
  obtain ⟨hf, text, htext, hshown⟩ := hm w a _ hw (Prod.ext hr rfl)
  exact ⟨(hfunction _).trans hf, text, by rw [hout, htext], hshown⟩

lemma captured {m : Emit σ Unit} (hm : Shows P f es m) : Tells P f es (Emit.captured m) := by
  intro w a v hw hv
  rw [exec_captured] at hv
  rcases hex : m.exec { w with out := "" } with ⟨e | _, u⟩
  · simp [hex] at hv
  · simp only [hex] at hv
    obtain ⟨ha, rfl⟩ := Prod.mk.inj hv
    obtain ⟨hf, text, hout, hshown⟩ := hm { w with out := "" } () u hw hex
    refine ⟨hf, rfl, ?_⟩
    rwa [← Except.ok.inj ha, hout, String.empty_append]

lemma separated (separator : String) {args : List Expr} {steps : List (Emit σ Unit)}
    (h : List.Forall₂ (fun arg step => Shows P f arg.parts step) args steps) :
    Shows P f (Expr.partsOf args) (Emit.separated separator steps) := by
  induction h with
  | nil => exact pure ()
  | @cons arg step rest steps hstep hrest ih =>
    cases hrest with
    | nil => simpa [Expr.partsOf, Emit.separated] using hstep
    | cons hnext hothers => exact hstep.bind fun _ => (mark separator).after fun _ => ih

lemma braces {m : Emit σ Unit} (hm : Shows P f es m) : Shows P f es (Emit.braces m) := by
  have hpush : Shows P f [] (Emit.pushIndent : Emit σ Unit) :=
    change (fun _ => rfl) fun _ => rfl
  have hpop : Shows P f [] (Emit.popIndent : Emit σ Unit) := change (fun _ => rfl) fun _ => rfl
  exact (mark _).after fun _ => hpush.after fun _ => hm.before fun _ => hpop.after fun _ =>
    writeIndent.after fun _ => mark _

end Shows

namespace Tells

lemma pure {text : String} (h : Shown P es text) :
    Tells P f es (Pure.pure text : Emit σ String) := by
  intro w a v hw hv
  obtain ⟨ha, rfl⟩ := Prod.mk.inj hv
  exact ⟨hw, rfl, Except.ok.inj ha ▸ h⟩

lemma bind {m : Emit σ String} {k : String → Emit σ β} (hm : Tells P f es m)
    (hk : ∀ text, Shown P es text → Shows P f es' (k text)) : Shows P f es' (m >>= k) := by
  intro w b v hw hv
  obtain ⟨a, u, hu, hv⟩ := exec_bind_eq_ok.mp hv
  obtain ⟨hf, hout, hshown⟩ := hm w a u hw hu
  rw [← hout]
  exact hk a hshown u b v hf hv

lemma next {m : Emit σ String} {k : String → Emit σ String} (hm : Tells P f es m)
    (hk : ∀ text, Shown P es text → Tells P f es' (k text)) : Tells P f es' (m >>= k) := by
  intro w b v hw hv
  obtain ⟨a, u, hu, hv⟩ := exec_bind_eq_ok.mp hv
  obtain ⟨hf, hout, hshown⟩ := hm w a u hw hu
  rw [← hout]
  exact hk a hshown u b v hf hv

lemma mapM {m : α → Emit σ String} (h : ∀ x, Tells P f [] (m x)) (xs : List α) :
    Shows P f [] (xs.mapM m) := by
  induction xs with
  | nil => exact Shows.pure []
  | cons x xs ih =>
    rw [List.mapM_cons]
    exact (h x).bind fun _ _ => ih.after fun _ => .pure _

end Tells

end Emit

variable {f : Option String}

/-! ### Expressions -/

/-- The parts of an argument show in it, and those of the index of an array element in the index. -/
structure Operand.Shows (P : Expr → String → Prop) (f : Option String) (o : Operand σ) : Prop where
  write : Emit.Shows P f o.expr.parts o.write
  element : ∀ name index, o.element = some (name, index) →
    ∃ ref i, o.expr = .index (.ident name ref) i ∧ Emit.Shows P f i.parts index

/-- Of nothing but calls anything has to show, and a call shows with all its arguments. -/
structure ExprDialect.Shows (P : Expr → String → Prop) (f : Option String) (d : ExprDialect σ) :
    Prop where
  other : ∀ e, (∀ callee args, e ≠ .call callee args) → P e ""
  call : ∀ callee args, (∀ arg ∈ args, (d.operand arg).Shows P f) →
    Emit.Shows P f (Expr.call callee args).parts (d.call callee (args.map d.operand))

namespace ExprDialect

variable {d : ExprDialect σ}

lemma tells_mapped (t : NameTable) (key : String) :
    Emit.Tells P f [] (mapped t key : Emit σ String) := by
  intro w a v hw hv
  obtain ⟨-, rfl⟩ := exec_mapped_eq_ok.mp hv
  exact ⟨hw, rfl, .nil _⟩

lemma tells_variableName (d : ExprDialect σ) (name : String) :
    Emit.Tells P f [] (d.variableName name) := by
  intro w a v hw hv
  obtain ⟨-, rfl⟩ := Prod.mk.inj hv
  exact ⟨hw, rfl, .nil _⟩

lemma shows_callNamed (name : String) {args : List Expr}
    (h : ∀ arg ∈ args, (d.operand arg).Shows P f) :
    Emit.Shows P f (Expr.partsOf args) (callNamed name (args.map d.operand)) := by
  refine (Emit.Shows.mark _).after fun _ => Emit.Shows.before ?_ fun _ => .mark _
  rw [writeArgs, List.map_map]
  refine .separated ", " (List.forall₂_map_right_iff.mpr (List.forall₂_same.mpr ?_))
  exact fun arg harg => (h arg harg).write

lemma shows_callMapped (functions : NameTable) (callee : String) {args : List Expr}
    (h : ∀ arg ∈ args, (d.operand arg).Shows P f) :
    Emit.Shows P f (Expr.partsOf args) (callMapped functions callee (args.map d.operand)) := by
  unfold callMapped
  split <;> exact shows_callNamed _ h

namespace Shows

lemma operand (hd : d.Shows P f) (e : Expr) : (d.operand e).Shows P f := by
  -- nothing but an array element has a second way to be written
  have hplain : ∀ {e : Expr} {es : List Expr}, (d.operand e).element = none →
      (∀ callee args, e ≠ .call callee args) → e.parts = e :: es → Emit.Shows P f es (d.expr e) →
      (d.operand e).Shows P f := by
    intro e es hnone hcall hparts he
    refine ⟨?_, by simp [hnone]⟩
    rw [show (d.operand e).expr.parts = e :: es from hparts]
    exact he.cons (hd.other e hcall)
  induction e using Expr.inductOn with
  | absent =>
    refine hplain rfl (by simp) rfl ?_
    rw [ExprDialect.expr]
    exact .throw _
  | ident name ref =>
    refine hplain rfl (by simp) rfl ?_
    rw [ExprDialect.expr]
    refine .get fun w _ => ?_
    dsimp only
    split
    · exact .after (.throw _) fun _ => (d.tells_variableName name).bind fun _ _ => .mark _
    · exact (d.tells_variableName name).bind fun _ _ => .mark _
  | literal text kind =>
    refine hplain rfl (by simp) rfl ?_
    rw [ExprDialect.expr]
    exact .mark text
  | call callee args ih =>
    refine ⟨?_, fun name index hindex => by simp [ExprDialect.operand] at hindex⟩
    show Emit.Shows P f _ (d.expr (.call callee args))
    rw [ExprDialect.expr, operands_eq_map]
    exact hd.call callee args ih
  | binary op x y hx hy =>
    refine hplain rfl (by simp) rfl ?_
    rw [ExprDialect.expr]
    exact .after (.mark _) fun _ => hx.write.bind fun _ => .after (.mark _) fun _ =>
      hy.write.before fun _ => .mark _
  | unary op x hx =>
    refine hplain rfl (by simp) rfl ?_
    rw [ExprDialect.expr]
    exact .after (.mark _) fun _ => hx.write
  | assign op lhs rhs hl hr =>
    refine hplain rfl (by simp) rfl ?_
    rw [ExprDialect.expr]
    exact hl.write.bind fun _ => .after (.mark _) fun _ => hr.write
  | member x field hx =>
    refine hplain rfl (by simp) rfl ?_
    rw [ExprDialect.expr]
    exact hx.write.before fun _ => .mark _
  | index x i hx hi =>
    have hwrite : Emit.Shows P f (Expr.index x i).parts (d.expr (.index x i)) := by
      rw [ExprDialect.expr, Expr.parts]
      have hparts := hx.write.bind fun _ => .after (.mark "[") fun _ =>
        hi.write.before fun _ => .mark "]"
      exact hparts.cons (hd.other _ (by simp))
    refine ⟨hwrite, fun name index hindex => ?_⟩
    unfold ExprDialect.operand at hindex
    split at hindex
    · rename_i name' ref i' heq
      obtain ⟨rfl, rfl⟩ := Expr.index.inj heq
      obtain ⟨rfl, rfl⟩ := Prod.mk.inj (Option.some.inj hindex)
      exact ⟨ref, i, rfl, hi.write⟩
    · cases hindex

lemma expr (hd : d.Shows P f) (e : Expr) : Emit.Shows P f e.parts (d.expr e) := (hd.operand e).write

lemma exprText (hd : d.Shows P f) (e : Expr) : Emit.Tells P f e.parts (d.exprText e) :=
  (hd.expr e).captured

lemma absent (hd : d.Shows P f) {e : Expr} (h : e.isAbsent = true) (text : String) :
    Shown P e.parts text := by
  cases e with
  | absent => exact (Shown.nil _).cons (hd.other _ (by simp))
  | _ => cases h

/-! ### Declarations -/

lemma varDeclText (hd : d.Shows P f) (v : VarDecl) :
    Emit.Tells P f v.init.parts (d.varDeclText v) := by
  refine (tells_mapped _ _).next fun type _ => (tells_mapped _ _).next fun qualifier _ =>
    (d.tells_variableName _).next fun name _ => ?_
  dsimp only
  split
  · rename_i hinit
    exact .pure (hd.absent hinit _)
  · exact (hd.exprText v.init).next fun value hvalue => .pure (hvalue.append_left _)

lemma varDecl (hd : d.Shows P f) (v : VarDecl) : Emit.Shows P f v.init.parts (d.varDecl v) :=
  (hd.varDeclText v).bind fun _ htext => .writeLine (htext.append_right _)

lemma defineConstant (hd : d.Shows P f) (v : VarDecl) :
    Emit.Shows P f v.init.parts (d.defineConstant v) := by
  have hrest : Emit.Shows P f v.init.parts (do
      let define ← d.qualifier v.var.qualifier.text
      let value ← d.exprText v.init
      Emit.writeLine (define ++ " " ++ (← d.variableName v.var.name) ++ " (" ++ value ++ ")")) :=
    (tells_mapped _ _).bind fun _ _ => (hd.exprText v.init).bind fun value hvalue =>
      (d.tells_variableName _).bind fun _ _ => .writeLine ((hvalue.append_left _).append_right _)
  unfold ExprDialect.defineConstant
  dsimp only
  split
  · exact .after (.throw _) fun _ => hrest
  · exact hrest

end Shows

lemma tells_paramText (d : ExprDialect σ) (p : VarDecl) : Emit.Tells P f [] (d.paramText p) := by
  refine (tells_mapped _ _).next fun type _ => (d.tells_variableName _).next fun name _ => ?_
  dsimp only
  split
  · exact (tells_mapped _ _).next fun _ _ => .pure (.nil _)
  · exact .pure (.nil _)

lemma shows_compound (d : ExprDialect σ) {body : Emit σ Unit} {es : List Expr}
    (hbody : Emit.Shows P f es body) : Emit.Shows P f es (d.compound body) := by
  unfold compound
  refine .get fun w _ => .after (.change (fun _ => rfl) fun _ => rfl) fun _ => ?_
  split
  · rw [entryBody_eq]
    refine .braces (.after (.writeLine (.nil _)) fun _ => .before ?_ fun _ =>
      (d.tells_variableName _).bind fun _ _ => .writeLine (.nil _))
    exact .after (.change (fun _ => rfl) fun _ => rfl) fun _ =>
      hbody.andThen (fun _ => rfl) fun _ => rfl
  · exact hbody.braces

end ExprDialect

/-! ### Statements -/

structure StmtDialect.Shows (P : Expr → String → Prop) (f : Option String) (d : StmtDialect σ) :
    Prop extends ExprDialect.Shows P f d.toExprDialect where
  declare : ∀ v : VarDecl, Emit.Shows P f v.init.parts (d.declare v)

namespace StmtDialect

variable {d : StmtDialect σ}

lemma Shows.loopStart (hd : d.Shows P f) (s : Stmt) : Emit.Shows P f s.exprs (d.loopStart s) := by
  cases s with
  | absent => exact .pure ()
  | decl v => exact (hd.varDeclText v).bind fun _ htext => .write htext
  | expr x => exact hd.expr x
  | _ => exact .throw _

lemma Shows.optional (hd : d.Shows P f) (e : Expr) : Emit.Shows P f e.parts (d.optional e) := by
  unfold StmtDialect.optional
  split
  · rename_i he
    intro w a v hw hv
    obtain ⟨-, rfl⟩ := Prod.mk.inj hv
    exact ⟨hw, "", by simp, hd.absent he _⟩
  · exact hd.expr e

lemma shows_stmts {ss : List Stmt} (h : ∀ s ∈ ss, Emit.Shows P f s.exprs (d.stmt s)) :
    Emit.Shows P f (Stmt.exprsOf ss) (d.stmts ss) := by
  induction ss with
  | nil =>
    rw [stmts]
    exact .pure ()
  | cons s ss ih =>
    rw [stmts]
    exact .bind (h s List.mem_cons_self) fun _ => ih fun s' hs' => h s' (List.mem_cons_of_mem _ hs')

lemma Shows.stmt_branch (hd : d.Shows P f) (s : Stmt) :
    Emit.Shows P f s.exprs (d.stmt s) ∧ Emit.Shows P f s.exprs (d.branch s) := by
  -- a branch that is no block is the statement in braces
  have hsingle : ∀ {s : Stmt}, d.branch s = Emit.braces (d.stmt s) →
      Emit.Shows P f s.exprs (d.stmt s) →
      Emit.Shows P f s.exprs (d.stmt s) ∧ Emit.Shows P f s.exprs (d.branch s) := by
    intro s hbranch hs
    exact ⟨hs, hbranch ▸ hs.braces⟩
  induction s using Stmt.inductOn with
  | absent =>
    refine hsingle rfl ?_
    rw [stmt]
    exact .throw _
  | block ss ih =>
    have hss : Emit.Shows P f (Stmt.block ss).exprs (d.compound (d.stmts ss)) := by
      rw [Stmt.exprs]
      exact d.shows_compound (shows_stmts fun s hs => (ih s hs).1)
    constructor
    · rw [stmt]
      exact .after .writeIndent fun _ => hss.before fun _ => .mark _
    · rw [branch, contents]
      exact hss
  | decl v =>
    refine hsingle rfl ?_
    rw [stmt, Stmt.exprs]
    exact hd.declare v
  | expr x =>
    refine hsingle rfl ?_
    rw [stmt, Stmt.exprs]
    exact .after .writeIndent fun _ => (hd.expr x).before fun _ => .mark _
  | returns value =>
    refine hsingle rfl ?_
    rw [stmt, Stmt.exprs]
    refine .after .writeIndent fun _ => ?_
    split
    · rename_i habsent
      refine .get fun w _ => ?_
      dsimp only
      split
      · exact .write (hd.absent habsent _)
      · exact (d.tells_variableName _).bind fun _ _ => .write (hd.absent habsent _)
    · exact .after (.mark _) fun _ => (hd.expr value).before fun _ => .mark _
  | ifElse cond yes no hyes hno =>
    refine hsingle rfl ?_
    rw [stmt, Stmt.exprs, List.append_assoc]
    refine .after .writeIndent fun _ => .after (.mark _) fun _ => (hd.expr cond).bind fun _ =>
      .after (.mark _) fun _ => hyes.2.bind fun _ => ?_
    dsimp only
    split
    · rename_i habsent
      cases no with
      | absent => exact .mark _
      | _ => cases habsent
    · exact .after (.mark _) fun _ => hno.2.before fun _ => .mark _
  | loop init cond post body _ hbody =>
    refine hsingle rfl ?_
    rw [stmt, Stmt.exprs]
    refine .after .writeIndent fun _ => .after (.mark _) fun _ => ?_
    refine Emit.Shows.mono ((hd.loopStart init).bind fun _ => .after (.mark _) fun _ =>
      (hd.optional cond).bind fun _ => .after (.mark _) fun _ =>
      (hd.optional post).bind fun _ => .after (.mark _) fun _ =>
      hbody.2.before fun _ => .mark _) ?_
    simp
  | discard =>
    refine hsingle rfl ?_
    rw [stmt]
    exact .writeLine (.nil _)
  | breakLoop =>
    refine hsingle rfl ?_
    rw [stmt]
    exact .writeLine (.nil _)
  | continueLoop =>
    refine hsingle rfl ?_
    rw [stmt]
    exact .writeLine (.nil _)

lemma Shows.funcWithSignature (hd : d.Shows P f) (signature : String) (g : FuncDef) :
    Emit.Shows P f (Stmt.exprsOf g.body) (d.funcWithSignature signature g) :=
  .after .writeIndent fun _ => .after (.mark _) fun _ =>
    (d.shows_compound (shows_stmts fun s _ => (hd.stmt_branch s).1)).before fun _ => .mark _

lemma Shows.funcDef (hd : d.Shows P f) (g : FuncDef) :
    Emit.Shows P f (Stmt.exprsOf g.body) (d.funcDef g) :=
  (ExprDialect.tells_mapped _ _).bind fun _ _ =>
    (Emit.Tells.mapM d.tells_paramText _).after fun _ => hd.funcWithSignature _ g

end StmtDialect

lemma Dialect.shows_func {d : Dialect σ} {g : FuncDef} {es : List Expr}
    (h : Emit.Shows P (some g.name) es (d.define g)) :
    Emit.Shows P none es (d.decl (.func g)) := by
  intro w a v hw hv
  rw [exec_func] at hv
  obtain ⟨hr, rfl⟩ := Prod.mk.inj hv
  obtain ⟨-, htext⟩ := h { w with function := some g.name } a _ rfl (Prod.ext hr rfl)
  exact ⟨rfl, htext⟩

end Shaderwright
