import Mathlib.Data.List.Forall2
import Mathlib.Tactic.Common
import Shaderwright.Emit.Names
import Shaderwright.Emit.Shader
import Shaderwright.Proofs.Emit.Discipline
import Shaderwright.Proofs.Emit.NameTable
import Shaderwright.Proofs.Shader.Respelling

/-!
Writing without a table of variables. A shader whose identifiers are spelled out beforehand is
written with its names as they stand, and this gives the same text as looking every name up, as
long as the table has the right answer for each name and leaves the declared ones alone.
-/

namespace Shaderwright

variable {σ α β : Type}

/-- A part of a shader that lies in one function and is written under one table of variables. -/
structure Region (σ : Type) where
  function : Option String
  /-- Where the own state keeps the table. -/
  names : σ → NameTable
  table : NameTable
  keeps_empty : table.get "" = ""

namespace Region

/-- The writer is in this region, and no name is stored for later that the table would change. -/
structure Holds (R : Region σ) (w : Writer σ) : Prop where
  function : w.function = R.function
  table : R.names w.own = R.table
  accumulator : R.table.get w.accumulator = w.accumulator
  mark : w.entry.armed = true → R.table.get w.entry.accumulator = w.entry.accumulator

variable {R : Region σ} {w : Writer σ}

lemma Holds.elsewhere (hw : R.Holds w) {out : String} {depth : Nat} :
    R.Holds { w with out := out, depth := depth } :=
  ⟨hw.function, hw.table, hw.accumulator, hw.mark⟩

end Region

/-- Whenever `m` succeeds in the region, it stays there, and `m'` does the very same. -/
def Emit.Agrees (R : Region σ) (m m' : Emit σ α) : Prop :=
  ∀ w a v, R.Holds w → m.exec w = (.ok a, v) → R.Holds v ∧ m'.exec w = (.ok a, v)

namespace Emit.Agrees

variable {R : Region σ}

/-! ### Putting steps together -/

lemma pure (a : α) : Agrees R (Pure.pure a) (Pure.pure a) := by
  intro w b v hw hv
  obtain ⟨-, rfl⟩ := Prod.mk.inj hv
  exact ⟨hw, hv⟩

lemma throw (e : Fault) (m' : Emit σ α) : Agrees R (MonadExcept.throw e) m' := by
  intro w a v _ hv
  simp at hv

lemma throw_bind (e : Fault) (k : α → Emit σ β) (m' : Emit σ β) :
    Agrees R (MonadExcept.throw e >>= k) m' := by
  intro w a v _ hv
  simp at hv

lemma bind {m m' : Emit σ α} {k k' : α → Emit σ β} (hm : Agrees R m m')
    (hk : ∀ a, Agrees R (k a) (k' a)) : Agrees R (m >>= k) (m' >>= k') := by
  intro w b v hw hv
  obtain ⟨a, u, hu, hv⟩ := exec_bind_eq_ok.mp hv
  obtain ⟨hholds, hu'⟩ := hm w a u hw hu
  obtain ⟨hholds', hv'⟩ := hk a u b v hholds hv
  exact ⟨hholds', exec_bind_eq_ok.mpr ⟨a, u, hu', hv'⟩⟩

lemma get {k k' : Writer σ → Emit σ β} (hk : ∀ w, R.Holds w → Agrees R (k w) (k' w)) :
    Agrees R (MonadState.get >>= k) (MonadState.get >>= k') :=
  fun w b v hw hv => hk w hw w b v hw hv

lemma change {h : Writer σ → Writer σ} (hh : ∀ w, R.Holds w → R.Holds (h w)) :
    Agrees R (modify h : Emit σ Unit) (modify h) := by
  intro w a v hw hv
  obtain ⟨-, rfl⟩ := Prod.mk.inj hv
  exact ⟨hh w hw, hv⟩

lemma andThen {m m' : Emit σ α} {h : Writer σ → Writer σ} (hm : Agrees R m m')
    (hh : ∀ w, R.Holds w → R.Holds (h w)) : Agrees R (m.andThen h) (m'.andThen h) := by
  intro w a v hw hv
  rw [exec_andThen] at hv
  obtain ⟨hr, rfl⟩ := Prod.mk.inj hv
  obtain ⟨hholds, hexec⟩ := hm w a _ hw (Prod.ext hr rfl)
  exact ⟨hh _ hholds, by rw [exec_andThen, hexec]⟩

lemma write (text : String) : Agrees R (Emit.write text : Emit σ Unit) (Emit.write text) :=
  change fun _ hw => hw.elsewhere

lemma writeIndent : Agrees R (Emit.writeIndent : Emit σ Unit) Emit.writeIndent :=
  change fun _ hw => hw.elsewhere

lemma writeLine (text : String) :
    Agrees R (Emit.writeLine text : Emit σ Unit) (Emit.writeLine text) :=
  bind writeIndent fun _ => write _

lemma braces {m m' : Emit σ Unit} (hm : Agrees R m m') :
    Agrees R (Emit.braces m) (Emit.braces m') :=
  bind (write _) fun _ => bind (change fun _ hw => hw.elsewhere) fun _ => bind hm fun _ =>
    bind (change fun _ hw => hw.elsewhere) fun _ => bind writeIndent fun _ => write _

lemma captured {m m' : Emit σ Unit} (hm : Agrees R m m') :
    Agrees R (Emit.captured m) (Emit.captured m') := by
  intro w a v hw hv
  rw [exec_captured] at hv
  rcases hex : m.exec { w with out := "" } with ⟨e | _, u⟩
  · simp [hex] at hv
  · obtain ⟨hholds, hex'⟩ := hm _ () u hw.elsewhere hex
    rw [hex] at hv
    refine ⟨?_, by rw [exec_captured, hex']; exact hv⟩
    obtain ⟨-, rfl⟩ := Prod.mk.inj hv
    exact hholds.elsewhere

lemma separated (separator : String) {steps steps' : List (Emit σ Unit)}
    (h : List.Forall₂ (Agrees R) steps steps') :
    Agrees R (Emit.separated separator steps) (Emit.separated separator steps') := by
  induction h with
  | nil => exact pure ()
  | cons hstep hrest ih =>
    cases hrest with
    | nil => exact hstep
    | cons hnext hothers => exact bind hstep fun _ => bind (write _) fun _ => ih

lemma forM {γ : Type} {m m' : γ → Emit σ Unit} {xs xs' : List γ}
    (h : List.Forall₂ (fun x x' => Agrees R (m x) (m' x')) xs xs') :
    Agrees R (xs.forM m) (xs'.forM m') := by
  induction h with
  | nil => exact pure ()
  | cons hx _ ih => exact bind hx fun _ => ih

lemma mapM {γ : Type} {m m' : γ → Emit σ β} {r : γ → γ} {xs : List γ}
    (h : ∀ x ∈ xs, Agrees R (m x) (m' (r x))) :
    Agrees R (xs.mapM m) ((xs.map r).mapM m') := by
  induction xs with
  | nil => exact pure []
  | cons x xs ih =>
    rw [List.map_cons, List.mapM_cons, List.mapM_cons]
    exact bind (h x List.mem_cons_self) fun _ =>
      bind (ih fun y hy => h y (List.mem_cons_of_mem _ hy)) fun _ => pure _

lemma mapped (t : NameTable) (key : String) :
    Agrees R (ExprDialect.mapped t key : Emit σ String) (ExprDialect.mapped t key) := by
  unfold ExprDialect.mapped
  split
  · exact pure _
  · exact throw _ _

end Emit.Agrees

/-! ### Tables -/

def inputNames : List String := StageInput.all.map StageInput.name

lemma get_inputTable_of_not_mem (ofInput : StageInput → String) {name : String}
    (h : name ∉ inputNames) : (inputTable ofInput).get name = name := by
  refine NameTable.get_of_not_mem rfl ?_
  simpa [inputTable, inputNames, Function.comp_def] using h

/-! ### Expressions -/

/-- The table in which every name stands for itself. -/
def NameTable.verbatim : NameTable := ⟨"var", .identity, []⟩

/-- The same target language, but the names of variables are written as they stand. -/
def ExprDialect.verbatim (d : ExprDialect σ) : ExprDialect σ :=
  { d with variableNames := fun _ => .verbatim }

/-- The table spells every identifier among some expressions as `f` does. -/
def Region.Spells (R : Region σ) (f : Spelling) (es : List Expr) : Prop :=
  ∀ name ref, .ident name ref ∈ es → R.table.get name = f name ref

lemma Region.Spells.mono {R : Region σ} {f : Spelling} {es es' : List Expr} (h : R.Spells f es')
    (hsub : es ⊆ es') : R.Spells f es :=
  fun name ref hmem => h name ref (hsub hmem)

/-- Two arguments of which the second one is spelled beforehand. -/
structure Operand.Agrees (R : Region σ) (f : Spelling) (o o' : Operand σ) : Prop where
  expr : o'.expr = o.expr.respell f
  spelled : R.Spells f o.expr.parts
  write : Emit.Agrees R o.write o'.write
  element : ∀ name index, o.element = some (name, index) →
    ∃ index', o'.element = some (R.table.get name, index') ∧ Emit.Agrees R index index'

/-- A target language looks variables up in the table, and its calls only write their arguments. -/
structure ExprDialect.Spells (R : Region σ) (f : Spelling) (d : ExprDialect σ) : Prop where
  names : d.variableNames = R.names
  input : ∀ name ref, isStageInput (f name ref) ref = isStageInput name ref
  call : ∀ callee args args', List.Forall₂ (Operand.Agrees R f) args args' →
    Emit.Agrees R (d.call callee args) (d.call callee args')

lemma Operand.Agrees.writes {R : Region σ} {f : Spelling} {args args' : List (Operand σ)}
    (h : List.Forall₂ (Operand.Agrees R f) args args') :
    List.Forall₂ (Emit.Agrees R) (args.map Operand.write) (args'.map Operand.write) := by
  induction h with
  | nil => exact .nil
  | cons ho _ ih => exact .cons ho.write ih

namespace ExprDialect

variable {R : Region σ} {f : Spelling} {d : ExprDialect σ}

lemma Spells.variableName (hd : d.Spells R f) {name spelled : String}
    (h : R.table.get name = spelled) :
    Emit.Agrees R (d.variableName name) (d.verbatim.variableName spelled) := by
  intro w a v hw hv
  rw [exec_variableName, hd.names, hw.table, h] at hv
  rw [exec_variableName]
  obtain ⟨-, rfl⟩ := Prod.mk.inj hv
  exact ⟨hw, hv⟩

lemma Spells.operand (hd : d.Spells R f) {e : Expr} (he : R.Spells f e.parts) :
    Operand.Agrees R f (d.operand e) (d.verbatim.operand (e.respell f)) := by
  -- nothing but an array element has a second way to be written
  have hplain : ∀ {e : Expr}, R.Spells f e.parts → (d.operand e).element = none →
      Emit.Agrees R (d.expr e) (d.verbatim.expr (e.respell f)) →
      Operand.Agrees R f (d.operand e) (d.verbatim.operand (e.respell f)) := by
    intro e hspelled hnone he
    exact ⟨rfl, hspelled, he, by simp [hnone]⟩
  induction e using Expr.inductOn with
  | absent =>
    refine hplain he rfl ?_
    rw [ExprDialect.expr]
    exact .throw _ _
  | ident name ref =>
    have hname := he name ref (by simp [Expr.parts])
    refine hplain he rfl ?_
    rw [Expr.respell, ExprDialect.expr, ExprDialect.expr, hd.input]
    refine .get fun w _ => ?_
    dsimp only
    split
    · exact .throw_bind _ _ _
    · exact .bind (hd.variableName hname) fun _ => .write _
  | literal text kind =>
    refine hplain he rfl ?_
    rw [Expr.respell, ExprDialect.expr, ExprDialect.expr]
    exact .write text
  | call callee args ih =>
    refine hplain he rfl ?_
    rw [Expr.respell, ExprDialect.expr, ExprDialect.expr, operands_eq_map, operands_eq_map,
      Expr.respellAll_eq_map, List.map_map]
    refine hd.call callee _ _ (List.forall₂_map_left_iff.mpr (List.forall₂_map_right_iff.mpr ?_))
    refine List.forall₂_same.mpr fun arg harg => ih arg harg (he.mono fun x hx => ?_)
    rw [Expr.parts, Expr.partsOf_eq_flatMap]
    exact List.mem_cons_of_mem _ (List.mem_flatMap_of_mem harg hx)
  | binary op x y hx hy =>
    refine hplain he rfl ?_
    rw [Expr.respell, ExprDialect.expr, ExprDialect.expr]
    have hx := hx (he.mono (by simp [Expr.parts]))
    have hy := hy (he.mono (by simp [Expr.parts]))
    exact .bind (.write _) fun _ => .bind hx.write fun _ => .bind (.write _) fun _ =>
      .bind hy.write fun _ => .write _
  | unary op x hx =>
    refine hplain he rfl ?_
    rw [Expr.respell, ExprDialect.expr, ExprDialect.expr]
    exact .bind (.write _) fun _ => (hx (he.mono (by simp [Expr.parts]))).write
  | assign op lhs rhs hl hr =>
    refine hplain he rfl ?_
    rw [Expr.respell, ExprDialect.expr, ExprDialect.expr]
    have hl := hl (he.mono (by simp [Expr.parts]))
    have hr := hr (he.mono (by simp [Expr.parts]))
    exact .bind hl.write fun _ => .bind (.write _) fun _ => hr.write
  | member x field hx =>
    refine hplain he rfl ?_
    rw [Expr.respell, ExprDialect.expr, ExprDialect.expr]
    exact .bind (hx (he.mono (by simp [Expr.parts]))).write fun _ => .write _
  | index x i hx hi =>
    have hx := hx (he.mono (by simp [Expr.parts]))
    have hi := hi (he.mono (by simp [Expr.parts]))
    refine ⟨rfl, he, ?_, ?_⟩
    · show Emit.Agrees R (d.expr (.index x i)) (d.verbatim.expr ((Expr.index x i).respell f))
      rw [Expr.respell, ExprDialect.expr, ExprDialect.expr]
      exact .bind hx.write fun _ => .bind (.write _) fun _ => .bind hi.write fun _ => .write _
    · intro name index hindex
      cases x with
      | ident n ref =>
        obtain ⟨rfl, rfl⟩ := Prod.mk.inj (Option.some.inj hindex)
        refine ⟨d.verbatim.expr (i.respell f), ?_, hi.write⟩
        rw [he n ref (by simp [Expr.parts])]
        simp [Expr.respell, ExprDialect.operand]
      | _ => simp [ExprDialect.operand] at hindex

lemma Spells.expr (hd : d.Spells R f) {e : Expr} (he : R.Spells f e.parts) :
    Emit.Agrees R (d.expr e) (d.verbatim.expr (e.respell f)) := (hd.operand he).write

lemma Spells.exprText (hd : d.Spells R f) {e : Expr} (he : R.Spells f e.parts) :
    Emit.Agrees R (d.exprText e) (d.verbatim.exprText (e.respell f)) := .captured (hd.expr he)

/-! ### Declarations -/

lemma Spells.defineConstant (hd : d.Spells R f) {v : VarDecl}
    (hname : R.table.get v.var.name = v.var.name) (hinit : R.Spells f v.init.parts) :
    Emit.Agrees R (d.defineConstant v) (d.verbatim.defineConstant (v.respell f)) := by
  have hrest : Emit.Agrees R (do
      let define ← d.qualifier v.var.qualifier.text
      let value ← d.exprText v.init
      Emit.writeLine (define ++ " " ++ (← d.variableName v.var.name) ++ " (" ++ value ++ ")"))
      (do
      let define ← d.verbatim.qualifier v.var.qualifier.text
      let value ← d.verbatim.exprText (v.init.respell f)
      Emit.writeLine (define ++ " " ++ (← d.verbatim.variableName v.var.name) ++
        " (" ++ value ++ ")")) :=
    .bind (.mapped _ _) fun _ => .bind (hd.exprText hinit) fun _ => .bind (hd.variableName hname)
      fun _ => .writeLine _
  unfold ExprDialect.defineConstant
  dsimp only
  rw [VarDecl.init_respell, Expr.isAbsent_respell]
  split
  · exact .throw_bind _ _ _
  · exact hrest

lemma Spells.varDeclText (hd : d.Spells R f) {v : VarDecl}
    (hname : R.table.get v.var.name = v.var.name) (hinit : R.Spells f v.init.parts) :
    Emit.Agrees R (d.varDeclText v) (d.verbatim.varDeclText (v.respell f)) := by
  refine .bind (.mapped _ _) fun type => .bind (.mapped _ _) fun qualifier =>
    .bind (hd.variableName hname) fun name => ?_
  rw [VarDecl.init_respell, Expr.isAbsent_respell]
  dsimp only
  split
  · exact .pure _
  · exact .bind (hd.exprText hinit) fun _ => .pure _

lemma Spells.varDecl (hd : d.Spells R f) {v : VarDecl}
    (hname : R.table.get v.var.name = v.var.name) (hinit : R.Spells f v.init.parts) :
    Emit.Agrees R (d.varDecl v) (d.verbatim.varDecl (v.respell f)) :=
  .bind (hd.varDeclText hname hinit) fun _ => .writeLine _

lemma Spells.paramText (hd : d.Spells R f) {p : VarDecl}
    (hname : R.table.get p.var.name = p.var.name) :
    Emit.Agrees R (d.paramText p) (d.verbatim.paramText (p.respell f)) := by
  refine .bind (.mapped _ _) fun type => .bind (hd.variableName hname) fun name => ?_
  dsimp only
  rw [VarDecl.var_respell]
  split
  · exact .bind (.mapped _ _) fun _ => .pure _
  · exact .pure _

/-! ### Blocks -/

lemma Spells.entryBody (hd : d.Spells R f) {mark : EntryMark} {body body' : Emit σ Unit}
    (hmark : R.table.get mark.accumulator = mark.accumulator) (hbody : Emit.Agrees R body body') :
    Emit.Agrees R (d.entryBody mark body) (d.verbatim.entryBody mark body') := by
  rw [entryBody_eq, entryBody_eq]
  refine .braces (.bind (.writeLine _) fun _ => .bind ?_ fun _ =>
    .bind (hd.variableName hmark) fun _ => .writeLine _)
  refine .bind (.change fun w hw => ?_) fun _ => .andThen hbody fun w hw => ?_
  · exact ⟨hw.function, hw.table, hmark, hw.mark⟩
  · exact ⟨hw.function, hw.table, R.keeps_empty, hw.mark⟩

lemma Spells.compound (hd : d.Spells R f) {body body' : Emit σ Unit}
    (hbody : Emit.Agrees R body body') :
    Emit.Agrees R (d.compound body) (d.verbatim.compound body') := by
  unfold ExprDialect.compound
  refine .get fun w hw => .bind (.change fun w hw => ?_) fun _ => ?_
  · refine ⟨hw.function, hw.table, hw.accumulator, fun harmed => ?_⟩
    simp [EntryMark.disarmed] at harmed
  · split
    · rename_i harmed
      exact hd.entryBody (hw.mark harmed) hbody
    · exact .braces hbody

end ExprDialect

/-! ### Statements -/

/-- The table spells the identifiers of a statement as `f` does, and leaves the variables alone that
it declares. -/
structure Stmt.Spelled (R : Region σ) (f : Spelling) (s : Stmt) : Prop where
  idents : R.Spells f s.exprs
  declared : ∀ v ∈ s.variables, R.table.get v.name = v.name

/-- The second dialect writes names as they stand and otherwise agrees with the first one. -/
structure StmtDialect.Spells (R : Region σ) (f : Spelling) (d d' : StmtDialect σ) : Prop where
  exprs : d.toExprDialect.Spells R f
  verbatim : d'.toExprDialect = d.toExprDialect.verbatim
  discard : d'.discard = d.discard
  declare : ∀ v, (Stmt.decl v).Spelled R f → Emit.Agrees R (d.declare v) (d'.declare (v.respell f))

namespace StmtDialect

variable {R : Region σ} {f : Spelling} {d d' : StmtDialect σ}

lemma Spells.expr (hd : d.Spells R f d') {e : Expr} (he : R.Spells f e.parts) :
    Emit.Agrees R (d.expr e) (d'.expr (e.respell f)) := by
  rw [hd.verbatim]
  exact hd.exprs.expr he

lemma Spells.variableName (hd : d.Spells R f d') {name : String} (h : R.table.get name = name) :
    Emit.Agrees R (d.variableName name) (d'.variableName name) := by
  rw [hd.verbatim]
  exact hd.exprs.variableName h

lemma Spells.named (hd : d.Spells R f d') {name : String} (h : R.table.get name = name)
    {k k' : String → Emit σ β} (hk : Emit.Agrees R (k name) (k' name)) :
    Emit.Agrees R (d.variableName name >>= k) (d'.variableName name >>= k') := by
  intro w b v hw hv
  rw [Emit.exec_bind_of_ok (ExprDialect.exec_variableName _ _ _), hd.exprs.names, hw.table, h] at hv
  rw [Emit.exec_bind_of_ok (ExprDialect.exec_variableName _ _ _), hd.verbatim]
  exact hk w b v hw hv

lemma Spells.compound (hd : d.Spells R f d') {body body' : Emit σ Unit}
    (hbody : Emit.Agrees R body body') :
    Emit.Agrees R (d.compound body) (d'.compound body') := by
  rw [hd.verbatim]
  exact hd.exprs.compound hbody

lemma Spells.loopStart (hd : d.Spells R f d') {s : Stmt} (hs : s.Spelled R f) :
    Emit.Agrees R (d.loopStart s) (d'.loopStart (s.respell f)) := by
  cases s with
  | absent =>
    rw [Stmt.respell]
    exact .pure ()
  | decl v =>
    rw [Stmt.respell, StmtDialect.loopStart, StmtDialect.loopStart, hd.verbatim]
    refine .bind (hd.exprs.varDeclText (hs.declared v.var ?_) (hs.idents.mono ?_)) fun _ => .write _
    · simp [Stmt.variables]
    · simp [Stmt.exprs]
  | expr x =>
    rw [Stmt.respell]
    exact hd.expr (hs.idents.mono (by simp [Stmt.exprs]))
  | _ => exact .throw _ _

lemma Spells.optional (hd : d.Spells R f d') {e : Expr} (he : R.Spells f e.parts) :
    Emit.Agrees R (d.optional e) (d'.optional (e.respell f)) := by
  unfold StmtDialect.optional
  rw [Expr.isAbsent_respell]
  split
  · exact .pure ()
  · exact hd.expr he

lemma Spells.branchOf (hd : d.Spells R f d') (s : Stmt)
    {contents contents' whole whole' : Emit σ Unit}
    (hcontents : Emit.Agrees R contents contents') (hwhole : Emit.Agrees R whole whole') :
    Emit.Agrees R (d.branchOf s contents whole) (d'.branchOf (s.respell f) contents' whole') := by
  cases s with
  | block ss =>
    rw [Stmt.respell]
    exact hd.compound hcontents
  | _ =>
    rw [Stmt.respell]
    exact .braces hwhole

lemma agrees_stmts {ss : List Stmt}
    (h : ∀ s ∈ ss, Emit.Agrees R (d.stmt s) (d'.stmt (s.respell f))) :
    Emit.Agrees R (d.stmts ss) (d'.stmts (ss.map (Stmt.respell f))) := by
  induction ss with
  | nil =>
    rw [List.map_nil, stmts, stmts]
    exact .pure ()
  | cons s ss ih =>
    rw [List.map_cons, stmts, stmts]
    exact .bind (h s List.mem_cons_self) fun _ => ih fun s' hs' => h s' (List.mem_cons_of_mem _ hs')

end StmtDialect

namespace Stmt.Spelled

variable {R : Region σ} {f : Spelling}

lemma part {s t : Stmt} (h : t.Spelled R f) (hexprs : s.exprs ⊆ t.exprs)
    (hvariables : s.variables ⊆ t.variables) : s.Spelled R f :=
  ⟨h.idents.mono hexprs, fun v hv => h.declared v (hvariables hv)⟩

lemma of_block {ss : List Stmt} (h : (Stmt.block ss).Spelled R f) {s : Stmt} (hs : s ∈ ss) :
    s.Spelled R f := by
  refine h.part ?_ ?_
  · rw [Stmt.exprs, Stmt.exprsOf_eq_flatMap]
    exact fun x hx => List.mem_flatMap_of_mem hs hx
  · rw [Stmt.variables, Stmt.variablesOf_eq_flatMap]
    exact fun x hx => List.mem_flatMap_of_mem hs hx

end Stmt.Spelled

namespace StmtDialect

variable {R : Region σ} {f : Spelling} {d d' : StmtDialect σ}

lemma Spells.stmt_contents (hd : d.Spells R f d') {s : Stmt} (hs : s.Spelled R f) :
    Emit.Agrees R (d.stmt s) (d'.stmt (s.respell f)) ∧
      Emit.Agrees R (d.contents s) (d'.contents (s.respell f)) := by
  -- only a block has contents
  have hno : ∀ {s : Stmt}, d.contents s = pure () → d'.contents (s.respell f) = pure () →
      Emit.Agrees R (d.stmt s) (d'.stmt (s.respell f)) →
      Emit.Agrees R (d.stmt s) (d'.stmt (s.respell f)) ∧
        Emit.Agrees R (d.contents s) (d'.contents (s.respell f)) := by
    intro s hnone hnone' hs
    rw [hnone, hnone']
    exact ⟨hs, .pure ()⟩
  induction s using Stmt.inductOn with
  | absent =>
    refine hno (by simp [contents]) (by simp [Stmt.respell, contents]) ?_
    rw [stmt]
    exact .throw _ _
  | block ss ih =>
    have hss : Emit.Agrees R (d.stmts ss) (d'.stmts (ss.map (Stmt.respell f))) :=
      agrees_stmts fun s hmem => (ih s hmem (hs.of_block hmem)).1
    rw [Stmt.respell, Stmt.respellAll_eq_map]
    constructor
    · rw [stmt, stmt]
      exact .bind .writeIndent fun _ => .bind (hd.compound hss) fun _ => .write _
    · rw [contents, contents]
      exact hss
  | decl v =>
    refine hno (by simp [contents]) (by simp [Stmt.respell, contents]) ?_
    rw [Stmt.respell, stmt, stmt]
    exact hd.declare v hs
  | expr x =>
    refine hno (by simp [contents]) (by simp [Stmt.respell, contents]) ?_
    rw [Stmt.respell, stmt, stmt]
    have hx := hd.expr (hs.idents.mono (by simp [Stmt.exprs] : x.parts ⊆ _))
    exact .bind .writeIndent fun _ => .bind hx fun _ => .write _
  | returns value =>
    refine hno (by simp [contents]) (by simp [Stmt.respell, contents]) ?_
    rw [Stmt.respell, stmt, stmt, Expr.isAbsent_respell]
    refine .bind .writeIndent fun _ => ?_
    split
    · refine .get fun w hw => ?_
      dsimp only
      split
      · exact .write _
      · exact .bind (hd.variableName hw.accumulator) fun _ => .write _
    · have hvalue := hd.expr (hs.idents.mono (by simp [Stmt.exprs] : value.parts ⊆ _))
      exact .bind (.write _) fun _ => .bind hvalue fun _ => .write _
  | ifElse cond yes no hyes helse =>
    refine hno (by simp [contents]) (by simp [Stmt.respell, contents]) ?_
    have hcond := hd.expr (hs.idents.mono (by simp [Stmt.exprs] : cond.parts ⊆ _))
    have hyes := hyes (hs.part (by simp [Stmt.exprs]) (by simp [Stmt.variables]))
    have helse := helse (hs.part (by simp [Stmt.exprs]) (by simp [Stmt.variables]))
    rw [Stmt.respell, stmt, stmt, Stmt.isAbsent_respell]
    refine .bind .writeIndent fun _ => .bind (.write _) fun _ => .bind hcond fun _ =>
      .bind (.write _) fun _ => .bind (hd.branchOf yes hyes.2 hyes.1) fun _ => ?_
    dsimp only
    split
    · exact .write _
    · exact .bind (.write _) fun _ => .bind (hd.branchOf no helse.2 helse.1) fun _ => .write _
  | loop init cond post body hinit hbody =>
    refine hno (by simp [contents]) (by simp [Stmt.respell, contents]) ?_
    have hstart := hd.loopStart (hs.part (by simp [Stmt.exprs]) (by simp [Stmt.variables]) :
      init.Spelled R f)
    have hcond := hd.optional (hs.idents.mono (by simp [Stmt.exprs] : cond.parts ⊆ _))
    have hpost := hd.optional (hs.idents.mono (fun e he => by simp [Stmt.exprs, he]) :
      R.Spells f post.parts)
    have hbody := hbody (hs.part (fun e he => by simp [Stmt.exprs, he]) (by simp [Stmt.variables]))
    rw [Stmt.respell, stmt, stmt]
    exact .bind .writeIndent fun _ => .bind (.write _) fun _ => .bind hstart fun _ =>
      .bind (.write _) fun _ => .bind hcond fun _ => .bind (.write _) fun _ =>
      .bind hpost fun _ => .bind (.write _) fun _ =>
      .bind (hd.branchOf body hbody.2 hbody.1) fun _ => .write _
  | discard =>
    refine hno (by simp [contents]) (by simp [Stmt.respell, contents]) ?_
    rw [Stmt.respell, stmt, stmt, hd.discard]
    exact .writeLine _
  | breakLoop =>
    refine hno (by simp [contents]) (by simp [Stmt.respell, contents]) ?_
    rw [Stmt.respell, stmt, stmt]
    exact .writeLine _
  | continueLoop =>
    refine hno (by simp [contents]) (by simp [Stmt.respell, contents]) ?_
    rw [Stmt.respell, stmt, stmt]
    exact .writeLine _

/-! ### Functions -/

end StmtDialect

/-- The same as for a statement, with the parameters of the function among the variables. -/
structure FuncDef.Spelled (R : Region σ) (f : Spelling) (g : FuncDef) : Prop where
  idents : R.Spells f g.exprs
  declared : ∀ v ∈ g.variables, R.table.get v.name = v.name

namespace FuncDef.Spelled

variable {R : Region σ} {f : Spelling} {g : FuncDef}

lemma body (hg : g.Spelled R f) : (Stmt.block g.body).Spelled R f where
  idents := hg.idents.mono (by simp [Stmt.exprs, FuncDef.exprs])
  declared v hv := hg.declared v (List.mem_append_right _ (by rwa [Stmt.variables] at hv))

lemma param (hg : g.Spelled R f) {p : VarDecl} (hp : p ∈ g.params) :
    R.table.get p.var.name = p.var.name :=
  hg.declared p.var (List.mem_append_left _ (List.mem_map_of_mem hp))

end FuncDef.Spelled

namespace StmtDialect

variable {R : Region σ} {f : Spelling} {d d' : StmtDialect σ} {g : FuncDef}

lemma Spells.funcWithSignature (hd : d.Spells R f d') (signature : String) (hg : g.Spelled R f) :
    Emit.Agrees R (d.funcWithSignature signature g)
      (d'.funcWithSignature signature (g.respell f)) := by
  have hbody : Emit.Agrees R (d.stmts g.body) (d'.stmts (g.body.map (Stmt.respell f))) :=
    agrees_stmts fun s hs => (hd.stmt_contents (hg.body.of_block hs)).1
  exact .bind .writeIndent fun _ => .bind (.write _) fun _ => .bind (hd.compound hbody) fun _ =>
    .write _

lemma Spells.funcDef (hd : d.Spells R f d') (hg : g.Spelled R f) :
    Emit.Agrees R (d.funcDef g) (d'.funcDef (g.respell f)) := by
  unfold StmtDialect.funcDef
  rw [hd.verbatim]
  refine .bind (.mapped _ _) fun type => .bind (.mapM fun p hp => ?_) fun params => ?_
  · exact hd.exprs.paramText (hg.param hp)
  · exact hd.funcWithSignature _ hg

/-- The entry point, which keeps a name in store. -/
lemma Spells.entryPoint (hd : d.Spells R f d') (mark : EntryMark)
    (hmark : R.table.get mark.accumulator = mark.accumulator) (signature : String)
    (hg : g.Spelled R f) :
    Emit.Agrees R (do modify fun w => { w with entry := mark }; d.funcWithSignature signature g)
      (do modify fun w => { w with entry := mark }; d'.funcWithSignature signature (g.respell f)) :=
  .bind (.change fun _ hw => ⟨hw.function, hw.table, hw.accumulator, fun _ => hmark⟩) fun _ =>
    hd.funcWithSignature signature hg

end StmtDialect

end Shaderwright
