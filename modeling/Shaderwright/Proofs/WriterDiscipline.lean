import Mathlib.Tactic.Common
import Shaderwright.Proofs.Emit.Extends
import Shaderwright.Proofs.Hlsl.Bindings
import Shaderwright.Proofs.Msl.Helpers
import Shaderwright.Proofs.RenderedAside

/-!
What a writer leaves behind, whatever it was asked to write. In every language the output only
grows, from every state and also where something fails; and behind anything that succeeds outside
the mark of an entry point, the writer stands where it stood before.
-/

namespace Shaderwright

variable {σ : Type}

/-! ### Steps -/

/-- The second writer stands where the first one did, and the next block is an ordinary one. -/
structure Writer.Resumes (w v : Writer σ) : Prop where
  depth : v.depth = w.depth
  function : v.function = w.function
  entry : v.entry.armed = false

/-- A step that is tame in every scope comes back to the scope it started in. -/
lemma Emit.resumes_of_tame {α : Type} {m : Emit σ α} (hm : ∀ c, Emit.Tame c id m) {w v : Writer σ}
    {a : α} (hw : w.entry.armed = false) (h : m.exec w = (.ok a, v)) :
    w.Resumes v ∧ v.accumulator = w.accumulator := by
  have hcalm : w.Calm ⟨w.function, w.accumulator⟩ := ⟨rfl, rfl, hw⟩
  have hkept := (hm _).keeps w hcalm
  rw [h] at hkept
  exact ⟨⟨(hm _).balanced w a v hcalm h, hkept.function, hkept.entry⟩, hkept.accumulator⟩

/-- The body of the entry point sets the accumulator before it is read and clears it in the end, so
it makes no difference what it was. -/
lemma StmtDialect.resumes_entryPoint {d : StmtDialect σ} (hd : ∀ c, d.Tame c id) {mark : EntryMark}
    (hmark : mark.armed = true) (signature : String) (f : FuncDef) {w v : Writer σ}
    (h : (do modify fun w => { w with entry := mark }; d.funcWithSignature signature f :
      Emit σ Unit).exec w = (.ok (), v)) :
    w.Resumes v ∧ v.accumulator = "" := by
  let w₀ : Writer σ := { w with accumulator := "", entry := {} }
  have hcalm : w₀.Calm ⟨w.function, ""⟩ := ⟨rfl, rfl, rfl⟩
  have htame := Tame.entryPoint (f := w.function) hmark (hd _) (hd _) signature f
  have hsame : (do modify fun w => { w with entry := mark }; d.funcWithSignature signature f :
      Emit σ Unit).exec w₀ = (.ok (), v) := by
    rw [← h, d.funcWithSignature_armed mark hmark]
    rfl
  have hkept := htame.keeps w₀ hcalm
  rw [hsame] at hkept
  exact ⟨⟨htame.balanced w₀ () v hcalm hsame, hkept.function, hkept.entry⟩, hkept.accumulator⟩

/-! ### Passages -/

/-- What a writer can be asked to write. -/
inductive Passage where
  | expr (e : Expr)
  | stmt (s : Stmt)
  | stmts (ss : List Stmt)
  /-- A branch or the body of a loop. -/
  | body (s : Stmt)
  | compound (ss : List Stmt)
  | function (f : FuncDef)

def Dialect.passage (d : Dialect σ) : Passage → Emit σ Unit
  | .expr e => d.expr e
  | .stmt s => d.stmt s
  | .stmts ss => d.stmts ss
  | .body s => d.branch s
  | .compound ss => d.compound (d.stmts ss)
  | .function f => d.define f

/-- From every state the passage puts a text behind the output, which does not depend on the output.
If it succeeds and the mark of the entry point was not set, then the writer stands where it stood,
with the same accumulator; a function may clear the accumulator, if there was one. -/
structure Dialect.Disciplined (d : Dialect σ) (x : Passage) : Prop where
  extends_output : Emit.Extends (d.passage x)
  resumes : ∀ w v : Writer σ, w.entry.armed = false → (d.passage x).exec w = (.ok (), v) →
    w.Resumes v ∧ ((∀ f, x ≠ .function f) ∨ w.accumulator = "" → v.accumulator = w.accumulator)

/-- A language is disciplined in all passages if its declarations and its functions are. -/
lemma Dialect.disciplined {d : Dialect σ} (htame : ∀ c, d.toStmtDialect.Tame c id)
    (hextends : d.toStmtDialect.Extends) (hdefine : ∀ f, Emit.Extends (d.define f))
    (hresumes : ∀ f (w v : Writer σ), w.entry.armed = false → (d.define f).exec w = (.ok (), v) →
      w.Resumes v ∧ (w.accumulator = "" → v.accumulator = "")) (x : Passage) : d.Disciplined x := by
  -- whatever is no function leaves the accumulator alone
  have hkeeps : ∀ {x : Passage}, (∀ c, Emit.Tame c id (d.passage x)) → Emit.Extends (d.passage x) →
      d.Disciplined x := by
    intro x hx he
    refine ⟨he, fun w v hw h => ?_⟩
    obtain ⟨hresumes, hacc⟩ := Emit.resumes_of_tame hx hw h
    exact ⟨hresumes, fun _ => hacc⟩
  cases x with
  | expr e => exact hkeeps (fun c => (htame c).expr e) (hextends.expr e)
  | stmt s => exact hkeeps (fun c => ((htame c).stmt_contents s).1) (hextends.stmt_branch s).1
  | stmts ss => exact hkeeps (fun c => (htame c).stmts ss) (hextends.stmts ss)
  | body s =>
    refine hkeeps (fun c => ?_) (hextends.stmt_branch s).2
    obtain ⟨hstmt, hcontents⟩ := (htame c).stmt_contents s
    exact d.tame_branchOf s hcontents hstmt
  | compound ss =>
    exact hkeeps (fun c => d.tame_compound ((htame c).stmts ss))
      (d.extends_compound (hextends.stmts ss))
  | function f =>
    refine ⟨hdefine f, fun w v hw h => ?_⟩
    obtain ⟨hback, hacc⟩ := hresumes f w v hw h
    refine ⟨hback, fun hempty => ?_⟩
    have hw' : w.accumulator = "" := hempty.resolve_left fun hnone => hnone f rfl
    exact (hacc hw').trans hw'.symm

/-! ### The plain target -/

namespace PlainTarget

variable (t : PlainTarget)

lemma tame_stmtDialect (c : Scope) : t.stmtDialect.Tame c id where
  variableNames _ := rfl
  call _ _ h := ExprDialect.tame_callNamed _ h
  declare v := by
    have hd : t.exprDialect.Tame c id := ⟨fun _ => rfl, fun _ _ h => ExprDialect.tame_callNamed _ h⟩
    exact hd.varDecl v

lemma extends_stmtDialect : t.stmtDialect.Extends where
  expr e := (t.appends_exprDialect.expr e).extends
  declare v := t.exprDialect.extends_varDecl v

lemma disciplined (x : Passage) : t.dialect.Disciplined x := by
  have hextends := t.extends_stmtDialect
  refine Dialect.disciplined t.tame_stmtDialect hextends (fun f => ?_) (fun f w v hw h => ?_) x
  · show Emit.Extends (if _ then _ else _)
    split
    · exact .bind (.change fun _ _ => rfl) fun _ => hextends.funcWithSignature _ f
    · exact hextends.funcDef f
  · change (ite _ _ _ : Emit Unit Unit).exec w = _ at h
    split at h
    · obtain ⟨hback, hacc⟩ := StmtDialect.resumes_entryPoint t.tame_stmtDialect rfl _ f h
      exact ⟨hback, fun _ => hacc⟩
    · obtain ⟨hback, hacc⟩ :=
        Emit.resumes_of_tame (fun c => (t.tame_stmtDialect c).funcDef f) hw h
      exact ⟨hback, fun hempty => hacc.trans hempty⟩

end PlainTarget

/-! ### HLSL -/

namespace Hlsl

lemma tame_stmtDialect_everywhere (paint : Paint) (c : Scope) : (stmtDialect paint).Tame c id where
  toTame := tame_exprDialect paint
  declare := tame_declare_of_append paint fun _ _ => rfl

lemma extends_declare (paint : Paint) (v : VarDecl) :
    Emit.Extends (declare (exprDialect paint) v) := by
  have hbind : ∀ bs, Emit.Extends (bind bs) := fun bs => .change fun _ _ => rfl
  have htexture : Emit.Extends (declareTexture (exprDialect paint) v.var) :=
    .bind (ExprDialect.extends_mapped _ _) fun _ => .bind (ExprDialect.extends_variableName _ _)
      fun _ => .bind (.writeLine _) fun _ => .bind (.writeLine _) fun _ => hbind _
  have huniform : Emit.Extends (declareUniform (exprDialect paint) v.var) := by
    unfold declareUniform
    split
    · exact .throw _
    · exact .bind (ExprDialect.extends_mapped _ _) fun _ => .bind (ExprDialect.extends_mapped _ _)
        fun _ => .bind (ExprDialect.extends_variableName _ _) fun _ => .bind (.writeLine _)
        fun _ => hbind _
  unfold declare
  split
  · exact ExprDialect.extends_defineConstant _ v
  · refine .get (fun w => ?_) fun _ _ => rfl
    split
    · exact .throw _
    · split
      · exact htexture
      · exact huniform
  · refine .get (fun w => ?_) fun _ _ => rfl
    split
    · exact .bind (ExprDialect.extends_varDeclText _ v) fun _ => .writeLine _
    · exact ExprDialect.extends_varDecl _ v

lemma extends_stmtDialect (paint : Paint) : (stmtDialect paint).Extends where
  expr e := ((appends_exprDialect paint).expr e).extends
  declare := extends_declare paint

lemma disciplined (paint : Paint) (x : Passage) : (dialect paint).Disciplined x := by
  have htame := tame_stmtDialect_everywhere paint
  have hextends := extends_stmtDialect paint
  refine Dialect.disciplined htame hextends (fun f => ?_) (fun f w v hw h => ?_) x
  · show Emit.Extends (define (stmtDialect paint) f)
    unfold define
    split
    · exact hextends.funcDef f
    · split
      · exact .throw _
      · exact .bind (ExprDialect.extends_variableName _ _) fun _ =>
          .bind (.change fun _ _ => rfl) fun _ => hextends.funcWithSignature _ f
  · change (define (stmtDialect paint) f).exec w = _ at h
    unfold define at h
    split at h
    · obtain ⟨hback, hacc⟩ := Emit.resumes_of_tame (fun c => (htame c).funcDef f) hw h
      exact ⟨hback, fun hempty => hacc.trans hempty⟩
    · split at h
      · simp at h
      · rw [Emit.exec_bind_of_ok (ExprDialect.exec_variableName _ _ w)] at h
        obtain ⟨hback, hacc⟩ := StmtDialect.resumes_entryPoint htame rfl _ f h
        exact ⟨hback, fun _ => hacc⟩

end Hlsl

/-! ### MSL -/

namespace Msl

lemma tame_stmtDialect_everywhere (names : NameTable) (c : Scope) :
    (stmtDialect names).Tame c id where
  toTame := tame_exprDialect (unnoticed_withHelpers id) names
  declare := tame_declare_withHelpers id names

lemma extends_modifyOwn (change : State → State) : Emit.Extends (modifyOwn change) :=
  .change fun _ _ => rfl

lemma extends_declare (names : NameTable) (v : VarDecl) :
    Emit.Extends (declare (exprDialect names) v) := by
  have huniform : Emit.Extends (declareUniform (exprDialect names) v.var) := by
    refine .get (fun w => ?_) fun _ _ => rfl
    split
    · exact .pure ()
    · exact .bind (ExprDialect.extends_mapped _ _) fun _ => extends_modifyOwn _
  unfold declare
  split
  · exact ExprDialect.extends_defineConstant _ v
  · refine .get (fun w => ?_) fun _ _ => rfl
    split
    · exact .throw _
    · exact huniform
  · refine .get (fun w => ?_) fun _ _ => rfl
    split
    · exact ExprDialect.extends_varDecl _ v
    · dsimp only
      split
      · exact .bind (.throw _) fun _ => .bind (ExprDialect.extends_varDeclText _ v) fun _ =>
          .writeLine _
      · exact .bind (ExprDialect.extends_varDeclText _ v) fun _ => .writeLine _

lemma extends_stmtDialect (names : NameTable) : (stmtDialect names).Extends where
  expr e := ((appends_exprDialect names).expr e).extends
  declare := extends_declare names

lemma extends_paramText (names : NameTable) (p : VarDecl) :
    Emit.Extends (paramText (exprDialect names) p) := by
  refine .bind (ExprDialect.extends_mapped _ _) fun type =>
    .bind (ExprDialect.extends_variableName _ _) fun name => ?_
  split
  · exact .bind (ExprDialect.extends_mapped _ _) fun _ => .pure _
  · exact .pure _

lemma extends_define (names : NameTable) (shader : String) (f : FuncDef) :
    Emit.Extends (define (stmtDialect names) shader f) := by
  have hextends := extends_stmtDialect names
  have hsignature : ∀ (head : String) (handles : List String), Emit.Extends (do
      let params ← f.params.mapM (paramText (exprDialect names))
      (stmtDialect names).funcWithSignature
        (head ++ Text.joinWith ", " (handles ++ params) ++ ")") f) := fun head handles =>
    .bind (.mapM (extends_paramText names) _) fun _ => hextends.funcWithSignature _ f
  unfold define
  split
  · unfold defineEntry
    split
    · exact .throw _
    · exact .bind (ExprDialect.extends_variableName _ _) fun _ =>
        .bind (.change fun _ _ => rfl) fun _ => hextends.funcWithSignature _ f
  · refine .bind (ExprDialect.extends_mapped _ _) fun type => ?_
    dsimp only
    split
    · exact .bind (extends_modifyOwn _) fun _ => hsignature _ _
    · exact hsignature _ _

lemma disciplined (names : NameTable) (shader : String) (x : Passage) :
    (dialect names shader).Disciplined x := by
  have htame := tame_stmtDialect_everywhere names
  refine Dialect.disciplined htame (extends_stmtDialect names) (extends_define names shader)
    (fun f w v hw h => ?_) x
  change (define (stmtDialect names) shader f).exec w = _ at h
  by_cases hname : f.name = entryPointName
  · unfold define at h
    rw [if_pos hname] at h
    unfold defineEntry at h
    split at h
    · simp at h
    · rw [Emit.exec_bind_of_ok (ExprDialect.exec_variableName _ _ w)] at h
      obtain ⟨hback, hacc⟩ := StmtDialect.resumes_entryPoint htame rfl _ f h
      exact ⟨hback, fun _ => hacc⟩
  · have hdefine : ∀ c, Emit.Tame c id (define (stmtDialect names) shader f) := fun c =>
      tame_define_of_ne (unnoticed_withHelpers id) (htame c) shader hname fun _ _ => rfl
    obtain ⟨hback, hacc⟩ := Emit.resumes_of_tame hdefine hw h
    exact ⟨hback, fun hempty => hacc.trans hempty⟩

end Msl

/-! ### All languages -/

/-- Whatever is written in whatever language, the output in front of it stays and has no influence
on what is written, and behind a success the writer stands where it stood. -/
theorem writing_disciplined (x : Passage) :
    (∀ t : PlainTarget, t.dialect.Disciplined x) ∧
      (∀ paint, (Hlsl.dialect paint).Disciplined x) ∧
      ∀ names shader, (Msl.dialect names shader).Disciplined x :=
  ⟨fun t => t.disciplined x, fun paint => Hlsl.disciplined paint x,
    fun names shader => Msl.disciplined names shader x⟩

/-- An entry point that gives its colour back early in the branch of a loop. -/
def eddy : FuncDef where
  name := "main"
  returns := .void
  body := [
    .loop (.decl ⟨{ name := "i", type := .int }, .literal "0" .int⟩) .absent .absent
      (.block [.ifElse (.ident "wet" .unresolved) (.returns .absent) .breakLoop])]

/-- Behind the entry point the writer is where it was, and behind the loop in its body it still
knows the colour to give back. -/
theorem writing_disciplined_eddy :
    (∃ v : Writer Hlsl.State,
      ((Hlsl.dialect ⟨"paint", []⟩).passage (.function eddy)).exec
        { out := "x", depth := 2, function := some "main", own := [] } = (.ok (), v) ∧
      v.depth = 2 ∧ v.function = some "main" ∧ v.entry.armed = false ∧ v.accumulator = "") ∧
    ∃ v : Writer Hlsl.State,
      ((Hlsl.dialect ⟨"paint", []⟩).passage (.compound eddy.body)).exec
        { out := "x", depth := 2, function := some "main", accumulator := "color", own := [] } =
          (.ok (), v) ∧
      v.depth = 2 ∧ v.function = some "main" ∧ v.entry.armed = false ∧ v.accumulator = "color" := by
  have hfunction : (((Hlsl.dialect ⟨"paint", []⟩).passage (.function eddy)).exec
      { out := "x", depth := 2, function := some "main", own := [] }).1 = .ok () := by
    decide +kernel
  have hbody : (((Hlsl.dialect ⟨"paint", []⟩).passage (.compound eddy.body)).exec
      { out := "x", depth := 2, function := some "main", accumulator := "color", own := [] }).1 =
      .ok () := by
    decide +kernel
  obtain ⟨hback, hacc⟩ := ((writing_disciplined (.function eddy)).2.1 ⟨"paint", []⟩).resumes _ _
    rfl (Prod.ext hfunction rfl)
  obtain ⟨hback', hacc'⟩ := ((writing_disciplined (.compound eddy.body)).2.1
    ⟨"paint", []⟩).resumes _ _ rfl (Prod.ext hbody rfl)
  exact ⟨⟨_, Prod.ext hfunction rfl, hback.depth, hback.function, hback.entry, hacc (.inr rfl)⟩,
    ⟨_, Prod.ext hbody rfl, hback'.depth, hback'.function, hback'.entry,
      hacc' (.inl fun _ => Passage.noConfusion)⟩⟩

end Shaderwright
