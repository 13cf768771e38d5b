import Mathlib.Tactic.Common
import Shaderwright.Emit.Plain
import Shaderwright.Proofs.Hlsl.PaintCalls
import Shaderwright.Msl.Dialect

/-!
Rendering an expression aside. The text of an expression can be asked for without writing it, also
while another expression is being written. It is the text that writing would put behind the output,
and a fault comes up in both cases, behind the same part of the text.
-/

namespace Shaderwright

variable {σ : Type}

/-! ### The three languages -/

lemma PlainTarget.appends_exprDialect (t : PlainTarget) : t.exprDialect.Appends Eq := by
  intro callee args h
  exact ExprDialect.appends_callNamed _ h

namespace Msl

/-- Nothing is different but the note that a texture was read. -/
def Noted (s s' : State) : Prop := ∃ reads, s' = { s with samples := s.samples || reads }

instance : IsPreorder State Noted where
  refl s := ⟨false, by simp⟩
  trans s s' s'' := by
    rintro ⟨r, rfl⟩ ⟨r', rfl⟩
    exact ⟨r || r', by simp [Bool.or_assoc]⟩

lemma appends_exprDialect (names : NameTable) : (exprDialect names).Appends Noted := by
  intro callee args h
  have hnote : Emit.Appends Noted (modifyOwn fun s => { s with samples := true }) := by
    intro w
    exact ⟨.ok (), "", { w.own with samples := true }, ⟨true, by simp⟩, fun out => by
      simp [modifyOwn]⟩
  show Emit.Appends Noted (call names callee args)
  unfold call
  split
  · exact .bind hnote fun _ => ExprDialect.appends_callNamed _ h
  · split
    · refine .bind (.write _) fun _ => .bind (.forM fun arg harg => ?_) fun _ => .write _
      exact .bind (.write _) fun _ => (h arg harg).write
    · exact ExprDialect.appends_callMapped _ _ h

end Msl

/-! ### Aside and in place -/

/-- From every state an expression that is rendered aside leaves all but the own state alone,
whatever comes of it. Its text is what writing it appends, and a fault is that of writing it, which
has appended the text that was rendered up to the fault. -/
structure ExprDialect.RendersAlike (d : ExprDialect σ) (e : Expr) : Prop where
  keeps : ∀ w : Writer σ, ∃ own, ((d.exprText e).exec w).2 = { w with own := own }
  text : ∀ (w v : Writer σ) (text : String), (d.exprText e).exec w = (.ok text, v) →
    (d.expr e).exec w = (.ok (), { v with out := w.out ++ text })
  fault : ∀ (w v : Writer σ) (fault : Fault), (d.exprText e).exec w = (.error fault, v) →
    ∃ text, (Emit.capture (d.expr e)).exec w = (.ok (text, .error fault), v) ∧
      (d.expr e).exec w = (.error fault, { v with out := w.out ++ text })

/-- One run tells both: how an expression is rendered aside and how it is written in place. -/
lemma ExprDialect.Appends.exec_exprText {R : σ → σ → Prop} [IsPreorder σ R] {d : ExprDialect σ}
    (hd : d.Appends R) (e : Expr) (w : Writer σ) :
    ∃ (r : Except Fault Unit) (text : String) (own : σ),
      (d.expr e).exec w = (r, { w with out := w.out ++ text, own := own }) ∧
      (Emit.capture (d.expr e)).exec w = (.ok (text, r), { w with own := own }) ∧
      (d.exprText e).exec w = (r.map fun _ => text, { w with own := own }) := by
  obtain ⟨r, text, own, -, hexec⟩ := hd.expr e w
  refine ⟨r, text, own, hexec w.out, ?_, ?_⟩
  · simp [hexec]
  · rw [exprText, Emit.exec_captured, hexec]
    cases r <;> simp [Except.map]

lemma ExprDialect.Appends.rendersAlike {R : σ → σ → Prop} [IsPreorder σ R] {d : ExprDialect σ}
    (hd : d.Appends R) (e : Expr) : d.RendersAlike e where
  keeps w := by
    obtain ⟨r, text, own, -, -, haside⟩ := hd.exec_exprText e w
    exact ⟨own, by rw [haside]⟩
  text w v text h := by
    obtain ⟨r, text', own, hwrite, -, haside⟩ := hd.exec_exprText e w
    obtain ⟨hr, rfl⟩ := Prod.mk.inj (haside.symm.trans h)
    cases r with
    | error fault => simp [Except.map] at hr
    | ok _ =>
      obtain rfl : text' = text := by simpa [Except.map] using hr
      exact hwrite
  fault w v fault h := by
    obtain ⟨r, text, own, hwrite, hcapture, haside⟩ := hd.exec_exprText e w
    obtain ⟨hr, rfl⟩ := Prod.mk.inj (haside.symm.trans h)
    cases r with
    | ok _ => simp [Except.map] at hr
    | error fault' =>
      obtain rfl : fault' = fault := by simpa [Except.map] using hr
      exact ⟨text, hcapture, hwrite⟩

/-- In every language and from every state, rendering an expression aside and writing it in place
agree. -/
theorem expr_rendered_aside (e : Expr) :
    (∀ t : PlainTarget, t.exprDialect.RendersAlike e) ∧
      (∀ paint, (Hlsl.exprDialect paint).RendersAlike e) ∧
      ∀ names, (Msl.exprDialect names).RendersAlike e :=
  ⟨fun t => t.appends_exprDialect.rendersAlike e,
    fun paint => (Hlsl.appends_exprDialect paint).rendersAlike e,
    fun names => (Msl.appends_exprDialect names).rendersAlike e⟩

/-- An element of an array of textures whose index is a stage input, behind another operand. -/
def layered : Expr :=
  .binary "+" (.ident "base" .unresolved)
    (.call "sample" [
      .index (.ident "layers" .unresolved) (.ident "fragCoord" (.input .fragCoord)),
      .ident "uv" .unresolved])

/-- In the entry point the index is rendered aside while the operand is rendered aside. In another
function it is refused there, and what was in front of it has been written. -/
theorem expr_rendered_aside_layered :
    (∃ v : Writer Hlsl.State,
      ((Hlsl.exprDialect ⟨"paint", []⟩).exprText layered).exec
        { out := "x = ", function := some "main", own := [] } =
          (.ok "(base + layers[_position].Sample(layers_sampler[_position], uv))", v) ∧
      ((Hlsl.exprDialect ⟨"paint", []⟩).expr layered).exec
        { out := "x = ", function := some "main", own := [] } =
          (.ok (), { v with out :=
            "x = " ++ "(base + layers[_position].Sample(layers_sampler[_position], uv))" })) ∧
    ∃ v : Writer Hlsl.State,
      ((Hlsl.exprDialect ⟨"paint", []⟩).exprText layered).exec
        { out := "x = ", function := some "shade", own := [] } =
          (.error (.inputScope "fragCoord"), v) ∧
      ((Hlsl.exprDialect ⟨"paint", []⟩).expr layered).exec
        { out := "x = ", function := some "shade", own := [] } =
          (.error (.inputScope "fragCoord"), { v with out := "x = " ++ "(base + " }) := by
  have hlsl := (expr_rendered_aside layered).2.1 ⟨"paint", []⟩
  have hmain : (((Hlsl.exprDialect ⟨"paint", []⟩).exprText layered).exec
      { out := "x = ", function := some "main", own := [] }).1 =
      .ok "(base + layers[_position].Sample(layers_sampler[_position], uv))" := by decide +kernel
  have hshade : (((Hlsl.exprDialect ⟨"paint", []⟩).exprText layered).exec
      { out := "x = ", function := some "shade", own := [] }).1 =
      .error (.inputScope "fragCoord") := by decide +kernel
  have hfront : ((Emit.capture ((Hlsl.exprDialect ⟨"paint", []⟩).expr layered)).exec
      { out := "x = ", function := some "shade", own := [] }).1 =
      .ok ("(base + ", .error (.inputScope "fragCoord")) := by decide +kernel
  refine ⟨⟨_, Prod.ext hmain rfl, hlsl.text _ _ _ (Prod.ext hmain rfl)⟩,
    ⟨_, Prod.ext hshade rfl, ?_⟩⟩
  obtain ⟨text, hcapture, hwrite⟩ := hlsl.fault _ _ _ (Prod.ext hshade rfl)
  rw [hcapture] at hfront
  obtain rfl : text = "(base + " := congrArg Prod.fst (Except.ok.inj hfront)
  exact hwrite

end Shaderwright
