import Mathlib.Tactic.Common
import Shaderwright.Hlsl.Compile
import Shaderwright.Proofs.Build.Step
import Shaderwright.Proofs.Emit.Exec

/-!
What a compile consists of. One that succeeds is a translation, in which all declarations are
written, and a finish from a world with the same files; one that fails leaves the world alone.
-/

namespace Shaderwright.Hlsl

lemma finish_toCode (o : Options) (shader : String) (code : Code) (w : World) :
    (finish o shader code w).1.toCode = code := rfl

/-- The result of a compile apart from its header: the translation, unless the budget forbids
it. -/
def verdict (o : Options) (s : Option Shader) : Except Failure Code :=
  match translate o s with
  | .error f => .error (.fault f)
  | .ok code =>
    match overflow? code.bindings o.slotBudget with
    | none => .ok code
    | some overflow => if o.budgetPolicy = .fatal then .error (.overBudget overflow) else .ok code

/-- What is not translated is at fault, and what is can still exceed the budget. -/
lemma verdict_cases (o : Options) (s : Option Shader) :
    (∃ f, translate o s = .error f ∧ verdict o s = .error (.fault f)) ∨
      ∃ code, translate o s = .ok code ∧
        (verdict o s = .ok code ∨ ∃ overflow, verdict o s = .error (.overBudget overflow)) := by
  unfold verdict
  rcases translate o s with f | code
  · exact .inl ⟨f, rfl, rfl⟩
  · refine .inr ⟨code, rfl, ?_⟩
    rcases ho : overflow? code.bindings o.slotBudget with _ | overflow
    · exact .inl (by simp [ho])
    · by_cases hpolicy : o.budgetPolicy = .fatal
      · exact .inr ⟨overflow, by simp [ho, hpolicy]⟩
      · exact .inl (by simp [ho, hpolicy])

lemma translate_of_verdict {o : Options} {s : Option Shader} {code : Code}
    (h : verdict o s = .ok code) : translate o s = .ok code := by
  obtain ⟨f, -, hv⟩ | ⟨code', ht, hv | ⟨overflow, hv⟩⟩ := verdict_cases o s <;>
    cases h.symm.trans hv
  exact ht

lemma verdict_eq_error {o : Options} {s : Option Shader} {e : Failure}
    (h : verdict o s = .error e) :
    (∃ overflow, e = .overBudget overflow) ∨ ∃ f, e = .fault f ∧ translate o s = .error f := by
  obtain ⟨f, ht, hv⟩ | ⟨code, -, hv | ⟨overflow, hv⟩⟩ := verdict_cases o s <;>
    cases h.symm.trans hv
  · exact .inr ⟨f, rfl, ht⟩
  · exact .inl ⟨overflow, rfl⟩

/-- A compile fails in the world it was started in, or it finishes; before that it may at most
have logged that the budget is exceeded. -/
lemma compile_cases (o : Options) (s : Option Shader) (w : World) :
    (∃ e, verdict o s = .error e ∧ compile o s w = (.error e, w)) ∨
      ∃ code v, verdict o s = .ok code ∧ v.files = w.files ∧
        compile o s w = (.ok (finish o ((s.map Shader.name).getD "") code v).1,
          (finish o ((s.map Shader.name).getD "") code v).2) := by
  unfold compile verdict
  rcases translate o s with f | code
  · exact .inl ⟨_, rfl, rfl⟩
  · rcases ho : overflow? code.bindings o.slotBudget with _ | overflow
    · exact .inr ⟨code, w, by simp [ho], rfl, by simp [ho]⟩
    · by_cases hpolicy : o.budgetPolicy = .fatal
      · exact .inl ⟨.overBudget overflow, by simp [ho, hpolicy], by simp [ho, hpolicy]⟩
      · refine .inr ⟨code, (Build.log .warn "root signature budget exceeded"
          [("shader", .text ((s.map Shader.name).getD "")),
            ("error", .text (overBudgetMessage overflow))] w).2, by simp [ho, hpolicy], rfl, ?_⟩
        simp [ho, hpolicy]

/-- A compile succeeds by translating the shader and finishing. -/
lemma compile_eq_ok {o : Options} {s : Option Shader} {w w' : World} {out : Output}
    (h : compile o s w = (.ok out, w')) :
    ∃ code v, translate o s = .ok code ∧ v.files = w.files ∧
      finish o ((s.map Shader.name).getD "") code v = (out, w') := by
  obtain ⟨e, -, he⟩ | ⟨code, v, hcode, hfiles, hfinish⟩ := compile_cases o s w
  · rw [he] at h
    cases h
  · rw [h, Prod.mk.injEq, Except.ok.injEq] at hfinish
    exact ⟨code, v, translate_of_verdict hcode, hfiles, (Prod.ext hfinish.1 hfinish.2).symm⟩

/-- The world decides on the header of a result only. -/
lemma compile_toCode (o : Options) (s : Option Shader) (w : World) :
    (compile o s w).1.map Output.toCode = verdict o s := by
  obtain ⟨e, hverdict, h⟩ | ⟨code, v, hverdict, -, h⟩ := compile_cases o s w
  · rw [h, hverdict]
    rfl
  · rw [h, hverdict]
    exact congrArg Except.ok (finish_toCode _ _ _ _)

lemma verdict_of_compile {o : Options} {s : Option Shader} {w w' : World} {e : Failure}
    (h : compile o s w = (.error e, w')) : verdict o s = .error e := by
  rw [← compile_toCode o s w, h]
  rfl

lemma world_of_compile_error {o : Options} {s : Option Shader} {w w' : World} {e : Failure}
    (h : compile o s w = (.error e, w')) : w' = w := by
  obtain ⟨e', -, h'⟩ | ⟨code, v, -, -, h'⟩ := compile_cases o s w
  · rw [h, Prod.mk.injEq] at h'
    exact h'.2
  · rw [h] at h'
    cases h'

lemma translate_of_compile {o : Options} {s : Option Shader} {w w' : World} {out : Output}
    (h : compile o s w = (.ok out, w')) : translate o s = .ok out.toCode := by
  obtain ⟨code, v, ht, -, hfinish⟩ := compile_eq_ok h
  rw [ht, ← finish_toCode o _ code v, hfinish]

/-- A shader is compiled if it is translated within the budget. -/
lemma compile_of_translate (o : Options) (s : Shader) (bs : List Binding)
    (ht : (translate o (some s)).map Code.bindings = .ok bs)
    (hb : overflow? bs o.slotBudget = none) (w : World) :
    ∃ out w', compile o (some s) w = (.ok out, w') ∧ out.bindings = bs := by
  rcases hcode : translate o (some s) with f | code
  · simp [hcode, Except.map] at ht
  · obtain rfl : code.bindings = bs := by simpa [hcode, Except.map] using ht
    refine ⟨(finish o s.name code w).1, (finish o s.name code w).2, ?_, rfl⟩
    unfold compile
    simp only [hcode, hb]
    rfl

lemma exec_visit (paint : Paint) (s : Shader) :
    ((dialect paint).visit (headerLine s.name) s).exec { own := [] } =
      ((dialect paint).decls s.decls).exec { out := headerLine s.name, own := [] } := by
  rw [Dialect.visit, Emit.exec_bind_of_ok (Emit.exec_write _ _), String.empty_append]

/-- A shader is translated if it has a name and all its declarations can be written. -/
lemma translate_eq_ok {o : Options} {s : Shader} {code : Code} :
    translate o (some s) = .ok code ↔ s.name ≠ "" ∧
      ∃ v, ((dialect (o.paint s)).decls s.decls).exec { out := headerLine s.name, own := [] } =
        (.ok (), v) ∧ code = ⟨v.out, v.own⟩ := by
  unfold translate
  simp only [exec_visit]
  by_cases hname : s.name = ""
  · simp [hname]
  · rcases ((dialect (o.paint s)).decls s.decls).exec _ with ⟨e | _, v⟩
    · simp [hname]
    · simp [hname, eq_comm]

lemma compile_of_translate_error {o : Options} {s : Shader} {e : Fault}
    (h : translate o (some s) = .error e) (w : World) :
    compile o (some s) w = (.error (.fault e), w) := by
  unfold compile
  rw [h]
  rfl

lemma translate_of_error {o : Options} {s : Shader} {e : Fault} (hname : s.name ≠ "")
    (h : (((dialect (o.paint s)).decls s.decls).exec { out := headerLine s.name, own := [] }).1 =
      .error e) : translate o (some s) = .error e.ofTarget := by
  unfold translate
  simp only [exec_visit, if_neg hname]
  generalize ((dialect (o.paint s)).decls s.decls).exec _ = r at h ⊢
  obtain ⟨r, u⟩ := r
  cases h
  rfl

end Shaderwright.Hlsl
