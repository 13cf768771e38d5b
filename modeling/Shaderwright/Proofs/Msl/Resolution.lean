import Mathlib.Tactic.Common
import Shaderwright.Proofs.Emit.Verbatim
import Shaderwright.Proofs.Msl.DirectText
import Shaderwright.Proofs.Msl.Uniforms
import Shaderwright.Proofs.Source.Resolution

/-!
Names in MSL. The table of variables grows with the parameters of the shader and knows nothing of
scopes, and the helpers get their names in the finished text, whatever else stands there. Still a
shader is written as if its identifiers were spelled by what they refer to, provided that no
variable has the name of a stage input or of a parameter that is declared before it, and that the
helpers are told apart from all else.
-/

namespace Shaderwright.Msl

/-- A parameter of the shader is a field of the uniforms; any other variable has its own name. -/
def variableSpelling (params : List Variable) (v : Variable) : String :=
  if v ∈ params then "_uniforms." ++ v.name else v.name

def spelling (params : List Variable) : Spelling :=
  spellingOf (variableSpelling params) inputName

variable {function : Option String} {table : NameTable} {hempty : table.get "" = ""}
  {params : List Variable} {names : NameTable} {shader : String}

variable {taken : List String} {c c' : Source.Context} {w w' : Writer State}

/-- In front of a declaration every name is looked up as what it stands for, and the names that are
not taken stand for themselves. -/
structure Aligned (params : List Variable) (taken : List String) (c : Source.Context) (s : State) :
    Prop where
  spelled : ∀ name, s.variableNames.get name = spelling params name (c.scope.ref name)
  free : ∀ name, name ∉ taken → s.variableNames.get name = name
  named : "" ∉ taken
  uniforms : ∀ u ∈ s.uniforms, s.variableNames.get u.name = "_uniforms." ++ u.name

namespace Aligned

variable {vs : List Variable} {s s' : State}

/-- What a name stands for among variables that keep their names is found in the table as well. -/
lemma stands (h : Aligned params taken c s)
    (hvariables : ∀ v ∈ vs, v ∉ params ∧ s.variableNames.get v.name = v.name) {name : String}
    {ref : Ref} (hstands : Source.StandsFor c.scope vs name ref) :
    s.variableNames.get name = spelling params name ref := by
  rcases hstands with rfl | ⟨v, hv, rfl, rfl⟩
  · exact h.spelled name
  · obtain ⟨hnot, hname⟩ := hvariables v hv
    show _ = variableSpelling params v
    rw [hname, variableSpelling, if_neg hnot]

/-- A declaration that leaves the table and the uniforms alone. -/
lemma keep {es : List Expr} (h : Aligned params taken c s) (hbetween : Source.Between c c' es vs)
    (hvariables : ∀ v ∈ vs, v ∉ params ∧ s.variableNames.get v.name = v.name)
    (hnames : s'.variableNames = s.variableNames) (huniforms : s'.uniforms = s.uniforms) :
    Aligned params taken c' s' where
  spelled name := by
    rw [hnames]
    exact h.stands hvariables (hbetween.scope name)
  free name hname := by
    rw [hnames]
    exact h.free name hname
  named := h.named
  uniforms u hu := by
    rw [huniforms] at hu
    rw [hnames]
    exact h.uniforms u hu

end Aligned

/-- A parameter is spelled as a field from now on, and no other name changes. -/
lemma table_declareUniform {v : Variable} (hold : ∀ u ∈ w.own.uniforms,
      w.own.variableNames.get u.name = "_uniforms." ++ u.name)
    (h : (declareUniform (exprDialect names) v).exec w = (.ok (), w')) :
    (∀ name, w'.own.variableNames.get name =
        if name = v.name then "_uniforms." ++ v.name else w.own.variableNames.get name) ∧
      ∀ u ∈ w'.own.uniforms, u ∈ w.own.uniforms ∨ u.name = v.name := by
  unfold declareUniform at h
  rw [Emit.exec_bind_of_ok (Emit.exec_get w)] at h
  split at h
  · rename_i hany
    obtain ⟨-, rfl⟩ := Prod.mk.inj h
    obtain ⟨u, hu, hname⟩ := List.any_eq_true.mp hany
    have hname : u.name = v.name := of_decide_eq_true hname
    refine ⟨fun name => ?_, fun u hu => .inl hu⟩
    split_ifs with heq
    · rw [heq, ← hname]
      exact hold u hu
    · rfl
  · obtain ⟨type, u, htype, h⟩ := Emit.exec_bind_eq_ok.mp h
    obtain ⟨-, rfl⟩ := ExprDialect.exec_mapped_eq_ok.mp htype
    obtain ⟨-, rfl⟩ := Prod.mk.inj h
    refine ⟨fun name => NameTable.get_insert _ _ _ name, fun u hu => ?_⟩
    rcases List.mem_append.mp hu with hu | hu
    · exact .inl hu
    · exact .inr (by rw [List.mem_singleton.mp hu])

/-- A parameter of the shader hides what had its name before. -/
lemma Aligned.param {v : Variable} (h : Aligned params taken c w.own) (hname : v.name ≠ "")
    (hv : v ∈ params) (hexec : (declareUniform (exprDialect names) v).exec w = (.ok (), w')) :
    Aligned params (taken ++ [v.name]) (c.declare v) w'.own := by
  obtain ⟨htable, huniforms⟩ := table_declareUniform h.uniforms hexec
  refine ⟨fun name => ?_, fun name hfree => ?_, ?_, fun u hu => ?_⟩
  · rw [htable, Source.Context.declare, Source.Scope.ref_cons]
    by_cases heq : name = v.name
    · rw [if_pos heq, if_pos heq.symm]
      show _ = variableSpelling params v
      rw [variableSpelling, if_pos hv]
    · rw [if_neg heq, if_neg (Ne.symm heq)]
      exact h.spelled name
  · obtain ⟨hnot, hne⟩ : name ∉ taken ∧ name ≠ v.name := by simpa using hfree
    rw [htable, if_neg hne]
    exact h.free name hnot
  · simpa using ⟨h.named, hname⟩
  · rw [htable]
    split_ifs with heq
    · rw [heq]
    · exact h.uniforms u ((huniforms u hu).resolve_right heq)

end Shaderwright.Msl
