import Mathlib.Tactic.Common
import Shaderwright.Proofs.Lists
import Shaderwright.Proofs.Msl.Compile
import Shaderwright.Proofs.Msl.Helpers

/-!
The uniforms of a shader: one for each name of a parameter, described by the first parameter of
that name, with the IDs that were free when it was declared. Nothing inside a function changes them.
-/

namespace Shaderwright.Msl

/-! ### One parameter after another -/

/-- The uniforms so far and the first ID that is still free. -/
structure Layout where
  uniforms : List Uniform := []
  nextId : Int64 := 0

/-- How a parameter is declared inside the uniform struct. -/
def fieldText (v : Variable) : String :=
  (if v.precision.text = "" then "" else v.precision.text ++ " ") ++ types.get v.type.name ++ " " ++
    v.name ++ v.extent ++ ";"

namespace Layout

/-- A parameter gets the next IDs, unless its name has some. -/
def add (l : Layout) (v : Variable) : Layout :=
  if v.name ∈ l.uniforms.map Uniform.name then l
  else ⟨l.uniforms ++ [⟨v.name, fieldText v, l.nextId, v.count⟩], l.nextId + v.count⟩

/-- What is known of a uniform, apart from its ID, is known of the first parameter of its name. -/
lemma uniforms_foldl_add {β : Type} {known : Uniform → β} {stated : Variable → β}
    (h : ∀ v id, known ⟨v.name, fieldText v, id, v.count⟩ = stated v) (l : Layout)
    (vs : List Variable) :
    (vs.foldl add l).uniforms.map (fun u => (u.name, known u)) =
      (vs.map fun v => (v.name, stated v)).foldl addNew
        (l.uniforms.map fun u => (u.name, known u)) := by
  induction vs generalizing l with
  | nil => rfl
  | cons v vs ih =>
    rw [List.foldl_cons, ih, List.map_cons, List.foldl_cons]
    congr 1
    rw [add, addNew, List.map_map]
    show List.map _ (if v.name ∈ l.uniforms.map Uniform.name then l else _).uniforms =
      if v.name ∈ l.uniforms.map Uniform.name then _ else _
    split
    · rfl
    · simp [h]

end Layout

def State.layout (s : State) : Layout := ⟨s.uniforms, s.nextId⟩

/-! ### One declaration after another -/

def withLayout (l : Layout) (s : State) : State :=
  { s with uniforms := l.uniforms, nextId := l.nextId }

lemma unnoticed_withLayout (l : Layout) : Unnoticed (withLayout l) :=
  ⟨fun _ => rfl, fun _ => rfl⟩

variable {c : Scope} {w w' : Writer State} {names : NameTable} {shader : String}

lemma layout_of_tame {α : Type} {m : Emit State α} {r : Except Fault α}
    (hexec : m.exec w = (r, w')) (hm : ∀ l, Emit.Tame c (withLayout l) m) (hw : w.Calm c) :
    w'.own.layout = w.own.layout := by
  have hl := ((hm w.own.layout).lifts "" w w hw hw ⟨by simp, rfl, rfl⟩).2.own
  rw [hexec] at hl
  rw [hl]
  rfl

lemma exec_declareUniform_of_mem {v : Variable} (h : v.name ∈ w.own.uniforms.map Uniform.name) :
    (declareUniform (exprDialect names) v).exec w = (.ok (), w) := by
  have hany : (w.own.uniforms.any fun u => u.name = v.name) = true := by simpa using h
  unfold declareUniform
  rw [Emit.exec_bind_of_ok (Emit.exec_get w), if_pos hany]
  rfl

/-- A new name gets a field. -/
lemma exec_declareUniform_of_not_mem {v : Variable}
    (hmem : v.name ∉ w.own.uniforms.map Uniform.name)
    (h : (declareUniform (exprDialect names) v).exec w = (.ok (), w')) :
    w' = { w with own := { w.own with
      uniforms := w.own.uniforms ++ [⟨v.name, fieldText v, w.own.nextId, v.count⟩]
      nextId := w.own.nextId + v.count
      variableNames := w.own.variableNames.insert v.name ("_uniforms." ++ v.name) } } := by
  have hany : ¬ (w.own.uniforms.any fun u => u.name = v.name) = true := by simpa using hmem
  unfold declareUniform at h
  rw [Emit.exec_bind_of_ok (Emit.exec_get w), if_neg hany] at h
  obtain ⟨type, u, htype, h⟩ := Emit.exec_bind_eq_ok.mp h
  obtain ⟨hsome, rfl⟩ := ExprDialect.exec_mapped_eq_ok.mp htype
  obtain ⟨-, rfl⟩ := Prod.mk.inj h
  have hget : types.get v.type.name = type := congrArg (Option.getD · "") hsome
  rw [fieldText, hget]

lemma layout_declareUniform {v : Variable}
    (h : (declareUniform (exprDialect names) v).exec w = (.ok (), w')) :
    w'.own.layout = w.own.layout.add v := by
  by_cases hmem : v.name ∈ w.own.uniforms.map Uniform.name
  · rw [exec_declareUniform_of_mem hmem] at h
    obtain ⟨-, rfl⟩ := Prod.mk.inj h
    exact (if_pos hmem).symm
  · rw [exec_declareUniform_of_not_mem hmem h]
    exact (if_neg hmem).symm

lemma layout_decl_of_no_param {x : Decl} (hx : x.param? = none) (hw : w.Calm {})
    (h : ((dialect names shader).decl x).exec w = (.ok (), w')) :
    w'.own.layout = w.own.layout := by
  cases x with
  | absent => simp [Dialect.decl] at h
  | var v =>
    have hv : v.var.qualifier ≠ .param := by simpa [Decl.param?] using hx
    exact layout_of_tame h
      (fun l => tame_declare (unnoticed_withLayout l) names (.inl hv)) hw
  | func f =>
    have hdefine : ∀ l, Emit.Tame ⟨some f.name, ""⟩ (withLayout l)
        ((dialect names shader).define f) := fun l =>
      tame_define (unnoticed_withLayout l) names shader f fun _ _ => rfl
    exact layout_of_tame h (fun l => Dialect.tame_func (hdefine l)) hw

lemma exec_decl_param {v : VarDecl} (hv : v.var.qualifier = .param) (hw : w.Calm {}) :
    ((dialect names shader).decl (.var v)).exec w =
      (declareUniform (exprDialect names) v.var).exec w := by
  show (declare (exprDialect names) v).exec w = _
  unfold declare
  rw [hv]
  simp only [Emit.exec_bind, Emit.exec_get, hw.function]

/-- One declaration adds at most the uniform of its parameter. -/
lemma layout_decl {x : Decl} (hw : w.Calm {})
    (h : ((dialect names shader).decl x).exec w = (.ok (), w')) :
    w'.own.layout = x.param?.toList.foldl Layout.add w.own.layout := by
  rcases hx : x.param? with _ | p
  · rw [layout_decl_of_no_param hx hw h]
    rfl
  · obtain ⟨v, rfl, hv, rfl⟩ := Decl.param?_eq_some hx
    rw [exec_decl_param hv hw] at h
    exact layout_declareUniform h

lemma layout_decls {xs : List Decl} (hw : w.Calm {})
    (h : ((dialect names shader).decls xs).exec w = (.ok (), w')) :
    w'.own.layout = (xs.filterMap Decl.param?).foldl Layout.add w.own.layout := by
  induction xs generalizing w with
  | nil =>
    obtain ⟨-, rfl⟩ := Prod.mk.inj h
    rfl
  | cons x xs ih =>
    obtain ⟨_, u, hx, hxs⟩ := Emit.exec_bind_eq_ok.mp h
    have hu : u.Calm {} := by
      have hkeep := ((tame_dialect names shader).decl x).keeps w hw
      rwa [hx] at hkeep
    rw [ih hu hxs, layout_decl hw hx]
    rcases hparam : x.param? with _ | v <;> simp [hparam]

lemma layout_of_translate {common : String} {s : Shader} {text : String} {own : State}
    (h : translate common (some s) = .ok (text, own)) :
    own.layout = s.params.foldl Layout.add {} := by
  obtain ⟨-, w, body, hw, -, -, rfl⟩ := translate_eq_ok.mp h
  exact layout_decls ⟨rfl, rfl, rfl⟩ hw

def Uniform.sized (u : Uniform) : String × Int64 := (u.name, u.count)

def sizedParam (v : Variable) : String × Int64 := (v.name, v.count)

lemma uniforms_of_translate {common : String} {s : Shader} {text : String} {own : State}
    (h : translate common (some s) = .ok (text, own)) :
    own.uniforms.map Uniform.sized = (s.params.map sizedParam).foldl addNew [] := by
  have hsized : (s.params.foldl Layout.add {}).uniforms.map (fun u => (u.name, u.count)) =
      (s.params.map fun v => (v.name, v.count)).foldl addNew [] :=
    Layout.uniforms_foldl_add (fun _ _ => rfl) {} s.params
  rw [← layout_of_translate h] at hsized
  exact hsized

end Shaderwright.Msl
