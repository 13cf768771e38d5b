import Mathlib.Tactic.Common
import Shaderwright.Proofs.Hlsl.Bindings

/-!
The translation of a list of declarations is put together from the translations of its parts. What
a declaration gives depends on the paint function and on nothing that was written before it, and
behind every declaration the writer is at rest again.
-/

namespace Shaderwright.Hlsl

def Code.append (x y : Code) : Code := ⟨x.text ++ y.text, x.bindings ++ y.bindings⟩

/-- What visiting a shader gives: a fault, or the text behind the header with the bindings. -/
def visited (o : Options) (s : Shader) : Except Fault Code :=
  match ((dialect (o.paint s)).visit (headerLine s.name) s).exec { own := [] } with
  | (.ok (), w) => .ok ⟨String.ofList (w.out.toList.drop (headerLine s.name).length), w.own⟩
  | (.error e, _) => .error e

def declsCode (paint : Paint) (xs : List Decl) : Except Fault Code :=
  match ((dialect paint).decls xs).exec { own := [] } with
  | (.ok (), w) => .ok ⟨w.out, w.own⟩
  | (.error e, _) => .error e

variable {paint : Paint} {w : Writer State}

/-- Nothing is put in front of a writer that is at rest but an output and bindings. -/
lemma tame_decls (paint : Paint) (own : State) (xs : List Decl) :
    Emit.Tame {} (own ++ ·) ((dialect paint).decls xs) :=
  (tame_dialect paint fun s bs => (List.append_assoc own s bs).symm).decls xs

/-- Behind what is there already, declarations give what they give alone. -/
lemma exec_decls_behind (paint : Paint) (hw : w.Calm {}) (hdepth : w.depth = 0)
    (xs : List Decl) :
    match declsCode paint xs with
    | .ok code => ∃ v, ((dialect paint).decls xs).exec w = (.ok (), v) ∧ v.Calm {} ∧ v.depth = 0 ∧
        v.out = w.out ++ code.text ∧ v.own = w.own ++ code.bindings
    | .error e => ∃ v, ((dialect paint).decls xs).exec w = (.error e, v) := by
  have htame := tame_decls paint w.own xs
  have hcalm : Writer.Calm {} ({ own := [] } : Writer State) := ⟨rfl, rfl, rfl⟩
  have hkeeps := htame.keeps w hw
  obtain ⟨hr, hl⟩ := htame.lifts w.out _ w hcalm hw ⟨by simp, hdepth, by simp⟩
  unfold declsCode
  rcases hu : ((dialect paint).decls xs).exec { own := [] } with ⟨r, u⟩
  rcases hv : ((dialect paint).decls xs).exec w with ⟨r', v⟩
  rw [hu, hv] at hr hl
  rw [hv] at hkeeps
  obtain rfl : r' = r := hr
  cases r' with
  | error e => exact ⟨v, rfl⟩
  | ok _ => exact ⟨v, rfl, hkeeps, (htame.balanced w () v hw hv).trans hdepth, hl.out, hl.own⟩

lemma declsCode_append (paint : Paint) (xs ys : List Decl) :
    declsCode paint (xs ++ ys) = (do
      let x ← declsCode paint xs
      let y ← declsCode paint ys
      return x.append y) := by
  have hxs := exec_decls_behind paint (w := { own := [] }) ⟨rfl, rfl, rfl⟩ rfl xs
  conv_lhs => rw [declsCode, Dialect.decls_append]
  rcases hx : declsCode paint xs with e | x
  · rw [hx] at hxs
    obtain ⟨v, hv⟩ := hxs
    rw [Emit.exec_bind, hv]
    rfl
  · rw [hx] at hxs
    obtain ⟨v, hv, hcalm, hdepth, hout, hown⟩ := hxs
    rw [Emit.exec_bind_of_ok hv]
    have hys := exec_decls_behind paint hcalm hdepth ys
    rcases hy : declsCode paint ys with e | y
    · rw [hy] at hys
      obtain ⟨u, hu⟩ := hys
      rw [hu]
      rfl
    · rw [hy] at hys
      obtain ⟨u, hu, -, -, huout, huown⟩ := hys
      rw [hu]
      simp [huout, huown, hout, hown, Code.append, Bind.bind, Except.bind, Pure.pure, Except.pure]

lemma visited_eq_declsCode (o : Options) (s : Shader) :
    visited o s = declsCode (o.paint s) s.decls := by
  have hs := exec_decls_behind (o.paint s) (w := { out := headerLine s.name, own := [] })
    ⟨rfl, rfl, rfl⟩ rfl s.decls
  rw [visited, exec_visit]
  rcases hcode : declsCode (o.paint s) s.decls with e | code
  · rw [hcode] at hs
    obtain ⟨v, hv⟩ := hs
    rw [hv]
  · rw [hcode] at hs
    obtain ⟨v, hv, -, -, hout, hown⟩ := hs
    rw [hv]
    dsimp only
    rw [hout, hown, String.toList_append, ← String.length_toList, List.drop_left,
      String.ofList_toList, List.nil_append]

lemma calm_of_visit {s : Shader} {v : Writer State}
    (h : ((dialect paint).visit (headerLine s.name) s).exec { own := [] } = (.ok (), v)) :
    v.Calm {} ∧ v.depth = 0 := by
  have hcalm : Writer.Calm {} ({ out := headerLine s.name, own := [] } : Writer State) :=
    ⟨rfl, rfl, rfl⟩
  have htame := tame_decls paint [] s.decls
  rw [exec_visit] at h
  have hkeeps := htame.keeps _ hcalm
  rw [h] at hkeeps
  exact ⟨hkeeps, htame.balanced _ () v hcalm h⟩

/-- Under the same parameters of the paint function two lists of declarations give together what
the first one gives and then what the second one gives, and the first fault if there is one. A
visit that succeeds ends outside all functions, unindented, with no accumulator and no mark set. -/
theorem visited_append {o : Options} {name : String} {xs ys : List Decl}
    (hxs : (o.paint ⟨name, xs⟩).params = (o.paint ⟨name, xs ++ ys⟩).params)
    (hys : (o.paint ⟨name, ys⟩).params = (o.paint ⟨name, xs ++ ys⟩).params) :
    visited o ⟨name, xs ++ ys⟩ = (do
        let x ← visited o ⟨name, xs⟩
        let y ← visited o ⟨name, ys⟩
        return x.append y) ∧
      ∀ ds v, ((dialect (o.paint ⟨name, ds⟩)).visit (headerLine name) ⟨name, ds⟩).exec
          { own := [] } = (.ok (), v) →
        v.depth = 0 ∧ v.function = none ∧ v.accumulator = "" ∧ v.entry.armed = false := by
  have hpaint : ∀ {ds : List Decl},
      (o.paint ⟨name, ds⟩).params = (o.paint ⟨name, xs ++ ys⟩).params →
      o.paint ⟨name, ds⟩ = o.paint ⟨name, xs ++ ys⟩ := fun h => congrArg (Paint.mk _) h
  constructor
  · simp only [visited_eq_declsCode, hpaint hxs, hpaint hys]
    exact declsCode_append _ xs ys
  · intro ds v hv
    obtain ⟨hcalm, hdepth⟩ := calm_of_visit (s := ⟨name, ds⟩) hv
    exact ⟨hdepth, hcalm.function, hcalm.accumulator, hcalm.entry⟩

/-- An entry point that leaves early from a nested block. -/
def duskMain : List Decl := [
  .func {
    name := "main"
    returns := .void
    params := [{ var := { name := "color", type := .vec4, out := true } }]
    body := [
      .ifElse (.literal "true" .bool) (.block [.block [.returns .absent]]) .absent,
      .expr (.assign "=" (.ident "color" .unresolved)
        (.ident "vertexColor" (.input .vertexColor)))]}]

/-- A parameter, and a function that leaves without a value. -/
def duskRest : List Decl := [
  .var { var := { name := "haze", type := .float, qualifier := .param, slot := 1 } },
  .func { name := "settle", returns := .void, body := [.block [.returns .absent]] }]

/-- The function behind the entry point does not return its accumulator. -/
def duskRestCode : Code where
  text := "uniform float haze : register(c1);\nvoid settle() \x7b\n    \x7b\n        return;\n" ++
    "    \x7d\n\x7d\n\n"
  bindings := [⟨"haze", .const32, 1, 1⟩]

theorem visited_append_dusk :
    (({} : Options).paint ⟨"Dusk", duskMain⟩).params = [.vec4] ∧
      (({} : Options).paint ⟨"Dusk", duskRest⟩).params = [.vec4] ∧
      (({} : Options).paint ⟨"Dusk", duskMain ++ duskRest⟩).params = [.vec4] ∧
      ∃ x, visited {} ⟨"Dusk", duskMain⟩ = .ok x ∧
        visited {} ⟨"Dusk", duskRest⟩ = .ok duskRestCode ∧
        visited {} ⟨"Dusk", duskMain ++ duskRest⟩ = .ok (x.append duskRestCode) := by
  have hmain : (visited {} ⟨"Dusk", duskMain⟩).isOk = true := by decide +kernel
  have hrest : visited {} ⟨"Dusk", duskRest⟩ = .ok duskRestCode := by decide +kernel
  rcases hx : visited {} ⟨"Dusk", duskMain⟩ with e | x
  · simp [hx, Except.isOk, Except.toBool] at hmain
  · refine ⟨by decide, by decide, by decide, x, rfl, hrest, ?_⟩
    rw [(@visited_append {} "Dusk" duskMain duskRest (by decide) (by decide)).1, hx, hrest]
    rfl

end Shaderwright.Hlsl
