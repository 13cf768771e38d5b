import Mathlib.Tactic.Common
import Shaderwright.Proofs.Hlsl.Acceptance
import Shaderwright.Proofs.Msl.Acceptance
import Shaderwright.Proofs.Msl.Compile
import Shaderwright.Proofs.Msl.Pattern
import Shaderwright.Proofs.Msl.Renaming

/-!
From one target to the other. What HLSL accepts is accepted by MSL too, but for four things that
only MSL asks for: a value for every variable outside the functions, textures that may be written
as expressions, function names that renaming can find, and not too many of these at once.
-/

namespace Shaderwright

/-- What MSL asks of a shader beyond HLSL. -/
structure Shader.Portable (s : Shader) : Prop where
  /-- A variable outside the functions that is neither a constant nor a parameter has a value. -/
  initialized : ∀ v, .var v ∈ s.decls → v.var.qualifier = .none → v.init.isAbsent = false
  /-- No stage input is read as a texture outside the functions. -/
  globals : ∀ v, .var v ∈ s.decls → ∀ x ∈ v.init.parts, x.samplesInput = false
  /-- No stage input is read as a texture by a function other than the entry point. -/
  helpers : ∀ f, .func f ∈ s.decls → f.name ≠ entryPointName →
    ∀ x ∈ Stmt.exprsOf f.body, x.samplesInput = false
  names : ∀ f, .func f ∈ s.decls → Msl.IsWord f.name.toList

/-- A declaration of a portable shader that HLSL accepts is accepted by MSL. -/
lemma Shader.Portable.declWritable {s : Shader} (hs : s.Portable) {x : Decl} (hx : x ∈ s.decls)
    (h : Hlsl.declWritable x = true) : Msl.declWritable x = true := by
  cases x with
  | absent => simp [Hlsl.declWritable] at h
  | func f =>
    refine FuncDef.writable_call h ?_
    by_cases hname : f.name = entryPointName
    · exact .inl hname
    · exact .inr (hs.helpers f hx hname)
  | var v =>
    have hreads := hs.globals v hx
    unfold Hlsl.declWritable at h
    unfold Msl.declWritable
    dsimp only at h ⊢
    cases hv : v.var.qualifier with
    | const =>
      rw [hv] at h
      exact VarDecl.constWritable_call h (.inr hreads)
    | param =>
      rw [hv, Bool.or_eq_true] at h
      exact h.elim ShaderType.known_of_isSampler ShaderType.known_of_isNumeric
    | none =>
      rw [hv] at h
      dsimp only at h ⊢
      rw [hs.initialized v hx hv, VarDecl.writable_call h (.inr hreads)]
      rfl
    | other n =>
      rw [hv] at h
      simp [VarDecl.writable, hv, Qualifier.known_other] at h

/-- A portable shader that compiles to HLSL compiles to MSL, with whatever options, if and only if
its helpers can be searched. So it does as long as it has no more than 1000 declarations and the
names of its functions have no more than 498 characters. -/
theorem msl_compiles_of_hlsl {o : Hlsl.Options} {s : Shader} {w w' : World} {out : Hlsl.Output}
    (h : Hlsl.compile o (some s) w = (.ok out, w')) (hs : s.Portable) (o' : Msl.Options)
    (library : Option Msl.Library) (v : World) :
    (Msl.searchable (Msl.helperNames s) = true →
        ∃ out', (Msl.compile o' library (some s) v).1.1 = .ok out') ∧
      (Msl.searchable (Msl.helperNames s) = false →
        (Msl.compile o' library (some s) v).1.1 = .error .unrenamable) ∧
      (s.decls.length ≤ 1000 → (∀ f, .func f ∈ s.decls → f.name.toList.length ≤ 498) →
        Msl.searchable (Msl.helperNames s) = true) := by
  obtain ⟨hname, hdecls⟩ := Hlsl.translate_isOk_iff.mp ⟨_, Hlsl.translate_of_compile h⟩
  have htranslate := Msl.translate_eq hname (fun x hx => hs.declWritable hx (hdecls x hx)) hs.names
    (Msl.commonHeaderOf library)
  refine ⟨fun hsearch => ?_, fun hsearch => ?_, fun hcount hlength => ?_⟩
  · rcases htranslate with ⟨-, result, ht⟩ | ⟨hnot, -⟩
    · exact Msl.exists_compile o' v (by rw [ht]; rfl)
    · simp [hsearch] at hnot
  · rcases htranslate with ⟨hnot, -⟩ | ⟨-, ht⟩
    · simp [hsearch] at hnot
    · rw [Msl.compile_result, ht]
      rfl
  · refine Msl.searchable_of_length_le ?_ fun n hn => ?_
    · exact Nat.le_trans (List.length_filterMap_le ..) hcount
    · obtain ⟨f, hf, rfl, -⟩ := Msl.mem_helperNames.mp hn
      exact hlength f hf

/-- A function that reads a texture, called before it is defined. -/
def veil : FuncDef where
  name := "veil"
  returns := .vec4
  params := [{ var := { name := "uv", type := .vec2 } }]
  body := [.returns (.call "sample" [.ident "gauze" .unresolved, .ident "uv" .unresolved])]

/-- A shader whose entry point reads a texture through a helper, and a stage input as if it were
a texture. -/
def veiled : Shader where
  name := "Veiled"
  decls := [
    .var { var := { name := "gauze", type := .sampler2D, qualifier := .param, slot := 1 } },
    .var { var := { name := "weight", type := .float }, init := .literal "0.5" .float },
    .func {
      name := "main"
      returns := .void
      params := [{ var := { name := "color", type := .vec4, out := true } }]
      body := [.expr (.assign "=" (.ident "color" .unresolved)
        (.binary "*"
          (.call "veil" [.ident "texCoord" (.input .texCoord)])
          (.call "sample" [.ident "vertexColor" (.input .vertexColor),
            .ident "texCoord" (.input .texCoord)])))] },
    .func veil]

lemma portable_veiled : veiled.Portable where
  initialized v hv := by
    simp [veiled] at hv
    rcases hv with rfl | rfl <;> simp [Expr.isAbsent]
  globals v hv := by
    simp [veiled] at hv
    rcases hv with rfl | rfl <;> simp [Expr.parts, Expr.samplesInput]
  helpers f hf hname := by
    simp [veiled] at hf
    rcases hf with rfl | rfl
    · simp [entryPointName] at hname
    · decide +kernel
  names f hf := by
    simp [veiled] at hf
    rcases hf with rfl | rfl <;> exact Msl.isWord_of_isIdentifier (by decide)

theorem msl_compiles_veiled :
    (∃ out w', Hlsl.compile {} (some veiled) {} = (.ok out, w')) ∧ veiled.Portable ∧
      Msl.searchable (Msl.helperNames veiled) = true ∧
      ∃ out', (Msl.compile {} (some {}) (some veiled) {}).1.1 = .ok out' := by
  obtain ⟨out, w', h, -⟩ := Hlsl.compile_of_translate {} veiled
    (veiled.decls.flatMap Hlsl.declBindings) (by decide +kernel) (by decide +kernel) {}
  obtain ⟨hcompiles, -, hsmall⟩ := msl_compiles_of_hlsl h portable_veiled {} (some {}) {}
  have hsearch := hsmall (by decide) fun f hf => by
    simp [veiled] at hf
    rcases hf with rfl | rfl <;> decide
  exact ⟨⟨out, w', h⟩, portable_veiled, hsearch, hcompiles hsearch⟩

/-- Functions that do nothing, under names that extend each other by one letter. -/
def towers (n : Nat) : Shader where
  name := "Towers"
  decls := (Msl.towerNames n).map fun name => .func { name := name, returns := .void }

lemma mem_towers {n : Nat} {x : Decl} (h : x ∈ (towers n).decls) :
    ∃ name ∈ Msl.towerNames n, x = .func { name := name, returns := .void } := by
  obtain ⟨name, hname, rfl⟩ := List.mem_map.mp h
  exact ⟨name, hname, rfl⟩

lemma portable_towers (n : Nat) : (towers n).Portable where
  initialized v hv := by
    obtain ⟨name, -, hx⟩ := mem_towers hv
    cases hx
  globals v hv := by
    obtain ⟨name, -, hx⟩ := mem_towers hv
    cases hx
  helpers f hf _ := by
    obtain ⟨name, -, hx⟩ := mem_towers hf
    cases hx
    simp [Stmt.exprsOf]
  names f hf := by
    obtain ⟨name, hname, hx⟩ := mem_towers hf
    cases hx
    exact Msl.isWord_of_mem_towerNames hname

lemma helperNames_towers (n : Nat) : Msl.helperNames (towers n) = Msl.towerNames n := by
  have hhelper : ∀ name ∈ Msl.towerNames n, Msl.isHelper name = true := by
    intro name hname
    obtain ⟨-, hchars⟩ := Msl.mem_towerNames hname
    have hcore : ∀ core ∈ Msl.coreFunctions, core.toList.any (· ≠ 'f') = true := by decide +kernel
    rw [Msl.isHelper, Bool.not_eq_true', List.contains_eq_mem, decide_eq_false_iff_not]
    intro hmem
    obtain ⟨c, hc, hne⟩ := List.any_eq_true.mp (hcore name hmem)
    exact of_decide_eq_true hne (hchars c hc)
  rw [Msl.helperNames, towers, List.filterMap_map, List.filterMap_congr fun name hname =>
    show _ = some name by simp [Msl.helperOf?, hhelper name hname], List.filterMap_some]

/-- 500 functions whose names extend each other compile to HLSL and not to MSL. -/
theorem msl_undefined_towers :
    (∃ out w', Hlsl.compile {} (some (towers 500)) {} = (.ok out, w')) ∧ (towers 500).Portable ∧
      (Msl.compile {} none (some (towers 500)) {}).1.1 = .error .unrenamable := by
  have hwritable : ∀ x ∈ (towers 500).decls, Hlsl.declWritable x = true := by
    intro x hx
    obtain ⟨name, hname, rfl⟩ := mem_towers hx
    simp only [Hlsl.declWritable, FuncDef.writable, Stmt.allWritable, Bool.and_true]
    split <;> rfl
  have hbindings : (towers 500).decls.flatMap Hlsl.declBindings = [] := by
    rw [List.flatMap_eq_nil_iff]
    intro x hx
    obtain ⟨name, -, rfl⟩ := mem_towers hx
    rfl
  obtain ⟨code, hcode⟩ := Hlsl.translate_isOk_iff (o := {}).mpr
    ⟨(by decide : (towers 500).name ≠ ""), hwritable⟩
  obtain ⟨out, w', h, -⟩ := Hlsl.compile_of_translate {} (towers 500) []
    (by rw [hcode]; exact congrArg Except.ok ((Hlsl.bindings_of_translate hcode).trans hbindings))
    (by decide +kernel) {}
  have hsearch : ¬ Msl.searchable (Msl.helperNames (towers 500)) = true := by
    rw [helperNames_towers, Msl.searchable_towerNames]
    decide
  refine ⟨⟨out, w', h⟩, portable_towers 500, ?_⟩
  rcases Msl.translate_eq (by decide) (fun x hx => (portable_towers 500).declWritable hx
    (hwritable x hx)) (portable_towers 500).names (Msl.commonHeaderOf none) with
    ⟨hyes, -⟩ | ⟨-, ht⟩
  · exact absurd hyes hsearch
  · rw [Msl.compile_result, ht]
    rfl

end Shaderwright
