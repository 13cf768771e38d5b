import Mathlib.Tactic.Common
import Shaderwright.Proofs.Hlsl.Equivariance
import Shaderwright.Proofs.Msl.Equivariance
import Shaderwright.Proofs.Source.Resolution

/-!
Constants are replacement texts, and a replacement text knows no scopes. A name that a shader has
for one constant alone is hygienic nevertheless: wherever it stands in the text, it comes from what
refers to the constant. This is said by renaming. Under another name of the constant, the text of
the declarations has the new name in the place of the old one, and nothing else is different.
-/

namespace Shaderwright

open Msl (Rewording isIdentifier isPunctuation plainText prefixed)

/-! ### Names -/

/-- Whether the names of an expression are identifiers and its operators punctuation, apart from its
parts. -/
def Expr.wellSpelled : Expr → Bool
  | .ident name _ => isIdentifier name
  | .call callee _ => isIdentifier callee
  | .binary op _ _ => isPunctuation op
  | .unary op _ => isPunctuation op
  | .assign op _ _ => isPunctuation op
  | .member _ field => isIdentifier field
  | _ => true

/-- Whether an expression, apart from its parts, leaves a name to a variable: it does not call a
function of that name, and it has no such word in a literal or as an identifier without a meaning.
-/
def Expr.leaves (name : String) : Expr → Bool
  | .ident n ref => n != name || ref != .unresolved
  | .literal text _ => plainText [name] text
  | .call callee _ => callee != name
  | _ => true

def Decl.function? : Decl → Option FuncDef
  | .func g => some g
  | _ => none

lemma Decl.forall_function? (x : Decl) (P : FuncDef → Prop) :
    (∀ g, x.function? = some g → P g) ↔ ∀ g, x = .func g → P g := by
  cases x <;> simp [Decl.function?]

def Decl.names (x : Decl) : List String :=
  x.variables.map Variable.name ++ x.function?.toList.map FuncDef.name

def Shader.wellSpelled (s : Shader) : Bool :=
  s.decls.all fun x => x.names.all isIdentifier && x.exprs.all Expr.wellSpelled

/-- Whether nothing in a shader is called like a variable but this variable, which is no parameter
of a function. -/
def Shader.reserves (s : Shader) (v : Variable) : Bool :=
  isIdentifier v.name && !inputNames.contains v.name && s.decls.all fun x =>
    x.variables.all (fun u => u.name != v.name || u = v) && x.exprs.all (Expr.leaves v.name) &&
    x.function?.all fun g => g.name != v.name && g.params.all fun p => p.var != v

/-- The texts that HLSL adds to the names of a shader: its own, the registers of the parameters, and
the sampler states of the textures that are read. -/
def Hlsl.addedTexts (s : Shader) : List String :=
  ownTexts ++ s.decls.flatMap fun x =>
    (x.variables.filter fun u => u.qualifier = .param).flatMap paramTexts ++
      (x.exprs.filterMap texture?).map fun name => variableNames.get name ++ samplerSuffix

/-- Those that MSL adds: its own, those that are made with the name of the shader, and the final
names of the helpers. -/
def Msl.addedTexts (s : Shader) : List String :=
  languageTexts ++ shaderTexts s.name ++ sampleFunction :: (helperNames s).map (prefixed s.name)

/-- Whether HLSL leaves a name to the shader: it stands in none of the added texts, and no texture
of that name is read. -/
def Hlsl.spares (s : Shader) (name : String) : Bool :=
  (addedTexts s).all (plainText [name]) && s.decls.all fun x => x.exprs.all fun e =>
    texture? e != some name

/-- The same of MSL, where the name of the shader becomes a part of others. -/
def Msl.spares (s : Shader) (name : String) : Bool :=
  isIdentifier s.name && (addedTexts s).all (plainText [name])

/-! ### Renaming -/

/-- A text with the new name in the place of the old one, wherever this is a word of its own and not
behind a dot. -/
def NewName.text (r : NewName) (t : String) : String :=
  String.ofList (Msl.substitute [r.var.name.toList] (fun _ => r.name.toList) t.toList)

/-- A new name in the place of that of one variable. -/
def Msl.Rewording.single (r : NewName) (h : isIdentifier r.var.name = true) : Rewording where
  old := [r.var.name]
  new := fun _ => r.name
  identifiers := by simpa using h

/-! ### Conditions -/

section Conditions

variable {s : Shader} {v : Variable} {name : String}

lemma Shader.reserves_iff : s.reserves v = true ↔
    isIdentifier v.name = true ∧ v.name ∉ inputNames ∧ ∀ x ∈ s.decls,
      (∀ u ∈ x.variables, u.name = v.name → u = v) ∧ (∀ e ∈ x.exprs, e.leaves v.name = true) ∧
      ∀ g, x = .func g → g.name ≠ v.name ∧ ∀ q ∈ g.params, q.var ≠ v := by
  simp only [Shader.reserves, Bool.and_eq_true, Bool.not_eq_true', List.contains_eq_mem,
    decide_eq_false_iff_not, List.all_eq_true, Bool.or_eq_true, bne_iff_ne, decide_eq_true_eq,
    Option.all_eq_true, Decl.forall_function?, or_iff_not_imp_left, not_not, ne_eq, and_assoc]

lemma Source.ref_nil (name : String) : Source.Scope.ref [] name = .unresolved ∨
    name ∈ inputNames ∧ ∃ i, Source.Scope.ref [] name = .input i := by
  unfold Source.Scope.ref
  rcases h : StageInput.ofName? name with _ | i
  · exact .inl rfl
  · refine .inr ⟨List.mem_map.mpr ⟨i, List.mem_of_find?_eq_some h, ?_⟩, i, rfl⟩
    simpa using List.find?_some h

/-- In a shader that was read from a source, an identifier has a reserved name just if it refers to
the variable. -/
lemma ident_iff_of_shader {form : Source.ShaderForm} (hs : Source.shader form = .ok s)
    (hv : s.reserves v = true) {name : String} {ref : Ref}
    (hmem : .ident name ref ∈ s.decls.flatMap Decl.exprs) :
    name = v.name ↔ ref = .declared v := by
  obtain ⟨c, hbetween⟩ := (Source.resolved_of_shader hs).between
  obtain ⟨-, hinput, hdecls⟩ := Shader.reserves_iff.mp hv
  rcases hbetween.idents name ref hmem with href | ⟨u, hu, rfl, rfl⟩
  · have hne : name ≠ v.name := by
      rintro rfl
      obtain ⟨x, hx, he⟩ := List.mem_flatMap.mp hmem
      have hleaves := (hdecls x hx).2.1 _ he
      rcases Source.ref_nil v.name with hnone | ⟨hmem, -⟩
      · obtain rfl : ref = .unresolved := href.trans hnone
        simp [Expr.leaves] at hleaves
      · exact hinput hmem
    have href : ref ≠ .declared v := by
      rcases Source.ref_nil name with hnone | ⟨-, i, hi⟩
      · simp [show ref = .unresolved from href.trans hnone]
      · simp [show ref = .input i from href.trans hi]
    exact iff_of_false hne href
  · obtain ⟨x, hx, hu⟩ := List.mem_flatMap.mp hu
    rw [Ref.declared.injEq]
    exact ⟨(hdecls x hx).1 u hu, fun heq => heq ▸ rfl⟩

lemma Shader.wellSpelled_iff : s.wellSpelled = true ↔ ∀ x ∈ s.decls,
    (∀ name ∈ x.names, isIdentifier name = true) ∧ ∀ e ∈ x.exprs, e.wellSpelled = true := by
  simp [Shader.wellSpelled]

lemma exprClear_of_shader {form : Source.ShaderForm} (hs : Source.shader form = .ok s)
    (hspelled : s.wellSpelled = true) (hv : s.reserves v = true) {x : Decl} (hx : x ∈ s.decls)
    {e : Expr} (he : e ∈ x.exprs) : e.ClearOf v := by
  have hwell := (Shader.wellSpelled_iff.mp hspelled x hx).2 e he
  have hleaves := ((Shader.reserves_iff.mp hv).2.2 x hx).2.1 e he
  cases e with
  | ident name ref => exact ⟨hwell, ident_iff_of_shader hs hv (List.mem_flatMap.mpr ⟨x, hx, he⟩)⟩
  | literal text kind => exact hleaves
  | call callee args => exact ⟨hwell, by simpa [Expr.leaves] using hleaves⟩
  | binary op x y => exact hwell
  | unary op x => exact hwell
  | assign op lhs rhs => exact hwell
  | member x field => exact hwell
  | _ => trivial

lemma Decl.name_mem_names {x : Decl} {u : Variable} (hu : u ∈ x.variables) : u.name ∈ x.names :=
  List.mem_append_left _ (List.mem_map_of_mem hu)

lemma Decl.func_name_mem_names (g : FuncDef) : g.name ∈ (Decl.func g).names :=
  List.mem_append_right _ (by simp [Decl.function?])

/-- A declaration can be told apart from the name of the variable, as far as this goes for all
languages. -/
lemma declClear_of_shader {form : Source.ShaderForm} (hs : Source.shader form = .ok s)
    (hspelled : s.wellSpelled = true) (hv : s.reserves v = true) {x : Decl} (hx : x ∈ s.decls)
    {P : Expr → Prop} {Q : Variable → Prop} (hP : ∀ e ∈ x.exprs, e.ClearOf v → P e)
    (hQ : ∀ u ∈ x.variables, v.ClearOf u → Q u) : x.ClearOf v P Q := by
  have hnames := (Shader.wellSpelled_iff.mp hspelled x hx).1
  obtain ⟨hvars, -, hfunction⟩ := (Shader.reserves_iff.mp hv).2.2 x hx
  refine ⟨fun u hu => ?_, fun e he => ?_, fun g hg => ?_, fun g hg => (hfunction g hg).2⟩
  · exact hQ u hu ⟨hnames _ (Decl.name_mem_names hu), hvars u hu⟩
  · exact hP e he (exprClear_of_shader hs hspelled hv hx he)
  · subst hg
    exact ⟨hnames _ (Decl.func_name_mem_names g), (hfunction g rfl).1⟩

lemma ne_of_plainText {name word : String} (hword : ∀ c ∈ word.toList, Msl.isWordChar c = true)
    (h : plainText [name] word = true) : name ≠ word := by
  rintro rfl
  simp [plainText, Msl.exposed, Msl.runs_word hword] at h

section Targets

variable (hid : isIdentifier v.name = true)

lemma fixes_single {t : String} (h : plainText [v.name] t = true) :
    (Rewording.single ⟨v, name⟩ hid).Fixes t :=
  Rewording.fixes_plainText h

lemma Hlsl.clear_single (hv : s.reserves v = true) (hspares : Hlsl.spares s v.name = true)
    (hnew : name ∉ inputNames) : Hlsl.Clear (Rewording.single ⟨v, name⟩ hid) v := by
  simp only [Hlsl.spares, Bool.and_eq_true, List.all_eq_true] at hspares
  exact ⟨rfl, fun t ht => fixes_single hid (hspares.1 t (List.mem_append_left _ ht)),
    (Shader.reserves_iff.mp hv).2.1, hnew⟩

lemma Hlsl.exprClear_single (hspares : Hlsl.spares s v.name = true) {x : Decl} (hx : x ∈ s.decls)
    {e : Expr} (he : e ∈ x.exprs) (hclear : e.ClearOf v) :
    Hlsl.ExprClear (Rewording.single ⟨v, name⟩ hid) v e := by
  simp only [Hlsl.spares, Bool.and_eq_true, List.all_eq_true] at hspares
  refine ⟨hclear, fun name hname => ⟨?_, fixes_single hid (hspares.1 _ ?_)⟩⟩
  · rintro rfl
    simpa [hname] using hspares.2 x hx e he
  · refine List.mem_append_right _ (List.mem_flatMap.mpr ⟨x, hx, List.mem_append_right _ ?_⟩)
    exact List.mem_map_of_mem (List.mem_filterMap.mpr ⟨e, he, hname⟩)

lemma Hlsl.varClear_single (hconst : v.qualifier = .const) (hspares : Hlsl.spares s v.name = true)
    {x : Decl} (hx : x ∈ s.decls) {u : Variable} (hu : u ∈ x.variables) (hclear : v.ClearOf u) :
    Hlsl.VarClear (Rewording.single ⟨v, name⟩ hid) v u := by
  simp only [Hlsl.spares, Bool.and_eq_true, List.all_eq_true] at hspares
  refine ⟨hclear, fun hparam => ⟨?_, fun t ht => fixes_single hid (hspares.1 _ ?_)⟩⟩
  · rintro rfl
    rw [hconst] at hparam
    cases hparam
  · refine List.mem_append_right _ (List.mem_flatMap.mpr ⟨x, hx, List.mem_append_left _ ?_⟩)
    exact List.mem_flatMap.mpr ⟨u, List.mem_filter.mpr ⟨hu, by simpa using hparam⟩, ht⟩

lemma Msl.clearFor_single (hv : s.reserves v = true) (hspares : Msl.spares s v.name = true)
    (hnew : name ∉ inputNames) :
    Msl.ClearFor (Rewording.single ⟨v, name⟩ hid) s.name v := by
  simp only [Msl.spares, Bool.and_eq_true, List.all_eq_true] at hspares
  exact ⟨rfl, fun t ht => fixes_single hid (hspares.2 t (List.mem_append_left _ ht)),
    (Shader.reserves_iff.mp hv).2.1, hnew⟩

lemma Msl.helpersClear_single (hspelled : s.wellSpelled = true) (hv : s.reserves v = true)
    (hspares : Msl.spares s v.name = true)
    (hnew : name ∉ sampleFunction :: s.decls.flatMap Decl.names) :
    Msl.HelpersClear (Rewording.single ⟨v, name⟩ hid) s := by
  simp only [Msl.spares, Bool.and_eq_true, List.all_eq_true] at hspares
  obtain ⟨hname, htexts⟩ := hspares
  have hhelper : ∀ m ∈ Msl.helperNames s, isIdentifier m = true ∧ v.name ≠ m ∧
      m ∈ s.decls.flatMap Decl.names := by
    intro m hm
    obtain ⟨g, hg, rfl, -⟩ := Msl.mem_helperNames.mp hm
    have hmem := Decl.func_name_mem_names g
    refine ⟨(Shader.wellSpelled_iff.mp hspelled _ hg).1 _ hmem, ?_,
      List.mem_flatMap.mpr ⟨_, hg, hmem⟩⟩
    exact (((Shader.reserves_iff.mp hv).2.2 _ hg).2.2 g rfl).1.symm
  have hadded : ∀ t ∈ sampleFunction :: (Msl.helperNames s).map (prefixed s.name),
      (∀ c ∈ t.toList, Msl.isWordChar c = true) → v.name ≠ t := fun t ht hword =>
    ne_of_plainText hword (htexts t (List.mem_append_right _ ht))
  refine ⟨hname, fun n hn => ?_, fun n hn hmem => ?_⟩
  · obtain rfl := List.mem_singleton.mp hn
    refine ⟨fun hmem => ?_, fun m hm => ?_⟩
    · rcases List.mem_cons.mp hmem with hsample | hmem
      · have hword : isIdentifier sampleFunction = true := by decide
        exact hadded _ List.mem_cons_self (Msl.isWord_of_isIdentifier hword).word hsample
      · exact (hhelper _ hmem).2.1 rfl
    · refine hadded _ (List.mem_cons_of_mem _ (List.mem_map_of_mem hm)) ?_
      exact Msl.isWordChar_prefixed (Msl.isWord_of_isIdentifier hname).word
        (Msl.isWord_of_isIdentifier (hhelper m hm).1).word
  · obtain rfl := List.mem_singleton.mp hn
    refine hnew (List.mem_cons.mpr ((List.mem_cons.mp hmem).imp_right fun hmem => ?_))
    exact (hhelper _ hmem).2.2

lemma Msl.varClear_single (hconst : v.qualifier = .const) {x : Decl} (hx : x ∈ s.decls)
    {u : Variable} (hu : u ∈ x.variables) (hclear : v.ClearOf u)
    (hnew : name ∉ s.decls.flatMap Decl.names) :
    Msl.VarClear (Rewording.single ⟨v, name⟩ hid) v u := by
  refine ⟨hclear, fun hparam => ⟨?_, fun heq => hnew ?_⟩⟩
  · rintro rfl
    rw [hconst] at hparam
    cases hparam
  · have hmem := Decl.name_mem_names hu
    rw [heq] at hmem
    exact List.mem_flatMap.mpr ⟨x, hx, hmem⟩

end Targets

end Conditions

/-! ### Hygiene -/

/-- Constants are hygienic as long as their names are not used for anything else. If nothing in a
shader is called like a constant and the target language does not write its name on its own, then
under another name of the constant the text of the declarations has the new name in the place of the
old one, wherever this is a word of its own and not behind a dot, and everything else stays as it
is. So every such word comes from the constant or from what refers to it. -/
theorem constant_hygienic {form : Source.ShaderForm} {s : Shader}
    (hs : Source.shader form = .ok s)
    (hspelled : s.wellSpelled = true) {v : Variable} (hconst : v.qualifier = .const)
    (hv : s.reserves v = true) {name : String} (hname : isIdentifier name = true)
    (hnew : name ∉ sampleFunction :: inputNames ++ s.decls.flatMap Decl.names) :
    (∀ (o : Hlsl.Options) (w w' : World) (out : Hlsl.Output), Hlsl.spares s v.name = true →
        Hlsl.compile o (some s) w = (.ok out, w') →
        ∃ body, out.text = Hlsl.headerLine s.name ++ body ∧
          Hlsl.compile o (some (s.rename ⟨v, name⟩)) w =
            (.ok { out with text := Hlsl.headerLine s.name ++ NewName.text ⟨v, name⟩ body }, w')) ∧
      ∀ (o : Msl.Options) (library library' : Option Msl.Library) (w w' : World)
        (out : Msl.Output), Msl.spares s v.name = true →
        Msl.compile o library (some s) w = ((.ok out, library'), w') →
        ∃ own body, out.uniforms = own.uniforms ∧
          out.text = Msl.assemble s.name (Msl.commonHeaderOf library) own body ∧
          Msl.compile o library (some (s.rename ⟨v, name⟩)) w =
            ((.ok { out with
                text := Msl.assemble s.name (Msl.commonHeaderOf library) own
                  (NewName.text ⟨v, name⟩ body) }, library'), w') := by
  have hid := (Shader.reserves_iff.mp hv).1
  simp only [List.cons_append, List.mem_cons, List.mem_append, not_or] at hnew
  obtain ⟨hsample, hinput, hnames⟩ := hnew
  constructor
  · intro o w w' out hspares h
    have hdecls : ∀ x ∈ s.decls, x.ClearOf v (Hlsl.ExprClear (Rewording.single ⟨v, name⟩ hid) v)
        (Hlsl.VarClear (Rewording.single ⟨v, name⟩ hid) v) := fun x hx =>
      declClear_of_shader hs hspelled hv hx
        (fun _ he hclear => Hlsl.exprClear_single hid hspares hx he hclear)
        (fun _ hu hclear => Hlsl.varClear_single hid hconst hspares hx hu hclear)
    obtain ⟨body, htext, hout⟩ :=
      Hlsl.compile_rename (Hlsl.clear_single hid hv hspares hinput) hdecls h
    exact ⟨body, htext, hout⟩
  · intro o library library' w w' out hspares h
    have hdecls : ∀ x ∈ s.decls, x.ClearOf v (Expr.ClearOf v)
        (Msl.VarClear (Rewording.single ⟨v, name⟩ hid) v) := fun x hx =>
      declClear_of_shader hs hspelled hv hx (fun _ _ hclear => hclear)
        (fun _ hu hclear => Msl.varClear_single hid hconst hx hu hclear hnames)
    have hhelpers : Msl.HelpersClear (Rewording.single ⟨v, name⟩ hid) s :=
      Msl.helpersClear_single hid hspelled hv hspares
        (by simpa using ⟨hsample, by simpa using hnames⟩)
    obtain ⟨own, body, huniforms, htext, hout⟩ :=
      Msl.compile_rename (Msl.clearFor_single hid hv hspares hinput)
        (by simpa [Rewording.single, Rewording.ToWords] using
          (Msl.isWord_of_isIdentifier hname).word)
        hhelpers hdecls h
    exact ⟨own, body, huniforms, htext, hout⟩

/-- A constant with the name of a component, next to that component. -/
def fogSource : String :=
  "name: Fog\ndecls:\n" ++
    "- var: \x7bname: x, type: int, qualifier: const, init: 2\x7d\n" ++
    "- func:\n    name: haze\n    return: int\n" ++
    "    params: [\x7bname: p, type: ivec2\x7d]\n    body:\n" ++
    "    - expr: \x7bmember: \x7bx: p, field: x\x7d\x7d\n    - return: x\n"

def fogConstant : Variable := { name := "x", type := .int, qualifier := .const }

def fogName : NewName := ⟨fogConstant, "density"⟩

/-- The declarations under some name of the constant. -/
def fogText (name : String) : String :=
  "#define " ++ name ++ " (2)\nint haze(int2 p) \x7b\n    p.x;\n    return " ++ name ++
    ";\n\x7d\n\n"

theorem constant_hygienic_fog :
    ∃ s, Source.parse fogSource = .ok s ∧ fogConstant ∈ s.decls.flatMap Decl.variables ∧
      s.wellSpelled = true ∧ s.reserves fogConstant = true ∧
      Hlsl.spares s "x" = true ∧ Msl.spares s "x" = true ∧
      (∃ out w', Hlsl.compile {} (some s) {} = (.ok out, w') ∧
        out.text = Hlsl.headerLine s.name ++ fogText "x" ∧
        Hlsl.compile {} (some (s.rename fogName)) {} =
          (.ok { out with text := Hlsl.headerLine s.name ++ fogText "density" }, w')) ∧
      ∃ out library' w' own body, Msl.compile {} none (some s) {} = ((.ok out, library'), w') ∧
        out.text = Msl.assemble s.name (Msl.commonHeaderOf none) own body ∧
        Msl.compile {} none (some (s.rename fogName)) {} =
          ((.ok { out with
              text := Msl.assemble s.name (Msl.commonHeaderOf none) own (fogName.text body) },
            library'), w') := by
  obtain ⟨s, hs, hfog⟩ : ∃ s, Source.parse fogSource = .ok s ∧
      ((s.decls.flatMap Decl.names = ["x", "p", "haze"] &&
        (s.decls.flatMap Decl.variables).contains fogConstant) &&
        (s.wellSpelled && s.reserves fogConstant && Hlsl.spares s "x" && Msl.spares s "x") &&
        Hlsl.translate {} (some s) = .ok ⟨Hlsl.headerLine s.name ++ fogText "x", []⟩ &&
        (Msl.translate (Msl.commonHeaderOf none) (some s)).isOk) = true :=
    Source.exists_parse
      (.append (.append (.append (.append (.literal _) (.literal _)) (.literal _)) (.literal _))
        (.literal _))
      (by decide +kernel)
  simp only [Bool.and_eq_true, decide_eq_true_eq, List.contains_iff_mem] at hfog
  obtain ⟨⟨⟨⟨hnames, hmem⟩, ⟨⟨hspelled, hreserves⟩, hhlsl⟩, hmsl⟩, hcode⟩, hok⟩ := hfog
  have hnew : fogName.name ∉ sampleFunction :: inputNames ++ s.decls.flatMap Decl.names := by
    rw [hnames]
    decide
  obtain ⟨form, hform⟩ := Source.shader_of_parse hs
  obtain ⟨hygienic, hygienic'⟩ := constant_hygienic hform hspelled rfl hreserves
    (by decide : isIdentifier fogName.name = true) hnew
  refine ⟨s, hs, hmem, hspelled, hreserves, hhlsl, hmsl, ?_, ?_⟩
  · obtain ⟨out, w', hout, -⟩ := Hlsl.compile_of_translate {} s [] (by rw [hcode]; rfl)
      (by decide +kernel) {}
    obtain ⟨body, htext, hrenamed⟩ := hygienic {} {} w' out hhlsl hout
    have hsame := Except.ok.inj ((Hlsl.translate_of_compile hout).symm.trans hcode)
    have htext' : out.text = Hlsl.headerLine s.name ++ fogText "x" := congrArg Hlsl.Code.text hsame
    obtain rfl : body = fogText "x" := by
      simpa [← String.toList_inj] using htext.symm.trans htext'
    have hnewText : NewName.text ⟨fogConstant, fogName.name⟩ (fogText "x") =
        fogText "density" := by decide +kernel
    rw [hnewText] at hrenamed
    exact ⟨out, w', hout, htext', hrenamed⟩
  · obtain ⟨out, hout⟩ := Msl.exists_compile {} {} hok
    rcases hc : Msl.compile {} none (some s) {} with ⟨⟨r, library'⟩, w'⟩
    rw [hc] at hout
    obtain rfl : r = .ok out := hout
    obtain ⟨own, body, -, htext, hrenamed⟩ := hygienic' {} none library' {} w' out hmsl hc
    exact ⟨out, library', w', own, body, rfl, htext, hrenamed⟩

/-- A constant inside one function, and a parameter of the next function with the same name. -/
def ringSource : String :=
  "name: Ring\ndecls:\n" ++
    "- func:\n    name: abs\n    return: int\n    body:\n" ++
    "    - var: \x7bname: r, type: int, qualifier: const, init: 2\x7d\n" ++
    "- func:\n    name: sign\n    return: int\n" ++
    "    params: [\x7bname: r, type: int\x7d]\n    body:\n    - return: r\n"

def ringConstant : Variable := { name := "r", type := .int, qualifier := .const }

def ringName : NewName := ⟨ringConstant, "radius"⟩

def ringParameter : Variable := { id := 1, name := "r", type := .int }

/-- The declarations under some name of the constant, and some name of the parameter. -/
def ringText (constant parameter : String) : String :=
  "int abs() \x7b\n    #define " ++ constant ++ " (2)\n\x7d\n\nint sign(int " ++ parameter ++
    ") \x7b\n    return " ++ parameter ++ ";\n\x7d\n\n"

def ringMsl (constant parameter : String) : String :=
  "// Ring.metal: generated by shadergen\n#include \"ShaderCommon.h\"\n\n" ++
    "struct Ring_Uniforms \x7b\n\x7d;\n\n" ++ ringText constant parameter

/-- A replacement text outlives the function in which its constant is declared. The parameter of the
next function stands behind it under the same name, although it is another variable: if the constant
gets another name, the parameter keeps its own. -/
theorem constant_captures_ring :
    ∃ s, Source.parse ringSource = .ok s ∧
      s.decls.flatMap Decl.variables = [ringConstant, ringParameter] ∧
      (∃ out out' w w', Hlsl.compile {} (some s) {} = (.ok out, w) ∧
        Hlsl.compile {} (some (s.rename ringName)) {} = (.ok out', w') ∧
        out.text = Hlsl.headerLine s.name ++ ringText "r" "r" ∧
        out'.text = Hlsl.headerLine s.name ++ ringText "radius" "r" ∧
        out'.text ≠ Hlsl.headerLine s.name ++ ringName.text (ringText "r" "r")) ∧
      ∃ out out', (Msl.compile {} none (some s) {}).1.1 = .ok out ∧
        (Msl.compile {} none (some (s.rename ringName)) {}).1.1 = .ok out' ∧
        out.text = ringMsl "r" "r" ∧ out'.text = ringMsl "radius" "r" := by
  obtain ⟨s, hs, hring⟩ : ∃ s, Source.parse ringSource = .ok s ∧
      (s.name = "Ring" && s.decls.flatMap Decl.variables = [ringConstant, ringParameter] &&
        (Hlsl.translate {} (some s) = .ok ⟨Hlsl.headerLine s.name ++ ringText "r" "r", []⟩ &&
        Hlsl.translate {} (some (s.rename ringName)) =
          .ok ⟨Hlsl.headerLine s.name ++ ringText "radius" "r", []⟩) &&
        ((Msl.translate (Msl.commonHeaderOf none) (some s)).map Prod.fst = .ok (ringMsl "r" "r") &&
        (Msl.translate (Msl.commonHeaderOf none)
          (some (s.rename ringName))).map Prod.fst =
          .ok (ringMsl "radius" "r"))) = true :=
    Source.exists_parse
      (.append (.append (.append (.append (.literal _) (.literal _)) (.literal _)) (.literal _))
        (.literal _))
      (by decide +kernel)
  simp only [Bool.and_eq_true, decide_eq_true_eq] at hring
  obtain ⟨⟨⟨hname, hvariables⟩, hcode, hcode'⟩, hmsl, hmsl'⟩ := hring
  have hhlsl : ∀ {s' : Shader} {t : String}, Hlsl.translate {} (some s') = .ok ⟨t, []⟩ →
      ∃ out w', Hlsl.compile {} (some s') {} = (.ok out, w') ∧ out.text = t := by
    intro s' t ht
    obtain ⟨out, w', hout, -⟩ := Hlsl.compile_of_translate {} s' [] (by rw [ht]; rfl)
      (by decide +kernel) {}
    have hsame := Except.ok.inj ((Hlsl.translate_of_compile hout).symm.trans ht)
    exact ⟨out, w', hout, congrArg Hlsl.Code.text hsame⟩
  refine ⟨s, hs, hvariables, ?_, ?_⟩
  · obtain ⟨out, w, hout, htext⟩ := hhlsl hcode
    obtain ⟨out', w', hout', htext'⟩ := hhlsl hcode'
    refine ⟨out, out', w, w', hout, hout', htext, htext', ?_⟩
    rw [htext', hname]
    decide +kernel
  · obtain ⟨out, hout, htext⟩ := Msl.compile_of_text {} hmsl {}
    obtain ⟨out', hout', htext'⟩ := Msl.compile_of_text {} hmsl' {}
    exact ⟨out, out', hout, hout', htext, htext'⟩

end Shaderwright
