import Mathlib.Tactic.Common
import Shaderwright.Proofs.Emit.Discipline
import Shaderwright.Proofs.Hlsl.Compile

/-!
The bindings of a shader. They are those of its parameters, in the order of the declarations, and
every one of them is annotated with its register in the text of its declaration. Nothing inside a
function adds to them.
-/

namespace Shaderwright.Hlsl

/-! ### The discipline of the dialect -/

section Discipline

variable {c : Scope} {g : State → State}

lemma tame_narrowed {o : Operand State} (ho : o.Tame c g) (param : ShaderType) :
    Emit.Tame c g (narrowed o param) := by
  unfold narrowed
  dsimp only
  split
  · exact .bind (.write _) fun _ => .bind ho.write fun _ => .bind (.write _) fun _ => .write _
  · exact .bind ho.write fun _ => .write _

lemma tame_paintArgs {args : List (Operand State)} (h : ∀ o ∈ args, o.Tame c g)
    (params : List ShaderType) : ∀ step ∈ paintArgs args params, Emit.Tame c g step := by
  induction args generalizing params with
  | nil => simp [paintArgs]
  | cons arg rest ih =>
    have harg := h arg List.mem_cons_self
    have hrest := ih fun o ho => h o (List.mem_cons_of_mem _ ho)
    cases params with
    | nil => simpa [paintArgs] using ⟨harg.write, hrest []⟩
    | cons param params => simpa [paintArgs] using ⟨tame_narrowed harg param, hrest params⟩

lemma tame_callSample {args : List (Operand State)} (h : ∀ o ∈ args, o.Tame c g) :
    Emit.Tame c g (callSample args) := by
  unfold callSample
  split
  · rename_i texture uv
    have huv : Emit.Tame c g uv.write := (h uv (by simp)).write
    dsimp only
    split
    · exact .bind (.pure _) fun _ => .bind (.write _) fun _ => .bind huv fun _ => .write _
    · rename_i helement _
      have hindex := (h texture (by simp)).element _ _ helement
      exact .bind hindex.captured fun _ => .bind (.pure _) fun _ => .bind (.write _) fun _ =>
        .bind huv fun _ => .write _
    · exact .bind (.throw _) fun _ => .bind (.write _) fun _ => .bind huv fun _ => .write _
  · exact .throw _

lemma tame_exprDialect (paint : Paint) : (exprDialect paint).Tame c g where
  variableNames _ := rfl
  call callee args h := by
    show Emit.Tame c g (call paint callee args)
    unfold call
    split
    · exact tame_callSample h
    · split
      · exact .bind (.write _) fun _ => .bind (.separated ", " (tame_paintArgs h _)) fun _ =>
          .write _
      · unfold ExprDialect.callMapped
        split <;> exact ExprDialect.tame_callNamed _ h

lemma tame_declare (paint : Paint) {v : VarDecl} (hv : v.var.qualifier ≠ .param) :
    Emit.Tame c g (declare (exprDialect paint) v) := by
  have hd : (exprDialect paint).Tame c g := tame_exprDialect paint
  unfold declare
  split
  · exact hd.defineConstant v
  · exact absurd (by assumption) hv
  · refine .get (fun w hw => ?_) fun before w w' hw hw' _ => ?_
    · split
      · exact .bind (hd.varDeclText v) fun _ => .writeLine _
      · exact hd.varDecl v
    · rw [hw.function, hw'.function]

lemma tame_stmtDialect (paint : Paint) {f : String} (hf : c.function = some f) :
    (stmtDialect paint).Tame c g where
  toTame := tame_exprDialect paint
  declare v := by
    show Emit.Tame c g (declare (exprDialect paint) v)
    by_cases hv : v.var.qualifier = .param
    · unfold declare
      rw [hv]
      refine .get (fun w hw => ?_) fun before w w' hw hw' _ => ?_
      · rw [hw.function, hf]
        exact .throw _
      · rw [hw.function, hw'.function]
    · exact tame_declare paint hv

lemma tame_define (paint : Paint) (f : FuncDef) :
    Emit.Tame ⟨some f.name, ""⟩ g (define (stmtDialect paint) f) := by
  have hd : ∀ acc, (stmtDialect paint).Tame ⟨some f.name, acc⟩ g :=
    fun acc => tame_stmtDialect paint rfl
  unfold define
  split
  · exact (hd "").funcDef f
  · split
    · exact .throw _
    · dsimp only
      exact .bind ((hd "").variableName _) fun _ => (hd "").entryPoint rfl (hd _) _ f

lemma tame_bind (hg : ∀ s bs, g (s ++ bs) = g s ++ bs) (bs : List Binding) :
    Emit.Tame c g (bind bs) where
  keeps w hw := ⟨hw.function, hw.accumulator, hw.entry⟩
  balanced w a v _ h := by
    obtain ⟨-, rfl⟩ := Prod.mk.inj h
    rfl
  lifts before w w' _ _ hl := ⟨rfl, hl.out, hl.depth, by
    show w'.own ++ bs = g (w.own ++ bs)
    rw [hl.own, hg]⟩

/-- A declaration adds its bindings, if it has any, behind those that are there. -/
lemma tame_declare_of_append (paint : Paint) (hg : ∀ s bs, g (s ++ bs) = g s ++ bs) (v : VarDecl) :
    Emit.Tame c g (declare (exprDialect paint) v) := by
  have hd : (exprDialect paint).Tame c g := tame_exprDialect paint
  have htexture : Emit.Tame c g (declareTexture (exprDialect paint) v.var) :=
    .bind (ExprDialect.tame_mapped _ _) fun _ => .bind (hd.variableName _) fun _ =>
      .bind (.writeLine _) fun _ => .bind (.writeLine _) fun _ => tame_bind hg _
  have huniform : Emit.Tame c g (declareUniform (exprDialect paint) v.var) := by
    unfold declareUniform
    split
    · exact .throw _
    · exact .bind (ExprDialect.tame_mapped _ _) fun _ => .bind (ExprDialect.tame_mapped _ _)
        fun _ => .bind (hd.variableName _) fun _ => .bind (.writeLine _) fun _ => tame_bind hg _
  by_cases hv : v.var.qualifier = .param
  · unfold declare
    rw [hv]
    refine .get (fun w hw => ?_) fun before w w' hw hw' _ => ?_
    · split
      · exact .throw _
      · split
        · exact htexture
        · exact huniform
    · rw [hw.function, hw'.function]
  · exact tame_declare paint hv

lemma tame_dialect (paint : Paint) (hg : ∀ s bs, g (s ++ bs) = g s ++ bs) :
    (dialect paint).Tame g where
  declare := tame_declare_of_append paint hg
  define f := tame_define paint f

end Discipline

/-! ### What a declaration binds -/

/-- The category of a numeric type with this many components. -/
def constCategory : Nat → Category
  | 1 => .const32
  | 2 => .const64
  | 3 => .const96
  | _ => .const128

/-- The bindings of a parameter that is numeric or a sampler. -/
def paramBindings (v : Variable) : List Binding :=
  if v.type.isSampler then
    [⟨v.name, .texture, v.slot, v.count⟩, ⟨v.name ++ samplerSuffix, .sampler, v.slot, v.count⟩]
  else [⟨v.name, constCategory v.type.arity, v.slot, v.count⟩]

def declBindings : Decl → List Binding
  | .var v => if v.var.qualifier = .param then paramBindings v.var else []
  | _ => []

/-- The letter that the registers for a category have in front of their numbers. -/
def registerLetter : Category → String
  | .texture => "t"
  | .sampler => "s"
  | _ => "c"

/-- The line that declares a variable, or its sampler state, at the register of a binding. -/
def bindingLine (kind : String) (v : Variable) (b : Binding) : String :=
  kind ++ " " ++ variableNames.get v.name ++ (if b.category = .sampler then "_sampler" else "") ++
    v.extent ++ " : register(" ++ registerLetter b.category ++ toString b.slot.toInt ++ ");"

/-- The text is one line for each of these bindings of a variable. -/
def Annotated (v : Variable) (bs : List Binding) (text : String) : Prop :=
  ∃ lines : List String, text = String.join (lines.map (· ++ "\n")) ∧ lines.length = bs.length ∧
    ∀ b ∈ bs, ∃ kind, bindingLine kind v b ∈ lines

variable {paint : Paint} {w w' : Writer State} {v : Variable}

lemma register_eq (c : Category) (slot : Int64) : c.registerClass.register slot =
    "register(" ++ registerLetter c ++ toString slot.toInt ++ ")" := by
  cases c <;> rfl

lemma bindingLine_eq (kind : String) (v : Variable) (b : Binding) :
    bindingLine kind v b = kind ++ " " ++ variableNames.get v.name ++
      (if b.category = .sampler then samplerSuffix else "") ++ v.extent ++ " : " ++
      b.category.registerClass.register b.slot ++ ";" := by
  rw [bindingLine, show " : register(" = " : " ++ "register(" from rfl, register_eq]
  simp only [samplerSuffix, String.append_assoc]
  rfl

lemma exec_bind (bs : List Binding) (w : Writer State) :
    (bind bs).exec w = (.ok (), { w with own := w.own ++ bs }) := rfl

lemma exec_declareTexture (hdepth : w.depth = 0) (hs : v.type.isSampler = true)
    (h : (declareTexture (exprDialect paint) v).exec w = (.ok (), w')) :
    w'.own = w.own ++ paramBindings v ∧
      ∃ text, w'.out = w.out ++ text ∧ Annotated v (paramBindings v) text := by
  obtain ⟨type, u, htype, h⟩ := Emit.exec_bind_eq_ok.mp h
  obtain ⟨-, rfl⟩ := ExprDialect.exec_mapped_eq_ok.mp htype
  simp only [Emit.exec_bind, ExprDialect.exec_variableName, Emit.exec_writeLine, exec_bind,
    Prod.mk.injEq, true_and, hdepth] at h
  subst h
  -- the sampler state is declared first and bound last
  let lines := [
    bindingLine "SamplerState" v ⟨v.name ++ samplerSuffix, .sampler, v.slot, v.count⟩,
    bindingLine type v ⟨v.name, .texture, v.slot, v.count⟩]
  refine ⟨by simp [paramBindings, hs], String.join (lines.map (· ++ "\n")), ?_, lines, rfl, ?_, ?_⟩
  · simp [lines, bindingLine_eq, exprDialect, Emit.indentation, String.append_assoc,
      Category.registerClass]
  · simp [lines, paramBindings, hs]
  · rw [paramBindings, if_pos hs]
    simp only [List.forall_mem_cons, lines]
    exact ⟨⟨type, by simp⟩, ⟨"SamplerState", by simp⟩, by simp⟩

/-- Exactly the numeric types have a category. -/
lemma ofComponents?_eq_some {t : ShaderType} {category : Category} :
    Category.ofComponents? t.components = some category ↔
      t.isNumeric = true ∧ category = constCategory t.arity := by
  by_cases hnumeric : t.isNumeric
  · obtain ⟨base, arity⟩ := t
    have harity : arity = 1 ∨ arity = 2 ∨ arity = 3 ∨ arity = 4 := by
      simp only [ShaderType.isNumeric, Bool.and_eq_true, decide_eq_true_eq] at hnumeric
      omega
    rw [ShaderType.components, if_pos hnumeric]
    rcases harity with rfl | rfl | rfl | rfl <;>
      simp [Category.ofComponents?, constCategory, hnumeric, eq_comm]
  · simp [ShaderType.components, hnumeric, Category.ofComponents?]

lemma constCategory_ne_sampler (n : Nat) : constCategory n ≠ .sampler := by
  unfold constCategory
  split <;> simp

lemma exec_declareUniform (hdepth : w.depth = 0) (hs : v.type.isSampler = false)
    (h : (declareUniform (exprDialect paint) v).exec w = (.ok (), w')) :
    v.type.isNumeric = true ∧ w'.own = w.own ++ paramBindings v ∧
      ∃ text, w'.out = w.out ++ text ∧ Annotated v (paramBindings v) text := by
  unfold declareUniform at h
  split at h
  · simp at h
  · rename_i category hcategory
    obtain ⟨hnumeric, rfl⟩ := ofComponents?_eq_some.mp hcategory
    have hbs : paramBindings v = [⟨v.name, constCategory v.type.arity, v.slot, v.count⟩] := by
      simp [paramBindings, hs]
    obtain ⟨type, u, htype, h⟩ := Emit.exec_bind_eq_ok.mp h
    obtain ⟨-, rfl⟩ := ExprDialect.exec_mapped_eq_ok.mp htype
    obtain ⟨uniform, u, huniform, h⟩ := Emit.exec_bind_eq_ok.mp h
    obtain ⟨-, rfl⟩ := ExprDialect.exec_mapped_eq_ok.mp huniform
    simp only [Emit.exec_bind, ExprDialect.exec_variableName, Emit.exec_writeLine, exec_bind,
      Prod.mk.injEq, true_and, hdepth] at h
    subst h
    let line := bindingLine (uniform ++ " " ++ type) v
      ⟨v.name, constCategory v.type.arity, v.slot, v.count⟩
    refine ⟨hnumeric, by rw [hbs], line ++ "\n", ?_, [line], by simp, by simp [hbs], ?_⟩
    · simp [line, bindingLine_eq, exprDialect, Emit.indentation, String.append_assoc,
        constCategory_ne_sampler]
    · rw [hbs]
      simp only [List.forall_mem_cons]
      exact ⟨⟨_, List.mem_singleton_self _⟩, by simp⟩

/-- What a variable outside the functions binds, and how the text of a parameter shows it. -/
lemma exec_declare {v : VarDecl} (hw : w.Calm {}) (hdepth : w.depth = 0)
    (h : (declare (exprDialect paint) v).exec w = (.ok (), w')) :
    w'.own = w.own ++ declBindings (.var v) ∧
      (v.var.qualifier = .param → (v.var.type.isNumeric ∨ v.var.type.isSampler) ∧
        ∃ text, w'.out = w.out ++ text ∧ Annotated v.var (paramBindings v.var) text) := by
  by_cases hv : v.var.qualifier = .param
  · rw [declBindings, if_pos hv]
    unfold declare at h
    rw [hv] at h
    simp only [Emit.exec_bind, Emit.exec_get, hw.function] at h
    by_cases hs : v.var.type.isSampler
    · rw [if_pos hs] at h
      obtain ⟨hown, htext⟩ := exec_declareTexture hdepth hs h
      exact ⟨hown, fun _ => ⟨.inr hs, htext⟩⟩
    · rw [if_neg hs] at h
      obtain ⟨hnumeric, hown, htext⟩ := exec_declareUniform hdepth (by simpa using hs) h
      exact ⟨hown, fun _ => ⟨.inl hnumeric, htext⟩⟩
  · have hown := Emit.own_of_tame (fun _ => tame_declare paint hv) hw
    rw [h] at hown
    exact ⟨by simpa [declBindings, hv] using hown, fun hv' => absurd hv' hv⟩

/-- What one declaration gives when it stands alone. -/
def declCode (paint : Paint) (x : Decl) : Except Fault Code :=
  match ((dialect paint).decl x).exec { own := [] } with
  | (.ok (), w) => .ok ⟨w.out, w.own⟩
  | (.error e, _) => .error e

/-- The code of a declaration: its own bindings, and for a parameter a line for each of them. -/
structure Binds (paint : Paint) (x : Decl) (text : String) : Prop where
  alone : declCode paint x = .ok ⟨text, declBindings x⟩
  param : ∀ v, x = .var v → v.var.qualifier = .param →
    (v.var.type.isNumeric ∨ v.var.type.isSampler) ∧ Annotated v.var (paramBindings v.var) text

lemma own_decl_alone {x : Decl} {u : Writer State}
    (h : ((dialect paint).decl x).exec { own := [] } = (.ok (), u)) : u.own = declBindings x := by
  have hcalm : Writer.Calm {} ({ own := [] } : Writer State) := ⟨rfl, rfl, rfl⟩
  cases x with
  | absent => simp [Dialect.decl] at h
  | var v => simpa using (exec_declare hcalm rfl h).1
  | func f =>
    have htame : ∀ g, Emit.Tame {} g ((dialect paint).decl (.func f)) :=
      fun _ => Dialect.tame_func (tame_define paint f)
    have hown := Emit.own_of_tame htame hcalm
    rw [h] at hown
    exact hown

/-- A declaration outside the functions gives the code that it gives alone. -/
lemma exec_decl {x : Decl} (hw : w.Calm {}) (hdepth : w.depth = 0)
    (h : ((dialect paint).decl x).exec w = (.ok (), w')) :
    w'.Calm {} ∧ w'.depth = 0 ∧ w'.own = w.own ++ declBindings x ∧
      ∃ text, w'.out = w.out ++ text ∧ Binds paint x text := by
  have hcalm : Writer.Calm {} ({ own := [] } : Writer State) := ⟨rfl, rfl, rfl⟩
  have htame : Emit.Tame {} (w.own ++ ·) ((dialect paint).decl x) :=
    (tame_dialect paint fun s bs => (List.append_assoc _ s bs).symm).decl x
  have hw' := htame.keeps w hw
  obtain ⟨hr, hl⟩ := htame.lifts w.out _ w hcalm hw ⟨by simp, hdepth, by simp⟩
  rw [h] at hw' hr hl
  rcases hu : ((dialect paint).decl x).exec { own := [] } with ⟨r, u⟩
  rw [hu] at hr hl
  obtain rfl : Except.ok () = r := hr
  have hown := own_decl_alone hu
  refine ⟨hw', (htame.balanced w () w' hw h).trans hdepth, by rw [hl.own, hown], u.out, hl.out, ?_⟩
  refine ⟨by simp [declCode, hu, hown], ?_⟩
  rintro v rfl hv
  obtain ⟨htype, text, htext, hannotated⟩ := (exec_declare hcalm rfl hu).2 hv
  obtain rfl : u.out = text := by simpa using htext
  exact ⟨htype, hannotated⟩

lemma exec_decls {xs : List Decl} (hw : w.Calm {}) (hdepth : w.depth = 0)
    (h : ((dialect paint).decls xs).exec w = (.ok (), w')) :
    w'.own = w.own ++ xs.flatMap declBindings ∧
      ∃ texts, w'.out = w.out ++ String.join texts ∧ List.Forall₂ (Binds paint) xs texts := by
  induction xs generalizing w with
  | nil =>
    obtain ⟨-, rfl⟩ := Prod.mk.inj h
    exact ⟨by simp, [], by simp, .nil⟩
  | cons x xs ih =>
    obtain ⟨_, u, hx, hxs⟩ := Emit.exec_bind_eq_ok.mp h
    obtain ⟨hu, hudepth, hown, text, hout, hbinds⟩ := exec_decl hw hdepth hx
    obtain ⟨hown', texts, hout', hbinds'⟩ := ih hu hudepth hxs
    refine ⟨by rw [hown', hown, List.flatMap_cons, List.append_assoc], text :: texts, ?_,
      .cons hbinds hbinds'⟩
    rw [hout', hout, String.join_cons, String.append_assoc]

/-! ### The bindings of a shader -/

lemma bindings_of_translate {o : Options} {s : Shader} {code : Code}
    (h : translate o (some s) = .ok code) : code.bindings = s.decls.flatMap declBindings := by
  obtain ⟨-, v, hv, rfl⟩ := translate_eq_ok.mp h
  exact (exec_decls ⟨rfl, rfl, rfl⟩ rfl hv).1

/-- The bindings of an accepted shader are those of its parameters in the order of the
declarations, every parameter is numeric or a sampler, and the text consists of the texts of the
declarations, in which every binding of a parameter has its annotated line. -/
theorem bindings_of_compile {o : Options} {s : Shader} {w w' : World} {out : Output}
    (h : compile o (some s) w = (.ok out, w')) :
    out.bindings = s.decls.flatMap declBindings ∧
      ∃ texts, out.text = headerLine s.name ++ String.join texts ∧
        List.Forall₂ (Binds (o.paint s)) s.decls texts := by
  obtain ⟨-, v, hv, hcode⟩ := translate_eq_ok.mp (translate_of_compile h)
  obtain ⟨hown, texts, hout, hbinds⟩ := exec_decls ⟨rfl, rfl, rfl⟩ rfl hv
  exact ⟨by rw [hcode, hown]; rfl, texts, by rw [hcode, hout], hbinds⟩

/-- An entry point that reads an element of a texture array in a nested block. -/
def tintedMain : FuncDef where
  name := "main"
  returns := .void
  params := [{ var := { name := "color", type := .vec4, out := true } }]
  body := [
    .block [
      .decl {
        var := { name := "uv", type := .vec2 }
        init := .ident "texCoord" (.input .texCoord) },
      .ifElse (.literal "true" .bool)
        (.expr (.assign "=" (.ident "color" .unresolved)
          (.binary "*" (.ident "tint" .unresolved)
            (.call "sample" [
              .index (.ident "layers" .unresolved) (.literal "1" .int),
              .ident "uv" .unresolved]))))
        .absent]]

/-- A shader with a texture array, a constant and a colour. -/
def tinted : Shader where
  name := "Tinted"
  decls := [
    .var { var := {
      name := "layers", type := .sampler2D, qualifier := .param, slot := 2, isArray := true,
      arraySize := 3 } },
    .var {
      var := { name := "scale", type := .float, qualifier := .const }
      init := .literal "2.0" .float },
    .var { var := { name := "tint", type := .vec4, qualifier := .param, slot := 5 } },
    .func tintedMain]

/-- The bindings of the texture array come first, and the body of the entry point adds none. -/
theorem bindings_of_tinted :
    ∃ out w', compile {} (some tinted) {} = (.ok out, w') ∧
      out.bindings = [⟨"layers", .texture, 2, 3⟩, ⟨"layers_sampler", .sampler, 2, 3⟩,
        ⟨"tint", .const128, 5, 1⟩] ∧
      ∃ texts, out.text = headerLine "Tinted" ++ String.join texts ∧
        List.Forall₂ (Binds (({} : Options).paint tinted)) tinted.decls texts := by
  obtain ⟨out, w', h, -⟩ := compile_of_translate {} tinted (tinted.decls.flatMap declBindings)
    (by decide +kernel) (by decide +kernel) {}
  obtain ⟨hbindings, htexts⟩ := bindings_of_compile h
  exact ⟨out, w', h, hbindings.trans (by decide +kernel), htexts⟩

end Shaderwright.Hlsl
