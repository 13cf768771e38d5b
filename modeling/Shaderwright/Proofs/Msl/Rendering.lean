import Mathlib.Tactic.Common
import Shaderwright.Proofs.Emit.Prints
import Shaderwright.Proofs.Msl.Renaming
import Shaderwright.Proofs.Msl.Uniforms
import Shaderwright.Proofs.Shader.Respelling

/-!
MSL against its rendering, before helpers are renamed. The names of variables change with every new
parameter of the shader; apart from that a declaration reads alike wherever it stands.
-/

namespace Shaderwright.Msl

/-! ### Calls -/

/-- A call under the names that a table gives to the functions. -/
def callText (names : NameTable) (callee : String) (args : List Phrase) : String :=
  if callee = sampleFunction then calledBy (names.get callee) args
  else if isHelper callee then
    names.get callee ++ "(" ++
      Text.joinWith ", " ("_sampler" :: "_uniforms" :: args.map Phrase.text) ++ ")"
  else mappedCall names callee args

def phrasing (names table : NameTable) : Phrasing where
  types := types
  qualifiers := qualifiers
  variableNames := table
  call := callText names
  discard := "discard_fragment();"

/-- A texture read is noted for the end of the shader. -/
def setting (c : Scope) (table : NameTable) : Setting State where
  scope := c
  names s := s.variableNames
  table := table
  note r s := { s with samples := s.samples || r }
  note_false s := by simp
  note_note a b s := by simp [Bool.or_assoc]
  names_note _ _ := rfl

open Emit (Prints)

variable {c : Scope} {names table : NameTable}

lemma prints_callHelper (name : String) {args : List (Operand State)} {phrases : List Phrase}
    (h : List.Forall₂ (Operand.Follows (setting c table)) args phrases) :
    Prints (setting c table) (callHelper name args) ()
      (fun _ => name ++ "(" ++
        Text.joinWith ", " ("_sampler" :: "_uniforms" :: phrases.map Phrase.text) ++ ")")
      (phrases.any fun ph => ph.expr.reads) := by
  have hargs : Prints (setting c table) (args.forM fun arg => do Emit.write ", "; arg.write) ()
      (fun _ => Text.joinWith "" ((phrases.map fun ph => (", " ++ ph.text, ph.expr.reads)).map
        Prod.fst)) ((phrases.map fun ph => (", " ++ ph.text, ph.expr.reads)).any Prod.snd) := by
    refine .forM ?_
    rw [List.forall₂_map_right_iff]
    exact h.imp fun o ph ho => .bind (.write _) ho.write
  refine .of_eq (.bind (.write _) (.bind hargs (.write _))) (fun _ => ?_) ?_
  · have hstart : "(_sampler, _uniforms" = "(" ++ ("_sampler" ++ ", " ++ "_uniforms") := rfl
    rw [Text.joinWith_cons _ _ (by simp), Text.joinWith_cons_eq, hstart]
    simp only [List.map_map, Function.comp_def, String.append_assoc]
  · simp [Function.comp_def]

/-! ### Expressions and statements -/

lemma follows_exprDialect (c : Scope) (names table : NameTable) :
    (exprDialect names).Follows (setting c table) (phrasing names table) where
  types := rfl
  qualifiers := rfl
  names := rfl
  table := rfl
  call callee args phrases h := by
    show Prints (setting c table) (call names callee args) ()
      (fun _ => callText names callee phrases) _
    have hnote : Prints (setting c table) (modifyOwn fun s => { s with samples := true }) ()
        (fun _ => "") true := by
      intro w b v _ hv
      obtain ⟨-, rfl⟩ := Prod.mk.inj hv
      exact ⟨rfl, by simp [Setting.behind, setting]⟩
    unfold call callText
    by_cases hsample : callee = sampleFunction
    · simp only [hsample, if_true, decide_true, Bool.true_or]
      exact .of_eq (.bind hnote (ExprDialect.prints_callNamed _ h)) (fun _ => by simp) (by simp)
    · simp only [hsample, if_false, decide_false, Bool.false_or]
      split
      · exact prints_callHelper _ h
      · exact ExprDialect.prints_callMapped _ _ h

lemma follows_stmtDialect (names table : NameTable) {f : String} (hf : c.function = some f) :
    (stmtDialect names).Follows (setting c table) (phrasing names table) where
  toFollows := follows_exprDialect c names table
  declare v := by
    have hd := follows_exprDialect c names table
    show Prints (setting c table) (declare (exprDialect names) v) () _ _
    unfold declare VarDecl.localText
    cases v.var.qualifier with
    | const => exact hd.defineConstant v
    | param =>
      refine .get fun w hw => ?_
      rw [hw.calm.function, show (setting c table).scope.function = some f from hf]
      exact .throw _
    | _ =>
      refine .get fun w hw => ?_
      rw [hw.calm.function, show (setting c table).scope.function = some f from hf]
      exact hd.varDecl v
  discard := rfl

/-! ### Functions -/

/-- How a parameter reads; one that hands a value out is a reference. -/
def paramRendering (table : NameTable) (v : VarDecl) : String :=
  if v.var.out then
    qualifiers.get "out" ++ " " ++ types.get v.var.type.name ++ "& " ++ table.get v.var.name
  else types.get v.var.type.name ++ " " ++ table.get v.var.name ++ v.var.extent

/-- What a helper takes in front of its own parameters. -/
def handles (shader : String) (f : FuncDef) : List String :=
  if isHelper f.name then ["sampler _sampler", "constant " ++ uniformsName shader ++ "& _uniforms"]
  else []

def signature (names : NameTable) (shader : String) (table : NameTable) (f : FuncDef) : String :=
  types.get f.returns.name ++ " " ++ names.get f.name ++ "(" ++
    Text.joinWith ", " (handles shader f ++ f.params.map (paramRendering table)) ++ ")"

def entrySignature (shader : String) : String :=
  "fragment float4 " ++ prefixed shader entryPointName ++
    "(FragmentIn _in [[stage_in]], constant " ++ uniformsName shader ++
    "& _uniforms [[buffer(0)]], sampler _sampler [[sampler(0)]])"

def resultName (table : NameTable) (f : FuncDef) : String := table.get f.accumulator

/-- A function as a whole; the one named `main` is the entry point. -/
def functionText (names : NameTable) (shader : String) (table : NameTable) (f : FuncDef) : String :=
  if f.name = entryPointName then
    f.entryText (phrasing names table) (entrySignature shader)
      ("float4 " ++ resultName table f ++ " = float4(0.0);") (resultName table f)
  else f.text (phrasing names table) (signature names shader table f)

/-- A function whose accumulator may be without a name, or may be named like a variable that is
renamed itself. -/
def definedText (names : NameTable) (shader : String) (table : NameTable) (f : FuncDef) : String :=
  if f.name = entryPointName then
    f.framedText (phrasing names table) (entrySignature shader)
      ("float4 " ++ resultName table f ++ " = float4(0.0);")
      (if resultName table f = "" then none else some (table.get (resultName table f)))
      ("return " ++ table.get (resultName table f) ++ ";")
  else f.text (phrasing names table) (signature names shader table f)

lemma prints_paramText (c : Scope) (names table : NameTable) (v : VarDecl) :
    Prints (setting c table) (paramText (exprDialect names) v) (paramRendering table v)
      (fun _ => "") false := by
  have hd := follows_exprDialect c names table
  unfold paramText paramRendering
  cases v.var.out with
  | true =>
    exact .of_eq (.bind (hd.typeName _) (.bind (hd.variableName _) (.bind (hd.qualifier _)
      (.pure _)))) (fun _ => rfl) rfl
  | false =>
    exact .of_eq (.bind (hd.typeName _) (.bind (hd.variableName _) (.pure _))) (fun _ => rfl) rfl

/-- A table whose values hold a dot, other than its keys. So it maps nothing that it gives out. -/
structure Dotted (table : NameTable) : Prop where
  miss : table.miss = .identity
  keys : ∀ e ∈ table.entries, '.' ∉ e.1.toList
  values : ∀ e ∈ table.entries, '.' ∈ e.2.toList

namespace Dotted

lemma get_cases (h : Dotted table) (name : String) :
    '.' ∈ (table.get name).toList ∨ table.get name = name := by
  by_cases hmem : name ∈ table.entries.map Prod.fst
  · left
    obtain ⟨value, hvalue⟩ := Option.isSome_iff_exists.mp (NameTable.isSome_lookup.mpr hmem)
    have hget : table.get name = value := by simp [NameTable.get, NameTable.get?, hvalue]
    rw [hget]
    exact h.values _ (NameTable.mem_of_lookup hvalue)
  · exact .inr (NameTable.get_of_not_mem h.miss hmem)

lemma get_get (h : Dotted table) (name : String) : table.get (table.get name) = table.get name := by
  rcases h.get_cases name with hdot | hname
  · refine NameTable.get_of_not_mem h.miss fun hmem => ?_
    obtain ⟨e, he, hkey⟩ := List.mem_map.mp hmem
    exact h.keys e he (hkey ▸ hdot)
  · rw [hname, hname]

lemma get_ne_empty (h : Dotted table) {name : String} (hne : name ≠ "") : table.get name ≠ "" := by
  rcases h.get_cases name with hdot | hname
  · intro hempty
    simp [hempty] at hdot
  · rwa [hname]

lemma insert (h : Dotted table) {key value : String} (hkey : '.' ∉ key.toList)
    (hvalue : '.' ∈ value.toList) : Dotted (table.insert key value) where
  miss := h.miss
  keys := by
    refine List.forall_mem_cons.mpr ⟨hkey, fun e he => ?_⟩
    exact h.keys e (List.mem_of_mem_filter he)
  values := by
    refine List.forall_mem_cons.mpr ⟨hvalue, fun e he => ?_⟩
    exact h.values e (List.mem_of_mem_filter he)

lemma inputs : Dotted (inputTable inputName) := ⟨rfl, by decide, by decide⟩

end Dotted

variable {w v : Writer State} {shader : String}

/-- Outside all blocks a function is written as it is rendered. -/
lemma exec_define {f : FuncDef} (hw : w.Calm ⟨some f.name, ""⟩) (hdepth : w.depth = 0)
    (h : (define (stmtDialect names) shader f).exec w = (.ok (), v)) :
    v.out = w.out ++ definedText names shader w.own.variableNames f ∧
      v.own.variableNames = w.own.variableNames ∧ v.own.uniforms = w.own.uniforms ∧
      v.own.samples = (w.own.samples || f.reads) := by
  have hd : ∀ acc, (stmtDialect names).Follows (setting ⟨some f.name, acc⟩ w.own.variableNames)
      (phrasing names w.own.variableNames) := fun acc => follows_stmtDialect names _ rfl
  have hholds : (setting ⟨some f.name, ""⟩ w.own.variableNames).Holds w := ⟨hw, rfl⟩
  have hparams : Prints (setting ⟨some f.name, ""⟩ w.own.variableNames)
      (f.params.mapM (paramText (exprDialect names)))
      (f.params.map (paramRendering w.own.variableNames)) (fun _ => "") false :=
    .mapM fun p _ => prints_paramText _ names _ p
  unfold define at h
  unfold definedText
  split at h
  · rename_i hname
    rw [if_pos hname]
    unfold defineEntry at h
    split at h
    · simp at h
    · have hentry := ((hd "").variableName _).exec_bind_of_value hholds h
      obtain ⟨hout, hown⟩ := (hd "").entryPoint rfl rfl (hd _) (entrySignature shader) f hholds
        hdepth hentry
      rw [hown]
      exact ⟨hout, rfl, rfl, rfl⟩
  · rename_i hname
    rw [if_neg hname]
    have hrest := ((hd "").typeName _).exec_bind_of_value hholds h
    dsimp only at hrest
    split at hrest
    · rename_i hhelper
      obtain ⟨_, u, hu, hrest⟩ := Emit.exec_bind_eq_ok.mp hrest
      obtain ⟨-, rfl⟩ := Prod.mk.inj hu
      have hadded : (setting ⟨some f.name, ""⟩ w.own.variableNames).Holds
          { w with own := { w.own with helpers := w.own.helpers ++ [names.get f.name] } } :=
        ⟨⟨hw.function, hw.accumulator, hw.entry⟩, rfl⟩
      obtain ⟨hout, hown⟩ := (hd "").funcWithSignature rfl _ f hadded hdepth
        (hparams.exec_bind_of_value hadded hrest)
      rw [hown]
      refine ⟨hout.trans ?_, rfl, rfl, rfl⟩
      rw [signature, handles, if_pos hhelper]
      rfl
    · rename_i hhelper
      obtain ⟨hout, hown⟩ := (hd "").funcWithSignature rfl _ f hholds hdepth
        (hparams.exec_bind_of_value hholds hrest)
      rw [hown]
      refine ⟨hout.trans ?_, rfl, rfl, rfl⟩
      rw [signature, handles, if_neg hhelper]
      rfl

/-- No name that is given out is mapped again, and so an accumulator with a name is handed back
under the name that it is initialized with. -/
lemma Dotted.definedText_eq (h : Dotted table) {f : FuncDef} (hne : f.accumulator ≠ "") :
    definedText names shader table f = functionText names shader table f := by
  rw [definedText, resultName, if_neg (h.get_ne_empty hne), h.get_get]
  rfl

/-! ### Declarations -/

/-- The names of the variables so far, and those of the parameters among them. -/
structure Known where
  variableNames : NameTable := inputTable inputName
  params : List String := []

/-- Behind a parameter its name is known as that of a uniform. -/
def Known.behind (k : Known) (x : Decl) : Known :=
  match x.param? with
  | none => k
  | some v =>
    if v.name ∈ k.params then k
    else ⟨k.variableNames.insert v.name ("_uniforms." ++ v.name), k.params ++ [v.name]⟩

def State.known (s : State) : Known := ⟨s.variableNames, s.uniforms.map Uniform.name⟩

def globalText (p : Phrasing) (v : VarDecl) : String :=
  if v.var.qualifier = .const then v.constantText p else "constant " ++ v.text p ++ ";"

/-- A declaration of a shader. A parameter reads as nothing. -/
def declText (names : NameTable) (shader : String) (k : Known) : Decl → String
  | .absent => ""
  | .var v =>
    if v.var.qualifier = .param then ""
    else lineAt 0 (globalText (phrasing names k.variableNames) v)
  | .func f => functionText names shader k.variableNames f

def declsText (names : NameTable) (shader : String) : Known → List Decl → String
  | _, [] => ""
  | k, x :: xs => declText names shader k x ++ declsText names shader (k.behind x) xs

/-- The expressions of a declaration that are written. -/
def writtenExprs : Decl → List Expr
  | .absent => []
  | .var v => if v.var.qualifier = .param then [] else v.init.parts
  | .func f => Stmt.exprsOf f.body

def declReads (x : Decl) : Bool := (writtenExprs x).any Expr.isRead

def namesIdentifiers (x : Decl) : Prop := ∀ v ∈ x.variables, isIdentifier v.name = true

lemma accumulator_ne_empty {f : FuncDef} (h : namesIdentifiers (.func f)) : f.accumulator ≠ "" := by
  unfold FuncDef.accumulator
  split
  · rename_i p hp
    have hmem : p.var ∈ Decl.variables (.func f) :=
      List.mem_append_left _ (List.mem_map_of_mem (List.mem_of_find?_eq_some hp))
    intro hempty
    have hname := h p.var hmem
    simp [hempty, isIdentifier] at hname
  · decide

lemma dotted_behind {k : Known} (h : Dotted k.variableNames) {x : Decl} (hx : namesIdentifiers x) :
    Dotted (k.behind x).variableNames := by
  unfold Known.behind
  split
  · exact h
  · rename_i v hv
    split
    · exact h
    · have hword := isWord_of_isIdentifier (hx v (Decl.mem_variables_of_param? hv))
      refine h.insert (fun hdot => ?_) (by simp)
      exact absurd (hword.word '.' hdot) (by decide)

lemma dotted_foldl_behind {k : Known} (h : Dotted k.variableNames) {xs : List Decl}
    (hxs : ∀ x ∈ xs, namesIdentifiers x) : Dotted (xs.foldl Known.behind k).variableNames := by
  induction xs generalizing k with
  | nil => exact h
  | cons x xs ih =>
    obtain ⟨hx, hxs⟩ := List.forall_mem_cons.mp hxs
    exact ih (dotted_behind h hx) hxs

lemma prints_declare (names table : NameTable) {v : VarDecl} (hv : v.var.qualifier ≠ .param) :
    Prints (setting {} table) (declare (exprDialect names) v) ()
      (fun n => lineAt n (globalText (phrasing names table) v)) v.init.reads := by
  have hd := follows_exprDialect {} names table
  unfold declare globalText
  cases hq : v.var.qualifier with
  | const => exact hd.defineConstant v
  | param => exact absurd hq hv
  | _ =>
    refine .get fun w hw => ?_
    rw [hw.calm.function]
    dsimp only [setting]
    split
    · exact .throw_bind _ _
    · exact .of_eq (.bind (hd.varDeclText v) (.writeLine _)) (fun _ => by simp) (by simp)

lemma known_declareUniform {d : VarDecl} (hd : d.var.qualifier = .param)
    (h : (declareUniform (exprDialect names) d.var).exec w = (.ok (), v)) :
    v.out = w.out ∧ v.own.known = w.own.known.behind (.var d) ∧ v.own.samples = w.own.samples := by
  have hparam : Decl.param? (.var d) = some d.var := if_pos hd
  rw [Known.behind, hparam]
  dsimp only
  by_cases hmem : d.var.name ∈ w.own.uniforms.map Uniform.name
  · rw [exec_declareUniform_of_mem hmem] at h
    obtain ⟨-, rfl⟩ := Prod.mk.inj h
    exact ⟨rfl, (if_pos hmem).symm, rfl⟩
  · rw [exec_declareUniform_of_not_mem hmem h]
    refine ⟨rfl, Eq.trans ?_ (if_neg hmem).symm, rfl⟩
    simp [State.known]

/-- A declaration of a shader, whatever the accumulator of a function is named. -/
def writtenText (names : NameTable) (shader : String) (k : Known) : Decl → String
  | .func f => definedText names shader k.variableNames f
  | x => declText names shader k x

def writtenTexts (names : NameTable) (shader : String) : Known → List Decl → String
  | _, [] => ""
  | k, x :: xs => writtenText names shader k x ++ writtenTexts names shader (k.behind x) xs

lemma writtenText_eq {k : Known} (hk : Dotted k.variableNames) {x : Decl}
    (hx : namesIdentifiers x) : writtenText names shader k x = declText names shader k x := by
  cases x with
  | func f => exact hk.definedText_eq (accumulator_ne_empty hx)
  | _ => rfl

lemma writtenTexts_eq {k : Known} (hk : Dotted k.variableNames) {xs : List Decl}
    (hxs : ∀ x ∈ xs, namesIdentifiers x) :
    writtenTexts names shader k xs = declsText names shader k xs := by
  induction xs generalizing k with
  | nil => rfl
  | cons x xs ih =>
    obtain ⟨hx, hxs⟩ := List.forall_mem_cons.mp hxs
    rw [writtenTexts, declsText, writtenText_eq hk hx, ih (dotted_behind hk hx) hxs]

/-- Outside all functions a declaration is written as it is rendered. -/
lemma exec_decl_written {x : Decl} (hw : w.Calm {}) (hdepth : w.depth = 0)
    (h : ((dialect names shader).decl x).exec w = (.ok (), v)) :
    v.out = w.out ++ writtenText names shader w.own.known x ∧
      v.own.known = w.own.known.behind x ∧
      v.own.samples = (w.own.samples || declReads x) := by
  cases x with
  | absent => simp [Dialect.decl] at h
  | var d =>
    by_cases hd : d.var.qualifier = .param
    · rw [exec_decl_param hd hw] at h
      simpa [writtenText, declText, declReads, writtenExprs, hd] using known_declareUniform hd h
    · obtain ⟨-, rfl⟩ := prints_declare names w.own.variableNames hd w () v ⟨hw, rfl⟩ h
      refine ⟨?_, ?_, ?_⟩
      · simp [Setting.behind, writtenText, declText, hd, hdepth, State.known]
      · simp [Known.behind, Decl.param?, hd, State.known, setting, Setting.behind]
      · simp [declReads, writtenExprs, hd, setting, Setting.behind, Expr.reads]
  | func f =>
    rw [Dialect.exec_func] at h
    obtain ⟨hr, rfl⟩ := Prod.mk.inj h
    obtain ⟨hout, hnames, huniforms, hsamples⟩ :=
      exec_define (w := { w with function := some f.name }) ⟨rfl, hw.accumulator, hw.entry⟩ hdepth
        (Prod.ext hr rfl)
    exact ⟨hout, congrArg₂ Known.mk hnames (congrArg (List.map Uniform.name) huniforms), hsamples⟩

/-- All declarations together. -/
lemma exec_decls_written {xs : List Decl} (hw : w.Calm {}) (hdepth : w.depth = 0)
    (h : ((dialect names shader).decls xs).exec w = (.ok (), v)) :
    v.out = w.out ++ writtenTexts names shader w.own.known xs ∧
      v.own.known = xs.foldl Known.behind w.own.known ∧
      v.own.samples = (w.own.samples || xs.any declReads) := by
  induction xs generalizing w with
  | nil =>
    obtain ⟨-, rfl⟩ := Prod.mk.inj h
    simp [writtenTexts]
  | cons x xs ih =>
    obtain ⟨_, u, hx, hrest⟩ := Emit.exec_bind_eq_ok.mp h
    have htame := (tame_dialect names shader).decl x
    have hcalm : u.Calm {} := by
      have hkeep := htame.keeps w hw
      rwa [hx] at hkeep
    obtain ⟨hout, hknown, hsamples⟩ := exec_decl_written hw hdepth hx
    obtain ⟨hout', hknown', hsamples'⟩ :=
      ih hcalm ((htame.balanced w () u hw hx).trans hdepth) hrest
    refine ⟨?_, ?_, ?_⟩
    · rw [hout', hout, hknown, writtenTexts, String.append_assoc]
    · rw [hknown', hknown, List.foldl_cons]
    · rw [hsamples', hsamples, List.any_cons, Bool.or_assoc]

/-- With identifiers for names the accumulator of the entry point has one name throughout. -/
lemma exec_decl {x : Decl} (hw : w.Calm {}) (hdepth : w.depth = 0)
    (htable : Dotted w.own.variableNames) (hx : namesIdentifiers x)
    (h : ((dialect names shader).decl x).exec w = (.ok (), v)) :
    v.out = w.out ++ declText names shader w.own.known x ∧
      v.own.known = w.own.known.behind x ∧
      v.own.samples = (w.own.samples || declReads x) := by
  have hwritten := exec_decl_written hw hdepth h
  rwa [writtenText_eq htable hx] at hwritten

lemma exec_decls {xs : List Decl} (hw : w.Calm {}) (hdepth : w.depth = 0)
    (htable : Dotted w.own.variableNames) (hxs : ∀ x ∈ xs, namesIdentifiers x)
    (h : ((dialect names shader).decls xs).exec w = (.ok (), v)) :
    v.out = w.out ++ declsText names shader w.own.known xs ∧
      v.own.known = xs.foldl Known.behind w.own.known ∧
      v.own.samples = (w.own.samples || xs.any declReads) := by
  have hwritten := exec_decls_written hw hdepth h
  rwa [writtenTexts_eq htable hxs] at hwritten

end Shaderwright.Msl
