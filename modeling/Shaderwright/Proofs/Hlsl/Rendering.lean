import Mathlib.Tactic.Common
import Shaderwright.Hlsl.Dialect
import Shaderwright.Proofs.Emit.Prints

/-!
HLSL against its rendering: how calls and functions read, and that the writer writes them so.
-/

namespace Shaderwright.Hlsl

/-! ### Calls -/

/-- An argument of the paint function, narrowed to a parameter. -/
def narrowedText (arg : Phrase) (param : ShaderType) : String :=
  (if truncation arg.expr param ≠ "" && needsParentheses arg.expr then "(" ++ arg.text ++ ")"
    else arg.text) ++ truncation arg.expr param

def paintTexts : List Phrase → List ShaderType → List String
  | [], _ => []
  | arg :: rest, [] => arg.text :: paintTexts rest []
  | arg :: rest, param :: params => narrowedText arg param :: paintTexts rest params

/-- A texture read as a method of the texture. -/
def sampleText : List Phrase → String
  | [texture, uv] =>
    match texture.expr, texture.element with
    | .ident name _, _ =>
      variableNames.get name ++ ".Sample(" ++ (variableNames.get name ++ samplerSuffix) ++ ", " ++
        uv.text ++ ")"
    | _, some (name, i) =>
      variableNames.get name ++ "[" ++ i ++ "]" ++ ".Sample(" ++
        (variableNames.get name ++ samplerSuffix ++ "[" ++ i ++ "]") ++ ", " ++ uv.text ++ ")"
    | _, none => ""
  | _ => ""

/-- A texture that is an element of an array has its sampler state in another array. -/
lemma sampleText_element {texture uv : Phrase} {name i : String}
    (hexpr : ∀ name ref, texture.expr = .ident name ref → False)
    (h : texture.element = some (name, i)) :
    sampleText [texture, uv] = variableNames.get name ++ "[" ++ i ++ "]" ++ ".Sample(" ++
      (variableNames.get name ++ samplerSuffix ++ "[" ++ i ++ "]") ++ ", " ++ uv.text ++ ")" := by
  unfold sampleText
  split
  · rename_i heq
    obtain ⟨rfl, rfl⟩ : texture = _ ∧ uv = _ := by simpa using heq
    split
    · rename_i hident
      exact absurd hident fun hident => hexpr _ _ hident
    · rename_i helement _
      obtain ⟨rfl, rfl⟩ : name = _ ∧ i = _ := by simpa [h] using helement
      rfl
    · simp_all
  · simp_all

def callText (paint : Paint) (callee : String) (args : List Phrase) : String :=
  if callee = sampleFunction then sampleText args
  else if callee = paint.function then
    functions.get callee ++ "(" ++ Text.joinWith ", " (paintTexts args paint.params) ++ ")"
  else mappedCall functions callee args

def phrasing (paint : Paint) : Phrasing where
  types := types
  qualifiers := qualifiers
  variableNames := variableNames
  call := callText paint
  discard := "discard;"

/-- The names never change, and of a texture read nothing is kept. -/
def setting (c : Scope) : Setting State where
  scope := c
  names _ := variableNames
  table := variableNames
  note _ s := s
  note_false _ := rfl
  note_note _ _ _ := rfl
  names_note _ _ := rfl

open Emit (Prints)

variable {c : Scope}

lemma prints_unnoted {α : Type} {m : Emit State α} {a : α} {t : Nat → String} {r : Bool}
    (h : Prints (setting c) m a t r) (r' : Bool) : Prints (setting c) m a t r' :=
  fun w b v hw hv => h w b v hw hv

lemma prints_narrowed {o : Operand State} {ph : Phrase} (h : o.Follows (setting c) ph)
    (param : ShaderType) :
    Prints (setting c) (narrowed o param) () (fun _ => narrowedText ph param) ph.expr.reads := by
  unfold narrowed narrowedText
  rw [h.expr]
  dsimp only
  split
  · exact .of_eq (.bind (.write _) (.bind h.write (.bind (.write _) (.write _))))
      (fun _ => by simp only [String.append_assoc]) (by simp)
  · exact .of_eq (.bind h.write (.write _)) (fun _ => rfl) (by simp)

lemma prints_paintArgs {args : List (Operand State)} {phrases : List Phrase}
    (h : List.Forall₂ (Operand.Follows (setting c)) args phrases) (params : List ShaderType) :
    List.Forall₂ (fun m (q : String × Bool) => Prints (setting c) m () (fun _ => q.1) q.2)
      (paintArgs args params) ((paintTexts phrases params).map fun text => (text, false)) := by
  induction h generalizing params with
  | nil => exact .nil
  | cons harg _ ih =>
    cases params with
    | nil => exact .cons (prints_unnoted harg.write _) (ih [])
    | cons param params => exact .cons (prints_unnoted (prints_narrowed harg param) _) (ih params)

lemma prints_callSample {args : List (Operand State)} {phrases : List Phrase}
    (h : List.Forall₂ (Operand.Follows (setting c)) args phrases) :
    Prints (setting c) (callSample args) () (fun _ => sampleText phrases) true := by
  have hread : ∀ (t s : String) {uv : Operand State} {ph : Phrase}, uv.Follows (setting c) ph →
      Prints (setting c) (do Emit.write (t ++ ".Sample(" ++ s ++ ", "); uv.write; Emit.write ")") ()
        (fun _ => t ++ ".Sample(" ++ s ++ ", " ++ ph.text ++ ")") true := by
    intro t s uv ph huv
    refine prints_unnoted
      (.of_eq (.bind (.write _) (.bind huv.write (.write _))) (fun _ => ?_) rfl) _
    simp only [String.append_assoc]
  unfold callSample
  split
  · rename_i texture uv
    cases h with
    | cons htexture hrest =>
      cases hrest with
      | cons huv hnone =>
        cases hnone
        dsimp only
        split
        · rename_i name ref element hexpr
          refine .of_eq (.bind (.pure _) (hread _ _ huv)) (fun _ => ?_) rfl
          rw [htexture.expr] at hexpr
          simp only [sampleText, hexpr, String.empty_append]
        · rename_i name index helement hother
          obtain ⟨i, hi, hindex⟩ := htexture.element name index helement
          rw [htexture.expr] at hother
          refine .of_eq (.bind (prints_unnoted hindex.captured true) (.bind (.pure _)
            (hread _ _ huv))) (fun _ => ?_) rfl
          rw [sampleText_element hother hi]
          simp only [String.empty_append]
        · exact .throw_bind _ _
  · exact .throw _

/-! ### Expressions and statements -/

lemma follows_exprDialect (paint : Paint) :
    (exprDialect paint).Follows (setting c) (phrasing paint) where
  types := rfl
  qualifiers := rfl
  names := rfl
  table := rfl
  call callee args phrases h := by
    show Prints (setting c) (call paint callee args) () (fun _ => callText paint callee phrases) _
    unfold call callText
    split
    · exact prints_unnoted (prints_callSample h) _
    · split
      · refine prints_unnoted (.of_eq (.bind (.write _) (.bind (.separated ", "
          (prints_paintArgs h _)) (.write _))) (fun _ => ?_) rfl) _
        simp [Function.comp_def, String.append_assoc]
      · exact prints_unnoted (ExprDialect.prints_callMapped _ _ h) _

lemma follows_stmtDialect (paint : Paint) {f : String} (hf : c.function = some f) :
    (stmtDialect paint).Follows (setting c) (phrasing paint) where
  toFollows := follows_exprDialect paint
  declare v := by
    have hd : (exprDialect paint).Follows (setting c) (phrasing paint) := follows_exprDialect paint
    show Prints (setting c) (declare (exprDialect paint) v) () _ _
    unfold declare VarDecl.localText
    cases v.var.qualifier with
    | const => exact hd.defineConstant v
    | param =>
      refine .get fun w hw => ?_
      rw [hw.calm.function, show (setting c).scope.function = some f from hf]
      exact .throw _
    | _ =>
      refine .get fun w hw => ?_
      rw [hw.calm.function, show (setting c).scope.function = some f from hf]
      exact hd.varDecl v
  discard := rfl

/-! ### Functions -/

def paramText (v : VarDecl) : String :=
  (if v.var.out then qualifiers.get "out" ++ " " else "") ++
    (types.get v.var.type.name ++ " " ++ variableNames.get v.var.name ++ v.var.extent)

def signature (f : FuncDef) : String :=
  types.get f.returns.name ++ " " ++ functions.get f.name ++ "(" ++
    Text.joinWith ", " (f.params.map paramText) ++ ")"

def resultName (f : FuncDef) : String := variableNames.get f.accumulator

/-- A function as a whole; the one named `main` is the entry point. -/
def functionText (paint : Paint) (f : FuncDef) : String :=
  if f.name = entryPointName then
    f.entryText (phrasing paint) entrySignature
      ("float4 " ++ resultName f ++ " = float4(0.0, 0.0, 0.0, 0.0);") (resultName f)
  else f.text (phrasing paint) (signature f)

/-- A function whose accumulator may lack a name, so that a bare return hands nothing back. -/
def definedText (paint : Paint) (f : FuncDef) : String :=
  if f.name = entryPointName then
    f.framedText (phrasing paint) entrySignature
      ("float4 " ++ resultName f ++ " = float4(0.0, 0.0, 0.0, 0.0);")
      (if f.accumulator = "" then none else some (resultName f))
      ("return " ++ resultName f ++ ";")
  else f.text (phrasing paint) (signature f)

lemma prints_paramText (paint : Paint) (v : VarDecl) :
    Prints (setting c) ((exprDialect paint).paramText v) (paramText v) (fun _ => "") false := by
  have hd : (exprDialect paint).Follows (setting c) (phrasing paint) := follows_exprDialect paint
  unfold ExprDialect.paramText paramText
  cases v.var.out with
  | true =>
    exact .of_eq (.bind (hd.typeName _) (.bind (hd.variableName _) (.bind (hd.qualifier _)
      (.pure _)))) (fun _ => rfl) rfl
  | false =>
    simp only [Bool.false_eq_true, if_false, String.empty_append]
    exact .of_eq (.bind (hd.typeName _) (.bind (hd.variableName _) (.pure _))) (fun _ => rfl) rfl

/-- Outside all blocks a function is written as it is rendered. -/
lemma out_define_framed {paint : Paint} {f : FuncDef} {w v : Writer State}
    (hw : w.Calm ⟨some f.name, ""⟩) (hdepth : w.depth = 0)
    (h : (define (stmtDialect paint) f).exec w = (.ok (), v)) :
    v.out = w.out ++ definedText paint f := by
  have hd : ∀ acc, (stmtDialect paint).Follows (setting ⟨some f.name, acc⟩) (phrasing paint) :=
    fun acc => follows_stmtDialect paint rfl
  have hholds : (setting ⟨some f.name, ""⟩).Holds w := ⟨hw, rfl⟩
  unfold define at h
  unfold definedText
  split at h
  · rename_i hname
    rw [if_neg hname]
    have hparams : Prints (setting ⟨some f.name, ""⟩)
        (f.params.mapM (exprDialect paint).paramText) (f.params.map paramText) (fun _ => "")
        false :=
      .mapM fun p _ => prints_paramText paint p
    exact ((hd "").funcWithSignature rfl _ f hholds hdepth
      (hparams.exec_bind_of_value hholds (((hd "").typeName _).exec_bind_of_value hholds h))).1
  · rename_i hname
    rw [if_pos (not_not.mp hname)]
    split at h
    · simp at h
    · exact ((hd "").entryPoint rfl rfl (hd _) entrySignature f hholds hdepth
        (((hd "").variableName _).exec_bind_of_value hholds h)).1

/-- If the accumulator has a name, a bare return hands it back. -/
lemma out_define {paint : Paint} {f : FuncDef} {w v : Writer State}
    (hw : w.Calm ⟨some f.name, ""⟩) (hdepth : w.depth = 0) (hne : f.accumulator ≠ "")
    (h : (define (stmtDialect paint) f).exec w = (.ok (), v)) :
    v.out = w.out ++ functionText paint f := by
  have hout := out_define_framed hw hdepth h
  rwa [definedText, if_neg hne] at hout

end Shaderwright.Hlsl
