import Mathlib.Data.List.Forall2
import Mathlib.Tactic.Common
import Shaderwright.Hlsl.Dialect
import Shaderwright.Proofs.Emit.Appends
import Shaderwright.Proofs.Shader.TypeStability

/-!
Calls of the paint function. Every argument is written in its place, and narrowed to its parameter
exactly if it is known to have more components; narrowed once, it fits.
-/

namespace Shaderwright.Hlsl

/-! ### Narrowing -/

/-- Whether an argument is known to have more components than its parameter takes. -/
def exceeds (arg : Expr) (param : ShaderType) : Bool :=
  param.isNumeric && arg.type?.any fun t => t.isNumeric && param.arity < t.arity

def leading (n : Nat) : String := String.ofList (['x', 'y', 'z'].take n)

lemma exceeds_iff {arg : Expr} {param : ShaderType} :
    exceeds arg param = true ↔ param.isNumeric = true ∧
      ∃ t, arg.type? = some t ∧ t.isNumeric = true ∧ param.arity < t.arity := by
  simp [exceeds, Option.any_eq_true]

/-- No vector has more than four components, so a parameter that is exceeded has at most three. -/
lemma arity_of_exceeds {arg : Expr} {param : ShaderType} (h : exceeds arg param = true) :
    1 ≤ param.arity ∧ param.arity ≤ 3 := by
  obtain ⟨hparam, t, -, ht, hlt⟩ := exceeds_iff.mp h
  have hpos := (ShaderType.isNumeric_iff.mp hparam).2.1
  have hfour := (ShaderType.isNumeric_iff.mp ht).2.2
  omega

/-- An argument is narrowed to its leading components if it exceeds its parameter, and only then. -/
lemma truncation_eq (arg : Expr) (param : ShaderType) :
    truncation arg param = if exceeds arg param then "." ++ leading param.arity else "" := by
  cases h : exceeds arg param with
  | true =>
    obtain ⟨hlow, hhigh⟩ := arity_of_exceeds h
    obtain ⟨hparam, t, ht, hnum, hlt⟩ := exceeds_iff.mp h
    unfold truncation
    rw [if_neg (by simp [hparam]; omega), ht]
    dsimp only
    rw [if_neg (by simp [hnum]; omega), if_pos rfl]
    generalize param.arity = n at hlow hhigh
    obtain rfl | rfl | rfl : n = 1 ∨ n = 2 ∨ n = 3 := by omega
    all_goals rfl
  | false =>
    unfold truncation
    split
    · rfl
    · rename_i hguard
      split
      · rfl
      · rename_i t ht
        rw [if_pos, if_neg Bool.false_ne_true]
        have hfits : t.isNumeric = true → t.arity ≤ param.arity := by simp_all [exceeds]
        cases hnum : t.isNumeric with
        | false => rfl
        | true => simpa using hfits hnum

/-- A swizzle of the leading components has just these. -/
lemma type?_leading {arg : Expr} {param : ShaderType} (h : exceeds arg param = true) :
    ∃ t, arg.type? = some t ∧
      (Expr.member arg (leading param.arity)).type? = some ⟨t.base, param.arity⟩ := by
  obtain ⟨hlow, hhigh⟩ := arity_of_exceeds h
  obtain ⟨-, t, ht, hnum, -⟩ := exceeds_iff.mp h
  have hall : ∀ n ∈ [1, 2, 3], isSwizzle (leading n) = true ∧ (leading n).length = n := by decide
  obtain ⟨hswizzle, hlength⟩ := hall param.arity (by simp; omega)
  exact ⟨t, ht, by rw [Expr.type?_member ht hnum hswizzle, hlength]⟩

lemma truncation_leading {arg : Expr} {param : ShaderType} (h : exceeds arg param = true) :
    truncation (.member arg (leading param.arity)) param = "" := by
  obtain ⟨t, -, htype⟩ := type?_leading h
  have hfits : exceeds (.member arg (leading param.arity)) param = false := by
    simp [exceeds, htype]
  rw [truncation_eq, hfits, if_neg Bool.false_ne_true]

/-! ### Writing calls -/

lemma appends_narrowed {o : Operand State} (ho : o.Appends Eq) (param : ShaderType) :
    Emit.Appends Eq (narrowed o param) := by
  unfold narrowed
  dsimp only
  split
  · exact .bind (.write _) fun _ => .bind ho.write fun _ => .bind (.write _) fun _ => .write _
  · exact .bind ho.write fun _ => .write _

lemma appends_paintArgs {args : List (Operand State)} (h : ∀ o ∈ args, o.Appends Eq)
    (params : List ShaderType) : ∀ step ∈ paintArgs args params, Emit.Appends Eq step := by
  induction args generalizing params with
  | nil => simp [paintArgs]
  | cons arg rest ih =>
    rw [List.forall_mem_cons] at h
    cases params with
    | nil => simpa [paintArgs] using ⟨h.1.write, ih h.2 []⟩
    | cons param params => simpa [paintArgs] using ⟨appends_narrowed h.1 param, ih h.2 params⟩

lemma appends_callSample {args : List (Operand State)} (h : ∀ o ∈ args, o.Appends Eq) :
    Emit.Appends Eq (callSample args) := by
  unfold callSample
  split
  · rename_i texture uv
    have huv : Emit.Appends Eq uv.write := (h uv (by simp)).write
    dsimp only
    split
    · exact .bind (.pure _) fun _ => .bind (.write _) fun _ => .bind huv fun _ => .write _
    · rename_i helement _
      have hindex := (h texture (by simp)).element _ _ helement
      exact .bind hindex.captured fun _ => .bind (.pure _) fun _ => .bind (.write _) fun _ =>
        .bind huv fun _ => .write _
    · exact .bind (.throw _) fun _ => .bind (.write _) fun _ => .bind huv fun _ => .write _
  · exact .throw _

lemma appends_exprDialect (paint : Paint) : (exprDialect paint).Appends Eq := by
  intro callee args h
  show Emit.Appends Eq (call paint callee args)
  unfold call
  split
  · exact appends_callSample h
  · split
    · exact .bind (.write _) fun _ => .bind (.separated ", " (appends_paintArgs h _)) fun _ =>
        .write _
    · exact ExprDialect.appends_callMapped _ _ h

/-! ### Arguments of the paint function -/

/-- An argument in its place, by its own text. -/
def narrowedTo (param : ShaderType) (arg : Expr) (text : String) : String :=
  if exceeds arg param then
    (if needsParentheses arg then "(" ++ text ++ ")" else text) ++ ("." ++ leading param.arity)
  else text

/-- The `i`-th argument of a call; those behind the last parameter stay as they are. -/
def paintedText (params : List ShaderType) (i : Nat) (arg : Expr) (text : String) : String :=
  match params[i]? with
  | some param => narrowedTo param arg text
  | none => text

open Emit (WritesAt)

lemma writesAt_narrowed {o : Operand State} (ho : o.Appends Eq) (param : ShaderType)
    {w : Writer State} {text : String} :
    WritesAt w (narrowed o param) text ↔
      ∃ t, WritesAt w o.write t ∧ text = narrowedTo param o.expr t := by
  have hbehind : ∀ swizzle : String, WritesAt w (do o.write; Emit.write swizzle) text ↔
      ∃ t, WritesAt w o.write t ∧ text = t ++ swizzle := by
    intro swizzle
    simp [Emit.writesAt_seq ho.write (.write swizzle), Emit.writesAt_write]
  have hinside : ∀ swizzle : String,
      WritesAt w (do Emit.write "("; o.write; Emit.write ")"; Emit.write swizzle) text ↔
        ∃ t, WritesAt w o.write t ∧ text = "(" ++ t ++ ")" ++ swizzle := by
    intro swizzle
    have hclose : Emit.Appends Eq (do Emit.write ")"; Emit.write swizzle : Emit State Unit) :=
      .bind (.write _) fun _ => .write _
    simp [Emit.writesAt_seq (.write _) (.bind ho.write fun _ => hclose),
      Emit.writesAt_seq ho.write hclose, Emit.writesAt_seq (.write _) (.write _),
      Emit.writesAt_write, String.append_assoc]
  unfold narrowed narrowedTo
  rw [truncation_eq]
  cases exceeds o.expr param with
  | false => simp [hbehind]
  | true =>
    cases needsParentheses o.expr with
    | false => simp [hbehind]
    | true => simp [hinside, String.append_assoc]

/-- The arguments are written in their order, each as it would be on its own but for its place. -/
lemma forall₂_paintArgs_iff {d : ExprDialect State} (hd : d.Appends Eq) (args : List Expr)
    (params : List ShaderType) {w : Writer State} {texts : List String} :
    List.Forall₂ (WritesAt w) (paintArgs (args.map d.operand) params) texts ↔
      ∃ ts, List.Forall₂ (fun arg => WritesAt w (d.expr arg)) args ts ∧
        texts = (args.zip ts).mapIdx fun i p => paintedText params i p.1 p.2 := by
  induction args generalizing params texts with
  | nil => simp [paintArgs]
  | cons arg args ih =>
    -- the parameters that are left are one less, if there are any
    have hcons : ∀ {m : Emit State Unit} {rest : List ShaderType},
        (∀ text, WritesAt w m text ↔
          ∃ t, WritesAt w (d.expr arg) t ∧ text = paintedText params 0 arg t) →
        (∀ i, paintedText params (i + 1) = paintedText rest i) →
        (List.Forall₂ (WritesAt w) (m :: paintArgs (args.map d.operand) rest) texts ↔
          ∃ ts, List.Forall₂ (fun arg => WritesAt w (d.expr arg)) (arg :: args) ts ∧
            texts = ((arg :: args).zip ts).mapIdx fun i p => paintedText params i p.1 p.2) := by
      intro m rest hfirst hnext
      constructor
      · intro h
        cases h with | cons hm hrest =>
        obtain ⟨t, ht, rfl⟩ := (hfirst _).mp hm
        obtain ⟨ts, hts, rfl⟩ := (ih rest).mp hrest
        exact ⟨t :: ts, .cons ht hts, by simp [List.mapIdx_cons, hnext]⟩
      · rintro ⟨ts, hts, rfl⟩
        cases hts with | cons ht hts =>
        rw [List.zip_cons_cons, List.mapIdx_cons]
        simp only [hnext]
        exact .cons ((hfirst _).mpr ⟨_, ht, rfl⟩) ((ih rest).mpr ⟨_, hts, rfl⟩)
    cases params with
    | nil => exact hcons (fun text => by simp [paintedText, ExprDialect.operand]) fun _ => rfl
    | cons param params =>
      exact hcons (fun text => writesAt_narrowed (hd.operand arg) param) fun _ => rfl

lemma writesAt_paint {paint : Paint} (hpaint : paint.function ≠ sampleFunction) (args : List Expr)
    {w : Writer State} {text : String} :
    WritesAt w ((exprDialect paint).expr (.call paint.function args)) text ↔
      ∃ ts, List.Forall₂ (fun arg => WritesAt w ((exprDialect paint).expr arg)) args ts ∧
        text = functions.get paint.function ++ "(" ++ Text.joinWith ", "
          ((args.zip ts).mapIdx fun i p => paintedText paint.params i p.1 p.2) ++ ")" := by
  have hd := appends_exprDialect paint
  have hcall : (exprDialect paint).expr (.call paint.function args) = (do
      Emit.write (functions.get paint.function ++ "(")
      Emit.separated ", " (paintArgs (args.map (exprDialect paint).operand) paint.params)
      Emit.write ")") := by
    rw [ExprDialect.expr, ExprDialect.operands_eq_map]
    simp [exprDialect, call, hpaint]
  have hsteps : ∀ m ∈ paintArgs (args.map (exprDialect paint).operand) paint.params,
      Emit.Appends Eq m :=
    appends_paintArgs (by simpa using fun arg _ => hd.operand arg) _
  have hargs := Emit.Appends.separated ", " hsteps
  rw [hcall, Emit.writesAt_seq (.write _) (.bind hargs fun _ => .write _)]
  simp only [Emit.writesAt_seq hargs (.write _), Emit.writesAt_write,
    Emit.writesAt_separated ", " hsteps, forall₂_paintArgs_iff hd]
  constructor
  · rintro ⟨_, _, rfl, ⟨_, _, ⟨_, ⟨ts, hts, rfl⟩, rfl⟩, rfl, rfl⟩, rfl⟩
    exact ⟨ts, hts, by simp only [String.append_assoc]⟩
  · rintro ⟨ts, hts, rfl⟩
    exact ⟨_, _, rfl, ⟨_, _, ⟨_, ⟨ts, hts, rfl⟩, rfl⟩, rfl, rfl⟩,
      by simp only [String.append_assoc]⟩

/-- A call of the paint function succeeds if all its arguments do, and shows them in their order.
The `i`-th one is narrowed if it exceeds the `i`-th parameter, and otherwise written as anywhere
else. Where it is narrowed, to one, two or three components, it has as many as the parameter behind
it and needs no further narrowing. -/
theorem paint_args_narrowed (paint : Paint) (hpaint : paint.function ≠ sampleFunction) :
    (∀ args w v, ((exprDialect paint).expr (.call paint.function args)).exec w = (.ok (), v) ↔
      ∃ texts, List.Forall₂ (fun arg t => ((exprDialect paint).expr arg).exec w =
          (.ok (), { w with out := w.out ++ t })) args texts ∧
        v = { w with
          out := w.out ++ (functions.get paint.function ++ "(" ++ Text.joinWith ", "
            ((args.zip texts).mapIdx fun i p => paintedText paint.params i p.1 p.2) ++ ")") }) ∧
      ∀ arg param, exceeds arg param = true → 1 ≤ param.arity ∧ param.arity ≤ 3 ∧
        (∃ t, arg.type? = some t ∧
          (Expr.member arg (leading param.arity)).type? = some ⟨t.base, param.arity⟩) ∧
        truncation (.member arg (leading param.arity)) param = "" := by
  refine ⟨fun args w v => ?_, fun arg param h => ⟨(arity_of_exceeds h).1, (arity_of_exceeds h).2,
    type?_leading h, truncation_leading h⟩⟩
  have hexec := ((appends_exprDialect paint).expr (.call paint.function args)).exec_eq_ok
    (w := w) (v := v) w.out
  simp only [writesAt_paint hpaint] at hexec
  constructor
  · intro h
    obtain ⟨_, ⟨ts, hts, rfl⟩, rfl⟩ := hexec.mp h
    exact ⟨ts, hts, rfl⟩
  · rintro ⟨ts, hts, rfl⟩
    exact hexec.mpr ⟨_, ⟨ts, hts, rfl⟩, rfl⟩

/-- Two parameters, three arguments: a negated vector, one that fits and one that is left over. -/
theorem paint_args_narrowed_wash :
    let paint : Paint := ⟨"paint", [⟨.float, 3⟩, .vec2]⟩
    let tint : Expr := .unary "-" (.ident "tint" (.declared { name := "tint", type := .vec4 }))
    let uv : Expr := .member tint "xy"
    ((exprDialect paint).expr (.call "paint" [tint, uv, tint])).exec { own := [] } =
        (.ok (), { own := [], out := "paint((-tint).xyz, -tint.xy, -tint)" }) ∧
      exceeds tint ⟨.float, 3⟩ = true ∧
      truncation (.member tint (leading 3)) ⟨.float, 3⟩ = "" := by
  intro paint tint uv
  obtain ⟨hcall, hnarrow⟩ := paint_args_narrowed paint (by decide)
  exact ⟨(hcall _ _ _).mpr ⟨["-tint", "-tint.xy", "-tint"],
    .cons rfl (.cons rfl (.cons rfl .nil)), rfl⟩, rfl, (hnarrow tint ⟨.float, 3⟩ rfl).2.2.2⟩

end Shaderwright.Hlsl
