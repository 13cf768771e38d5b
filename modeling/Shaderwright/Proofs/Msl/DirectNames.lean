import Mathlib.Tactic.Common
import Shaderwright.Proofs.Msl.Mirror
import Shaderwright.Proofs.Msl.Plain

/-!
Expressions and variables under the final names. The helpers of a plain shader can be given their
new names by the table of functions; then every expression is written as the renaming would have it.
-/

namespace Shaderwright.Msl

/-- The table that names the helpers as they are called in the end. -/
def directNames (shader : String) (helpers : List String) : NameTable :=
  { functions with
    entries := helpers.map (fun n => (n, prefixed shader n)) ++ functions.entries }

lemma directNames_get (shader : String) (helpers : List String) (name : String) :
    (directNames shader helpers).get name =
      if name ∈ helpers then prefixed shader name else functions.get name := by
  have hlookup : (directNames shader helpers).entries.lookup name =
      if name ∈ helpers then some (prefixed shader name) else functions.entries.lookup name := by
    show ((helpers.map _) ++ functions.entries).lookup name = _
    induction helpers with
    | nil => simp
    | cons n helpers ih =>
      rw [List.map_cons, List.cons_append, List.lookup_cons]
      by_cases h : name = n
      · simp [h]
      · simp [h, beq_eq_false_iff_ne.mpr h, ih]
  unfold NameTable.get NameTable.get?
  rw [hlookup]
  by_cases h : name ∈ helpers
  · simp [h]
  · simp only [if_neg h]
    rfl

namespace Rewording

variable {ρ : Rewording}

lemma fixes_plainName {name : String} (h : plainName ρ.old name = true) : ρ.Fixes name := by
  simp only [plainName, Bool.and_eq_true, Bool.not_eq_true', List.contains_eq_mem,
    decide_eq_false_iff_not] at h
  exact fixes_word (isWord_of_isIdentifier h.1).word h.2

lemma fixes_plainText {t : String} (h : plainText ρ.old t = true) : ρ.Fixes t := by
  refine fixes_of_exposed fun word hword => ?_
  simpa using List.all_eq_true.mp h word hword

lemma fixes_get {t : NameTable} (ht : ∀ e ∈ t.entries, ρ.Fixes e.2) {key : String}
    (hkey : ρ.Fixes key) : ρ.Fixes (t.get key) := by
  rcases t.get_mem key with ⟨e, he, heq⟩ | heq | heq
  · exact heq ▸ ht e he
  · rwa [heq]
  · rw [heq]
    exact fixes_of_isPunctuation (by decide)

lemma startsApart_extent (v : Variable) : startsApart v.extent = true := by
  unfold Variable.extent
  split
  · simp only [startsApart, String.toList_append]
    rfl
  · decide

lemma fixes_extent (v : Variable) : ρ.Fixes v.extent := by
  refine fixes_of_chars fun c hc hword => ?_
  unfold Variable.extent at hc
  split at hc
  · simp only [String.toList_append, List.mem_append] at hc
    rcases hc with (hc | hc) | hc
    · obtain rfl : c = '[' := by simpa using hc
      revert hword
      decide
    · exact isDigit_of_mem_toString hc hword
    · obtain rfl : c = ']' := by simpa using hc
      revert hword
      decide
  · simp at hc

lemma startsApart_member (field : String) : startsApart ("." ++ field) = true := by
  simp only [startsApart, String.toList_append]
  rfl

lemma fixes_member {field : String} (h : isIdentifier field = true) : ρ.Fixes ("." ++ field) := by
  have hruns := runs_word (isWord_of_isIdentifier h).word
  have hdot : isWordChar '.' = false := by decide
  refine fixes_of_exposed fun word hword => ?_
  obtain rfl : word = [] := by simpa [exposed, runs, hruns, hdot] using hword
  exact ρ.nil_not_mem

end Rewording

namespace Renaming

/-- A renaming of helpers that are called like no word of the language. -/
structure Clear (ρ : Renaming) : Prop where
  spared : ∀ w ∈ backendWords ρ.shader, w ∉ ρ.helpers
  helpers : ∀ n ∈ ρ.helpers, isHelper n = true
  shader : isIdentifier ρ.shader = true

def names (ρ : Renaming) : NameTable := directNames ρ.shader ρ.helpers

variable {ρ : Renaming}

lemma Clear.fixes (hρ : ρ.Clear) {t : String} (h : t ∈ languageTexts) : ρ.Fixes t :=
  Rewording.fixes_of_words (fun w hw => hρ.spared w (List.mem_append_left _ hw))
    (isLanguageText_of_mem h)

lemma Clear.fixes_entry (hρ : ρ.Clear) {e : String × String} (h : e ∈ types.entries ++
    qualifiers.entries ++ functions.entries ++ (inputTable inputName).entries) : ρ.Fixes e.2 :=
  hρ.fixes (List.mem_append_right _ (List.mem_map_of_mem h))

/-- A function is renamed as the table says. -/
lemma Clear.text_functions_get (hρ : ρ.Clear) {name : String} (hname : isIdentifier name = true) :
    ρ.Renames (functions.get name) (ρ.names.get name) := by
  rw [names, directNames_get]
  by_cases hhelper : isHelper name = true
  · rw [functions_get_of_isHelper hhelper, Rewording.Renames,
      ρ.text_word (isWord_of_isIdentifier hname).word, ρ.new_eq]
  · have hmem : name ∉ ρ.helpers := fun h => hhelper (hρ.helpers name h)
    rw [if_neg hmem]
    refine Rewording.fixes_get (fun e he => hρ.fixes_entry (by simp [he])) ?_
    exact Rewording.fixes_word (isWord_of_isIdentifier hname).word hmem

end Renaming

/-! ### Expressions -/

namespace Mirrors

variable {ρ : Renaming} {before after : Bool}

lemma mapped {t : NameTable} (hmiss : t.miss = .absent) (ht : ∀ e ∈ t.entries, ρ.Fixes e.2)
    (key : String) :
    Mirrors ρ before before ρ.Kept (ExprDialect.mapped t key) (ExprDialect.mapped t key) := by
  unfold ExprDialect.mapped NameTable.get?
  rcases h : t.entries.lookup key with _ | value
  · simp only [hmiss]
    exact .throw _ _
  · exact .pure ⟨rfl, ht (key, value) (NameTable.mem_of_lookup h)⟩

lemma typeName (hρ : ρ.Clear) (t : ShaderType) :
    Mirrors ρ before before ρ.Kept ((exprDialect functions).typeName t)
      ((exprDialect ρ.names).typeName t) :=
  mapped rfl (fun e (he : e ∈ types.entries) => hρ.fixes_entry (by simp [he])) t.name

lemma qualifier (hρ : ρ.Clear) (key : String) :
    Mirrors ρ before before ρ.Kept ((exprDialect functions).qualifier key)
      ((exprDialect ρ.names).qualifier key) :=
  mapped rfl (fun e (he : e ∈ qualifiers.entries) => hρ.fixes_entry (by simp [he])) key

lemma variableName {name : String} (h : ρ.Fixes name) :
    Mirrors ρ before before ρ.Kept ((exprDialect functions).variableName name)
      ((exprDialect ρ.names).variableName name) :=
  .get fun _ hw => .pure ⟨rfl, Rewording.fixes_get hw.table h⟩

lemma operator {op : String} (h : isPunctuation op = true) :
    Mirrors ρ before after Eq (Emit.write (" " ++ op ++ " ")) (Emit.write (" " ++ op ++ " ")) := by
  refine mark ?_ (by simp)
  simp only [isPunctuation, String.toList_append, List.all_append, Bool.and_eq_true] at h ⊢
  exact ⟨⟨by decide, h⟩, by decide⟩

lemma callNamed {name name' : String} (hname : ρ.Renames name name') {args : List Expr}
    (hargs : ∀ e ∈ args, Mirrors ρ true false Eq ((exprDialect functions).expr e)
      ((exprDialect ρ.names).expr e)) :
    Mirrors ρ true false Eq
      (ExprDialect.callNamed name (args.map (exprDialect functions).operand))
      (ExprDialect.callNamed name' (args.map (exprDialect ρ.names).operand)) := by
  refine (opening (hname.closed (by decide)) (endsApart_append (by decide) (by simp))).seq
    (.seq (separated ?_) (mark (by decide) (by simp)))
  rw [List.map_map, List.map_map, List.forall₂_map_left_iff, List.forall₂_map_right_iff]
  exact List.forall₂_same.mpr hargs

lemma callHelper (hρ : ρ.Clear) {name name' : String} (hname : ρ.Renames name name')
    {args : List Expr}
    (hargs : ∀ e ∈ args, Mirrors ρ true false Eq ((exprDialect functions).expr e)
      ((exprDialect ρ.names).expr e)) :
    Mirrors ρ true false Eq
      (Msl.callHelper name (args.map (exprDialect functions).operand))
      (Msl.callHelper name' (args.map (exprDialect ρ.names).operand)) := by
  have hhandles : ρ.Fixes "(_sampler, _uniforms" := hρ.fixes (by simp [languageTexts])
  refine (word (hname.append_of_starts hhandles (by decide))).seq (.seq (.forM fun e he => ?_)
    (mark (by decide) (by simp)))
  exact (mark (by decide) (by simp)).seq (hargs e he)

lemma call (hρ : ρ.Clear) {callee : String} {args : List Expr}
    (hcallee : isIdentifier callee = true)
    (hargs : ∀ e ∈ args, Mirrors ρ true false Eq ((exprDialect functions).expr e)
      ((exprDialect ρ.names).expr e)) :
    Mirrors ρ true false Eq
      (Msl.call functions callee (args.map (exprDialect functions).operand))
      (Msl.call ρ.names callee (args.map (exprDialect ρ.names).operand)) := by
  have hname := hρ.text_functions_get hcallee
  unfold Msl.call
  split
  · exact .seq (.change (fun u hu => ⟨hu.table, hu.accumulator, hu.markName, hu.markInit⟩)
      (fun _ => rfl) fun _ => rfl) (callNamed hname hargs)
  · split
    · exact callHelper hρ hname hargs
    · unfold ExprDialect.callMapped
      simp only [List.length_map]
      split
      · exact callNamed (hρ.fixes (by simp [languageTexts])) hargs
      · exact callNamed hname hargs

/-- An expression is written under the new names wherever a name may stand. -/
lemma expr (hρ : ρ.Clear) {e : Expr} (he : plainExpr ρ.helpers e = true) :
    Mirrors ρ true false Eq ((exprDialect functions).expr e) ((exprDialect ρ.names).expr e) := by
  induction e using Expr.inductOn with
  | absent =>
    rw [ExprDialect.expr]
    exact .throw _ _
  | ident name ref =>
    rw [plainExpr] at he
    rw [ExprDialect.expr, ExprDialect.expr]
    have hname : Mirrors ρ true false Eq
        (do Emit.write (← (exprDialect functions).variableName name))
        (do Emit.write (← (exprDialect ρ.names).variableName name)) :=
      (variableName (Rewording.fixes_plainName he)).bind fun a a' ha => word ha.renames
    refine .get fun w _ => ?_
    dsimp only
    rw [ρ.writer_function]
    split
    · exact .bind (V := Eq) (.throw _ _) fun _ _ _ => hname
    · exact hname
  | literal text kind =>
    rw [plainExpr] at he
    rw [ExprDialect.expr, ExprDialect.expr]
    exact word (Rewording.fixes_plainText he)
  | call callee args ih =>
    simp only [plainExpr, Bool.and_eq_true, plainExprs_eq_true] at he
    rw [ExprDialect.expr, ExprDialect.expr, ExprDialect.operands_eq_map,
      ExprDialect.operands_eq_map]
    exact call hρ he.1 fun e hmem => ih e hmem (he.2 e hmem)
  | binary op x y hx hy =>
    simp only [plainExpr, Bool.and_eq_true] at he
    rw [ExprDialect.expr, ExprDialect.expr]
    exact (mark (by decide) (by simp)).seq ((hx he.1.2).seq ((operator he.1.1).seq
      ((hy he.2).seq (mark (by decide) (by simp)))))
  | unary op x hx =>
    simp only [plainExpr, Bool.and_eq_true] at he
    rw [ExprDialect.expr, ExprDialect.expr]
    exact (opening (Rewording.fixes_of_isPunctuation he.1) (endsApart_of_isPunctuation he.1)).seq
      (hx he.2)
  | assign op lhs rhs hl hr =>
    simp only [plainExpr, Bool.and_eq_true] at he
    rw [ExprDialect.expr, ExprDialect.expr]
    exact (hl he.1.2).seq ((operator he.1.1).seq (hr he.2))
  | member x field hx =>
    simp only [plainExpr, Bool.and_eq_true] at he
    rw [ExprDialect.expr, ExprDialect.expr]
    exact (hx he.2).seq (write (Rewording.fixes_member he.1)
      (.inr (Rewording.startsApart_member field)) (by simp))
  | index x i hx hi =>
    simp only [plainExpr, Bool.and_eq_true] at he
    rw [ExprDialect.expr, ExprDialect.expr]
    exact (hx he.1).seq ((mark (by decide) (by simp)).seq ((hi he.2).seq
      (mark (by decide) (by simp))))

lemma exprText (hρ : ρ.Clear) {e : Expr} (he : plainExpr ρ.helpers e = true) :
    Mirrors ρ before before ρ.Renames ((exprDialect functions).exprText e)
      ((exprDialect ρ.names).exprText e) :=
  (expr hρ he).captured

/-! ### Variables -/

lemma varDeclText (hρ : ρ.Clear) {v : VarDecl} (hv : plainVar ρ.helpers v = true) :
    Mirrors ρ before before ρ.Renames ((exprDialect functions).varDeclText v)
      ((exprDialect ρ.names).varDeclText v) := by
  simp only [plainVar, Bool.and_eq_true] at hv
  refine (typeName hρ _).bind fun type type' htype => (qualifier hρ _).bind fun q q' hq =>
    (variableName (Rewording.fixes_plainName hv.1)).bind fun name name' hname => ?_
  obtain ⟨rfl, htype⟩ := htype
  obtain ⟨rfl, hq⟩ := hq
  obtain ⟨rfl, hname⟩ := hname
  have hhead : ρ.Fixes ((if q' = "" then "" else q' ++ " ") ++ type' ++ " " ++ name' ++
      v.var.extent) := by
    refine .append_of_starts (.joined ?_ hname (by decide) (by simp)) (Rewording.fixes_extent _)
      (Rewording.startsApart_extent _)
    split
    · rwa [String.empty_append]
    · exact hq.joined htype (by decide) (by simp)
  dsimp only
  split
  · exact .pure hhead
  · exact (exprText hρ hv.2).bind fun value value' hvalue =>
      .pure (hhead.joined hvalue (by decide) (by simp))

lemma varDecl (hρ : ρ.Clear) {v : VarDecl} (hv : plainVar ρ.helpers v = true) :
    Mirrors ρ true true Eq ((exprDialect functions).varDecl v)
      ((exprDialect ρ.names).varDecl v) :=
  (varDeclText hρ hv).bind fun _ _ ht => writeLine (ht.closed (by decide))

lemma defineConstant (hρ : ρ.Clear) {v : VarDecl} (hv : plainVar ρ.helpers v = true) :
    Mirrors ρ true true Eq ((exprDialect functions).defineConstant v)
      ((exprDialect ρ.names).defineConstant v) := by
  simp only [plainVar, Bool.and_eq_true] at hv
  have hrest : Mirrors ρ true true Eq
      (do
        let define ← (exprDialect functions).qualifier v.var.qualifier.text
        let value ← (exprDialect functions).exprText v.init
        Emit.writeLine (define ++ " " ++ (← (exprDialect functions).variableName v.var.name) ++
          " (" ++ value ++ ")"))
      (do
        let define ← (exprDialect ρ.names).qualifier v.var.qualifier.text
        let value ← (exprDialect ρ.names).exprText v.init
        Emit.writeLine (define ++ " " ++ (← (exprDialect ρ.names).variableName v.var.name) ++
          " (" ++ value ++ ")")) := by
    refine (qualifier hρ _).bind fun q q' hq => (exprText hρ hv.2).bind fun value value' hvalue =>
      (variableName (Rewording.fixes_plainName hv.1)).bind fun name name' hname => writeLine ?_
    have hhead : ρ.Renames (q ++ " " ++ name) (q' ++ " " ++ name') :=
      hq.renames.joined hname.renames (by decide) (by simp)
    exact (hhead.joined hvalue (by decide) (by simp)).closed (by decide)
  unfold ExprDialect.defineConstant
  dsimp only
  split
  · exact .bind (V := Eq) (.throw _ _) fun _ _ _ => hrest
  · exact hrest

/-- A parameter is called by its field from then on, which is no helper. -/
lemma declareUniform (hρ : ρ.Clear) {v : Variable} (hv : plainName ρ.helpers v.name = true) :
    Mirrors ρ true true Eq (Msl.declareUniform (exprDialect functions) v)
      (Msl.declareUniform (exprDialect ρ.names) v) := by
  have hfield : ρ.Fixes ("_uniforms." ++ v.name) := by
    have hstruct : ρ.Fixes "_uniforms" := hρ.fixes (by simp [languageTexts])
    simp only [plainName, Bool.and_eq_true] at hv
    rw [show "_uniforms." = "_uniforms" ++ "." from rfl, String.append_assoc]
    exact hstruct.append_of_starts (Rewording.fixes_member hv.1) (Rewording.startsApart_member _)
  unfold Msl.declareUniform
  refine .get fun w _ => ?_
  rw [ρ.writer_uniforms]
  split
  · exact .pure rfl
  · refine (typeName hρ _).bind fun type type' htype => ?_
    obtain ⟨rfl, -⟩ := htype
    refine .change (fun u hu => ⟨fun e he => ?_, hu.accumulator, hu.markName, hu.markInit⟩)
      (fun _ => rfl) fun _ => rfl
    rcases List.mem_cons.mp he with rfl | he
    · exact hfield
    · exact hu.table e (List.mem_of_mem_filter he)

lemma declare (hρ : ρ.Clear) {v : VarDecl} (hv : plainVar ρ.helpers v = true) :
    Mirrors ρ true true Eq (Msl.declare (exprDialect functions) v)
      (Msl.declare (exprDialect ρ.names) v) := by
  have hname : plainName ρ.helpers v.var.name = true := by
    simp only [plainVar, Bool.and_eq_true] at hv
    exact hv.1
  have hglobal : Mirrors ρ true true Eq
      (do Emit.writeLine ("constant " ++ (← (exprDialect functions).varDeclText v) ++ ";"))
      (do Emit.writeLine ("constant " ++ (← (exprDialect ρ.names).varDeclText v) ++ ";")) := by
    have hconstant : ρ.Fixes "constant " := hρ.fixes (by simp [languageTexts])
    exact (varDeclText hρ hv).bind fun t t' ht =>
      writeLine ((hconstant.append_of_ends ht (by decide)).closed (by decide))
  unfold Msl.declare
  cases v.var.qualifier with
  | const => exact defineConstant hρ hv
  | param =>
    refine .get fun w _ => ?_
    rw [ρ.writer_function]
    split
    · exact .throw _ _
    · exact declareUniform hρ hname
  | _ =>
    refine .get fun w _ => ?_
    rw [ρ.writer_function]
    split
    · exact varDecl hρ hv
    · dsimp only
      split
      · exact .bind (V := Eq) (.throw _ _) fun _ _ _ => hglobal
      · exact hglobal

end Mirrors

end Shaderwright.Msl
