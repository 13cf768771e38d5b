import Mathlib.Tactic.Common
import Shaderwright.Proofs.Msl.Acceptance
import Shaderwright.Proofs.Msl.Compile
import Shaderwright.Proofs.Msl.DirectNames

/-!
Renaming the finished text is the same as writing the final names in the first place, over all
statements and functions of a plain shader. No text is searched then.
-/

namespace Shaderwright.Msl

namespace Mirrors

variable {ρ : Renaming} {before after : Bool}

/-! ### Statements -/

/-- A block, with the accumulator around it if it is the body of the entry point. -/
lemma compound (hρ : ρ.Clear) {body body' : Emit State Unit}
    (hbody : Mirrors ρ true true Eq body body') :
    Mirrors ρ before after Eq ((exprDialect functions).compound body)
      ((exprDialect ρ.names).compound body') := by
  have hreturn : ρ.Fixes "return " := hρ.fixes (by simp [languageTexts])
  have hempty : ρ.Fixes "" := Rewording.fixes_of_isPunctuation (by decide)
  unfold ExprDialect.compound
  refine .get fun w hw => .seq (.change (fun u hu => ⟨hu.table, hu.accumulator, hu.markName,
    hu.markInit⟩) (fun _ => rfl) fun _ => rfl) ?_
  rw [ρ.writer_entry]
  split
  · rw [ExprDialect.entryBody_eq, ExprDialect.entryBody_eq]
    refine .braces (.seq (.writeLine hw.markInit) (.seq (?_ : Mirrors ρ true true Eq _ _) ?_))
    · refine .seq (.change (fun u hu => ⟨hu.table, hw.markName, hu.markName, hu.markInit⟩)
        (fun _ => rfl) fun _ => rfl) ?_
      exact hbody.andThen (fun u hu => ⟨hu.table, hempty, hu.markName, hu.markInit⟩)
        (fun _ => rfl) fun _ => rfl
    · exact (variableName hw.markName).bind fun acc acc' hacc =>
        .writeLine ((hreturn.append_of_ends hacc.renames (by decide)).closed (by decide))
  · exact hbody.braces

lemma loopStart (hρ : ρ.Clear) {s : Stmt} (hs : plainStmt ρ.helpers s = true) :
    Mirrors ρ true false Eq ((stmtDialect functions).loopStart s)
      ((stmtDialect ρ.names).loopStart s) := by
  cases s with
  | absent => exact (Mirrors.pure rfl : Mirrors ρ true true Eq _ _).weaken (by simp)
  | decl v =>
    rw [plainStmt] at hs
    exact (varDeclText hρ hs).bind fun t t' ht => word ht
  | expr x =>
    rw [plainStmt] at hs
    exact expr hρ hs
  | _ => exact .throw _ _

lemma optional (hρ : ρ.Clear) {e : Expr} (he : plainExpr ρ.helpers e = true) :
    Mirrors ρ true false Eq ((stmtDialect functions).optional e)
      ((stmtDialect ρ.names).optional e) := by
  unfold StmtDialect.optional
  split
  · exact (Mirrors.pure rfl : Mirrors ρ true true Eq _ _).weaken (by simp)
  · exact expr hρ he

lemma stmts {ss : List Stmt} (h : ∀ s ∈ ss, Mirrors ρ true true Eq
      ((stmtDialect functions).stmt s) ((stmtDialect ρ.names).stmt s)) :
    Mirrors ρ true true Eq ((stmtDialect functions).stmts ss) ((stmtDialect ρ.names).stmts ss) := by
  induction ss with
  | nil =>
    rw [StmtDialect.stmts, StmtDialect.stmts]
    exact .pure rfl
  | cons s ss ih =>
    rw [StmtDialect.stmts, StmtDialect.stmts]
    exact (h s List.mem_cons_self).seq (ih fun s' hs' => h s' (List.mem_cons_of_mem _ hs'))

/-- A statement is written under the new names, and also where it is a branch. -/
lemma stmt_branch (hρ : ρ.Clear) {s : Stmt} (hs : plainStmt ρ.helpers s = true) :
    Mirrors ρ true true Eq ((stmtDialect functions).stmt s) ((stmtDialect ρ.names).stmt s) ∧
      Mirrors ρ true true Eq ((stmtDialect functions).branch s)
        ((stmtDialect ρ.names).branch s) := by
  -- a branch that is no block is the statement in braces
  have hsingle : ∀ {s : Stmt}, (∀ names, (stmtDialect names).branch s =
      Emit.braces ((stmtDialect names).stmt s)) →
      Mirrors ρ true true Eq ((stmtDialect functions).stmt s) ((stmtDialect ρ.names).stmt s) →
      Mirrors ρ true true Eq ((stmtDialect functions).stmt s) ((stmtDialect ρ.names).stmt s) ∧
        Mirrors ρ true true Eq ((stmtDialect functions).branch s)
          ((stmtDialect ρ.names).branch s) := by
    intro s hbranch hs
    rw [hbranch, hbranch]
    exact ⟨hs, hs.braces⟩
  have hreturn : ρ.Fixes "return " := hρ.fixes (by simp [languageTexts])
  induction s using Stmt.inductOn with
  | absent =>
    refine hsingle (fun _ => rfl) ?_
    rw [StmtDialect.stmt]
    exact .throw _ _
  | block ss ih =>
    rw [plainStmt, plainStmts_eq_true] at hs
    have hss : ∀ {before after : Bool}, Mirrors ρ before after Eq
        ((exprDialect functions).compound ((stmtDialect functions).stmts ss))
        ((exprDialect ρ.names).compound ((stmtDialect ρ.names).stmts ss)) :=
      compound hρ (stmts fun s hmem => (ih s hmem (hs s hmem)).1)
    constructor
    · rw [StmtDialect.stmt, StmtDialect.stmt]
      exact writeIndent.seq (.seq (hss : Mirrors ρ true true Eq _ _) (mark (by decide) (by simp)))
    · rw [StmtDialect.branch, StmtDialect.branch, StmtDialect.contents, StmtDialect.contents]
      exact hss
  | decl v =>
    rw [plainStmt] at hs
    refine hsingle (fun _ => rfl) ?_
    rw [StmtDialect.stmt, StmtDialect.stmt]
    exact declare hρ hs
  | expr x =>
    rw [plainStmt] at hs
    refine hsingle (fun _ => rfl) ?_
    rw [StmtDialect.stmt, StmtDialect.stmt]
    exact writeIndent.seq ((expr hρ hs).seq (mark (by decide) (by simp)))
  | returns value =>
    rw [plainStmt] at hs
    refine hsingle (fun _ => rfl) ?_
    rw [StmtDialect.stmt, StmtDialect.stmt]
    refine writeIndent.seq ?_
    split
    · refine .get fun w hw => ?_
      rw [ρ.writer_accumulator]
      dsimp only
      split
      · exact opening (hρ.fixes (by simp [languageTexts])) (by decide)
      · refine (variableName hw.accumulator).bind fun acc acc' hacc => opening
          ((hreturn.append_of_ends hacc.renames (by decide)).closed (by decide))
          (endsApart_append (by decide) (by simp))
    · exact (opening hreturn (by decide)).seq ((expr hρ hs).seq (mark (by decide) (by simp)))
  | ifElse cond yes no hyes hno =>
    simp only [plainStmt, Bool.and_eq_true] at hs
    have helse : Mirrors ρ true true Eq
        (do
          unless no.isAbsent do
            Emit.write " else "
            (stmtDialect functions).branch no
          Emit.write "\n")
        (do
          unless no.isAbsent do
            Emit.write " else "
            (stmtDialect ρ.names).branch no
          Emit.write "\n") := by
      dsimp only
      split
      · exact mark (by decide) (by simp)
      · exact (opening (hρ.fixes (by simp [languageTexts])) (by decide)).seq
          ((hno hs.2).2.seq (mark (by decide) (by simp)))
    refine hsingle (fun _ => rfl) ?_
    rw [StmtDialect.stmt, StmtDialect.stmt]
    exact writeIndent.seq ((opening (hρ.fixes (by simp [languageTexts])) (by decide)).seq
      ((expr hρ hs.1.1).seq ((mark (by decide) (by simp)).seq ((hyes hs.1.2).2.seq helse))))
  | loop init cond post body hinit hbody =>
    simp only [plainStmt, Bool.and_eq_true] at hs
    refine hsingle (fun _ => rfl) ?_
    rw [StmtDialect.stmt, StmtDialect.stmt]
    exact writeIndent.seq ((opening (hρ.fixes (by simp [languageTexts])) (by decide)).seq
      ((loopStart hρ hs.1.1.1).seq ((mark (by decide) (by simp)).seq
      ((optional hρ hs.1.1.2).seq ((mark (by decide) (by simp)).seq
      ((optional hρ hs.1.2).seq ((mark (by decide) (by simp)).seq
      ((hbody hs.2).2.seq (mark (by decide) (by simp))))))))))
  | discard =>
    refine hsingle (fun _ => rfl) ?_
    rw [StmtDialect.stmt, StmtDialect.stmt]
    exact writeLine (hρ.fixes (by simp [languageTexts, stmtDialect]))
  | breakLoop =>
    refine hsingle (fun _ => rfl) ?_
    rw [StmtDialect.stmt, StmtDialect.stmt]
    exact writeLine (hρ.fixes (by simp [languageTexts]))
  | continueLoop =>
    refine hsingle (fun _ => rfl) ?_
    rw [StmtDialect.stmt, StmtDialect.stmt]
    exact writeLine (hρ.fixes (by simp [languageTexts]))

/-! ### Functions -/

lemma paramText (hρ : ρ.Clear) {p : VarDecl} (hp : plainVar ρ.helpers p = true) :
    Mirrors ρ before before ρ.Kept (Msl.paramText (exprDialect functions) p)
      (Msl.paramText (exprDialect ρ.names) p) := by
  simp only [plainVar, Bool.and_eq_true] at hp
  unfold Msl.paramText
  refine (typeName hρ _).bind fun type type' htype =>
    (variableName (Rewording.fixes_plainName hp.1)).bind fun name name' hname => ?_
  obtain ⟨rfl, htype⟩ := htype
  obtain ⟨rfl, hname⟩ := hname
  split
  · refine (qualifier hρ _).bind fun q q' hq => ?_
    obtain ⟨rfl, hq⟩ := hq
    exact .pure ⟨rfl, (hq.joined htype (by decide) (by simp)).joined hname (by decide) (by simp)⟩
  · exact .pure ⟨rfl, (htype.joined hname (by decide) (by simp)).append_of_starts
      (Rewording.fixes_extent _) (Rewording.startsApart_extent _)⟩

lemma funcWithSignature (hρ : ρ.Clear) {signature signature' : String}
    (hsignature : ρ.Renames signature signature') {f : FuncDef}
    (hbody : plainStmts ρ.helpers f.body = true) :
    Mirrors ρ true true Eq ((stmtDialect functions).funcWithSignature signature f)
      ((stmtDialect ρ.names).funcWithSignature signature' f) := by
  rw [plainStmts_eq_true] at hbody
  refine writeIndent.seq ((opening (hsignature.closed (by decide))
    (endsApart_append (by decide) (by simp))).seq
    (.seq (?_ : Mirrors ρ true true Eq _ _) (mark (by decide) (by simp))))
  exact compound hρ (stmts fun s hs => (stmt_branch hρ (hbody s hs)).1)

lemma fixes_prefixed (hρ : ρ.Clear) {name : String} (hname : isIdentifier name = true)
    (hmem : prefixed ρ.shader name ∈ backendWords ρ.shader) :
    ρ.Fixes (prefixed ρ.shader name) := by
  refine Rewording.fixes_word ?_ (hρ.spared _ hmem)
  exact isWordChar_prefixed (isWord_of_isIdentifier hρ.shader).word
    (isWord_of_isIdentifier hname).word

lemma fixes_uniformsName (hρ : ρ.Clear) : ρ.Fixes (uniformsName ρ.shader) :=
  fixes_prefixed hρ (by decide) (by simp [backendWords, uniformsName])

lemma defineEntry (hρ : ρ.Clear) {f : FuncDef} (hacc : plainName ρ.helpers f.accumulator = true)
    (hbody : plainStmts ρ.helpers f.body = true) :
    Mirrors ρ true true Eq (Msl.defineEntry (stmtDialect functions) ρ.shader f)
      (Msl.defineEntry (stmtDialect ρ.names) ρ.shader f) := by
  have hmain : ρ.Fixes (prefixed ρ.shader entryPointName) :=
    fixes_prefixed hρ (by decide) (by simp [backendWords])
  have hfloat : ρ.Fixes "float4 " := hρ.fixes (by simp [languageTexts])
  have hzero : ρ.Fixes " = float4(0.0);" := hρ.fixes (by simp [languageTexts])
  have hreturns : ρ.Fixes "fragment float4 " := hρ.fixes (by simp [languageTexts])
  have hinput : ρ.Fixes "(FragmentIn _in [[stage_in]], constant " :=
    hρ.fixes (by simp [languageTexts])
  have hhandles : ρ.Fixes "& _uniforms [[buffer(0)]], sampler _sampler [[sampler(0)]])" :=
    hρ.fixes (by simp [languageTexts])
  unfold Msl.defineEntry
  split
  · exact .throw _ _
  · refine (variableName (Rewording.fixes_plainName hacc)).bind fun acc acc' hacc => ?_
    obtain ⟨rfl, hacc⟩ := hacc
    have hinit := (hfloat.append_of_ends hacc (by decide)).append_of_starts hzero (by decide)
    refine .seq (.change (fun u hu => ⟨hu.table, hu.accumulator, hacc, hinit⟩)
      (fun _ => rfl) fun _ => rfl) (funcWithSignature hρ ?_ hbody)
    refine .append_of_starts (.append_of_ends (.append_of_starts
      (.append_of_ends hreturns hmain (by decide)) hinput (by decide)) (fixes_uniformsName hρ) ?_)
      hhandles (by decide)
    exact endsApart_append (by decide) (by simp)

lemma fixes_joinWith {ts : List String} (h : ∀ t ∈ ts, ρ.Fixes t) :
    ρ.Fixes (Text.joinWith ", " ts) :=
  Rewording.Renames.joinWith (by decide) (by simp) (List.forall₂_same.mpr h)

lemma define (hρ : ρ.Clear) {f : FuncDef} (hf : plainFunc ρ.helpers f = true)
    (hmem : isHelper f.name = true → f.name ∈ ρ.helpers) :
    Mirrors ρ true true Eq (Msl.define (stmtDialect functions) ρ.shader f)
      (Msl.define (stmtDialect ρ.names) ρ.shader f) := by
  simp only [plainFunc, Bool.and_eq_true, Bool.or_eq_true, bne_iff_ne, List.all_eq_true] at hf
  obtain ⟨⟨⟨hname, hparams⟩, hbody⟩, hacc⟩ := hf
  have hcallee := hρ.text_functions_get hname
  -- what comes behind the name, with or without the sampler and the uniforms
  have hrest : ∀ {type : String} {handles : List String}, ρ.Fixes type →
      (∀ t ∈ handles, ρ.Fixes t) → Mirrors ρ true true Eq
      (do
        let params ← f.params.mapM (Msl.paramText (exprDialect functions))
        (stmtDialect functions).funcWithSignature (type ++ " " ++ functions.get f.name ++ "(" ++
          Text.joinWith ", " (handles ++ params) ++ ")") f)
      (do
        let params ← f.params.mapM (Msl.paramText (exprDialect ρ.names))
        (stmtDialect ρ.names).funcWithSignature (type ++ " " ++ ρ.names.get f.name ++ "(" ++
          Text.joinWith ", " (handles ++ params) ++ ")") f) := by
    intro type handles htype hhandles
    refine (mapM fun p hp => paramText hρ (hparams p hp)).bind fun ts ts' hts => ?_
    obtain ⟨rfl, hts⟩ := hts
    have hall : ∀ t ∈ handles ++ ts', ρ.Fixes t := List.forall_mem_append.mpr ⟨hhandles, hts⟩
    refine funcWithSignature hρ ?_ hbody
    exact (((htype.joined hcallee (by decide) (by simp)).joined (fixes_joinWith hall) (by decide)
      (by simp)).closed (by decide))
  unfold Msl.define
  split
  · rename_i hmain
    exact defineEntry hρ (hacc.resolve_left fun h => h hmain) hbody
  · refine (typeName hρ _).bind fun type type' htype => ?_
    obtain ⟨rfl, htype⟩ := htype
    dsimp only
    split
    · rename_i hhelper
      have hnew : ρ.names.get f.name = prefixed ρ.shader (functions.get f.name) := by
        rw [Renaming.names, directNames_get, if_pos (hmem hhelper),
          functions_get_of_isHelper hhelper]
      refine .seq (.change (fun u hu => ⟨hu.table, hu.accumulator, hu.markName, hu.markInit⟩)
        (fun _ => rfl) fun u => ?_) (hrest htype ?_)
      · simp [Renaming.writer, withHelpers, ExprDialect.functionName, stmtDialect, exprDialect,
          hnew]
      · have hsampler : ρ.Fixes "sampler _sampler" := hρ.fixes (by simp [languageTexts])
        have hconstant : ρ.Fixes "constant " := hρ.fixes (by simp [languageTexts])
        have hreference : ρ.Fixes "& _uniforms" := hρ.fixes (by simp [languageTexts])
        have huniforms := (hconstant.append_of_ends (fixes_uniformsName hρ)
          (by decide)).append_of_starts hreference (by decide)
        simpa using ⟨hsampler, huniforms⟩
    · exact hrest htype (by simp)

/-! ### Declarations -/

lemma decl (hρ : ρ.Clear) {x : Decl} (hx : plainDecl ρ.helpers x = true)
    (hmem : ∀ n, helperOf? x = some n → n ∈ ρ.helpers) :
    Mirrors ρ true true Eq ((dialect functions ρ.shader).decl x)
      ((dialect ρ.names ρ.shader).decl x) := by
  cases x with
  | absent => exact .throw _ _
  | var v => exact declare hρ hx
  | func f =>
    have hdefine := define hρ hx fun h => hmem f.name (by simp [helperOf?, h])
    exact .seq (.change (fun _ hu => hu.elsewhere) (fun _ => rfl) fun _ => rfl)
      (hdefine.andThen (fun _ hu => hu.elsewhere) (fun _ => rfl) fun _ => rfl)

lemma decls (hρ : ρ.Clear) {xs : List Decl} (hxs : ∀ x ∈ xs, plainDecl ρ.helpers x = true)
    (hmem : ∀ n ∈ xs.filterMap helperOf?, n ∈ ρ.helpers) :
    Mirrors ρ true true Eq ((dialect functions ρ.shader).decls xs)
      ((dialect ρ.names ρ.shader).decls xs) := by
  induction xs with
  | nil => exact .pure rfl
  | cons x xs ih =>
    rw [List.forall_mem_cons] at hxs
    refine (decl hρ hxs.1 fun n hn => hmem n ?_).seq (ih hxs.2 fun n hn => hmem n ?_)
    · exact List.mem_filterMap.mpr ⟨x, List.mem_cons_self, hn⟩
    · obtain ⟨y, hy, hn⟩ := List.mem_filterMap.mp hn
      exact List.mem_filterMap.mpr ⟨y, List.mem_cons_of_mem _ hy, hn⟩

end Mirrors

/-! ### Whole shaders -/

/-- The text of a shader that is written under the final names, without any renaming. -/
def directText (common : String) (s : Shader) : Option String :=
  let d := dialect (directNames s.name (helperNames s)) s.name
  match (d.decls s.decls).exec { own := {} } with
  | (.error _, _) => none
  | (.ok (), w) => some (assemble s.name common w.own w.out)

lemma isIdentifier_of_helpersApart {s : Shader} (h : helpersApart s = true) {f : FuncDef}
    (hf : .func f ∈ s.decls) : isIdentifier f.name = true := by
  simp only [helpersApart, Bool.and_eq_true, List.all_eq_true] at h
  have hplain := h.1.2 (.func f) hf
  simp only [plainDecl, plainFunc, Bool.and_eq_true] at hplain
  exact hplain.1.1.1

/-- The renaming of a shader whose helpers are told apart. -/
def renamingOf (s : Shader) (h : helpersApart s = true) : Renaming :=
  .of s.name (helperNames s) fun n hn => by
    obtain ⟨f, hf, rfl, -⟩ := mem_helperNames.mp hn
    exact isIdentifier_of_helpersApart h hf

lemma clear_renamingOf {s : Shader} (h : helpersApart s = true) : (renamingOf s h).Clear where
  spared word hword hmem := by
    simp only [helpersApart, Bool.and_eq_true, List.all_eq_true] at h
    have hfree := h.2 word hmem
    simp only [List.contains_eq_mem, Bool.not_eq_true', decide_eq_false_iff_not] at hfree
    exact hfree hword
  helpers n hn := by
    obtain ⟨-, -, -, hhelper⟩ := mem_helperNames.mp hn
    exact hhelper
  shader := by
    simp only [helpersApart, Bool.and_eq_true] at h
    exact h.1.1

lemma settled_start {ρ : Renaming} (hρ : ρ.Clear) :
    ρ.Settled { own := {} } ∧ ρ.writer { own := {} } = { own := {} } := by
  have hempty : ρ.Fixes "" := Rewording.fixes_of_isPunctuation (by decide)
  have htable : ∀ e ∈ (inputTable inputName).entries, ρ.Fixes e.2 :=
    fun e he => hρ.fixes_entry (by simp [he])
  refine ⟨⟨htable, hempty, hempty, hempty⟩, ?_⟩
  simp only [Renaming.writer, show ρ.text "" = "" from hempty]
  rfl

/-- Where the helpers of a shader are told apart, writing their final names reaches the same writer
as writing the old ones does, up to the renaming. -/
lemma exec_directNames {s : Shader} (hs : helpersApart s = true) {v : Writer State}
    (hv : ((dialect functions s.name).decls s.decls).exec { own := {} } = (.ok (), v)) :
    ((dialect (directNames s.name (helperNames s)) s.name).decls s.decls).exec { own := {} } =
      (.ok (), (renamingOf s hs).writer v) := by
  have hρ := clear_renamingOf hs
  obtain ⟨hsettled, hstart⟩ := settled_start hρ
  have hplain : ∀ x ∈ s.decls, plainDecl (helperNames s) x = true := by
    simp only [helpersApart, Bool.and_eq_true, List.all_eq_true] at hs
    exact hs.1.2
  obtain ⟨-, -, _, -, hdirect⟩ := Mirrors.decls hρ hplain (fun _ hn => hn) _ _ _ hsettled
    (fun _ => (by decide : endsApart "" = true)) hv
  rwa [hstart] at hdirect

/-- What renaming makes of the text of such a shader. -/
lemma rename_of_helpersApart {s : Shader} (hs : helpersApart s = true) {v : Writer State}
    (hv : ((dialect functions s.name).decls s.decls).exec { own := {} } = (.ok (), v))
    {body : String} (hbody : rename s.name v.own.helpers v.own.samples v.out = some body) :
    body = String.ofList (if v.own.samples then
      routeSamples s.name ((renamingOf s hs).text v.out).toList
      else ((renamingOf s hs).text v.out).toList) := by
  rw [helpers_of_exec hv] at hbody
  obtain ⟨t, ht, rfl⟩ := Option.map_eq_some_iff.mp hbody
  obtain rfl := (renamingOf s hs).eq_text_of_renameHelpers ht
  rfl

/-- The text of a plain shader, whose helpers are renamed when it is finished, is the one that has
the final names from the start. -/
theorem text_eq_directText {o : Options} {library : Option Library} {s : Shader} {w : World}
    {out : Output} (h : (compile o library (some s) w).1.1 = .ok out)
    (hs : plainShader s = true) : directText (commonHeaderOf library) s = some out.text := by
  obtain ⟨happart, hreads⟩ := Bool.and_eq_true_iff.mp hs
  obtain ⟨text, own, ht, rfl⟩ := translate_of_compile h
  obtain ⟨-, v, body, hv, hbody, rfl, rfl⟩ := translate_eq_ok.mp ht
  have hsamples : v.own.samples = false := by
    obtain ⟨-, -, hsamples⟩ := exec_decls_written ⟨rfl, rfl, rfl⟩ rfl hv
    rw [hsamples]
    simpa using hreads
  have hrename := rename_of_helpersApart happart hv hbody
  rw [hsamples, if_neg Bool.false_ne_true, String.ofList_toList] at hrename
  rw [directText, exec_directNames happart hv, hrename]
  rfl

/-- A ripple over a texture coordinate. -/
def ripple : FuncDef where
  name := "ripple"
  returns := .float
  params := [{ var := { name := "p", type := .vec2 } }]
  body := [.returns (.call "sin" [.member (.ident "p" .unresolved) "x"])]

/-- A shader that calls a helper before its definition, and has a member of the same name. -/
def wave : Shader where
  name := "Wave"
  decls := [
    .var { var := { name := "height", type := .float, qualifier := .param } },
    .func {
      name := "main"
      returns := .void
      params := [{ var := { name := "color", type := .vec4, out := true } }]
      body := [.expr (.assign "=" (.ident "color" .unresolved)
        (.call "vec4" [
          .binary "*" (.unary "-" (.call "ripple" [.ident "texCoord" (.input .texCoord)]))
            (.member (.ident "height" .unresolved) "ripple"),
          .literal "1.0" .float]))] },
    .func ripple]

theorem text_of_wave :
    helperNames wave = ["ripple"] ∧ plainShader wave = true ∧
      ∃ out, (compile {} none (some wave) {}).1.1 = .ok out ∧
        directText defaultCommonHeader wave = some out.text := by
  have hplain : plainShader wave = true := by decide +kernel
  have hwritable : (wave.decls.all declWritable) = true := by decide +kernel
  have hwords : ∀ f, .func f ∈ wave.decls → IsWord f.name.toList := by
    intro f hf
    simp only [wave, List.mem_cons, reduceCtorEq, Decl.func.injEq, List.not_mem_nil, or_false,
      false_or] at hf
    rcases hf with rfl | rfl <;> exact isWord_of_isIdentifier (by decide)
  obtain ⟨result, ht⟩ := exists_translate (by decide) (List.all_eq_true.mp hwritable) hwords
    (by decide +kernel) (commonHeaderOf none)
  obtain ⟨out, hout⟩ := exists_compile {} {} (by rw [ht]; rfl)
  exact ⟨by decide, hplain, out, hout, text_eq_directText hout hplain⟩

end Shaderwright.Msl
