import Mathlib.Tactic.Common
import Shaderwright.Proofs.Emit.Woven
import Shaderwright.Proofs.Msl.DirectNames
import Shaderwright.Proofs.Msl.Rendering
import Shaderwright.Proofs.Msl.Template

/-!
The sizes of arrays in MSL. They stand in the uniform struct and in the declarations of a shader,
and there the renaming of the helpers and the detour of texture reads leave them alone. A parameter
of a function that hands a value out is a reference, in which no size has a place.
-/

namespace Shaderwright.Msl

/-! ### Final names, piece by piece -/

/-- In front of a character that is no parenthesis nothing is called. -/
lemma redirected_append_cons {callee replacement : List Char} {c : Char} (hc : c ≠ '(')
    (word : List Char) (words rest : List (Char × List Char)) :
    redirected callee replacement (words ++ (c, word) :: rest) =
      redirected callee replacement words ++ redirected callee replacement ((c, word) :: rest) := by
  induction words using redirected.induct callee with
  | case1 => rfl
  | case2 d next =>
    rw [List.cons_append, List.nil_append, redirected_cons, redirected]
    · simp
    · rintro ⟨-, -, next, behind, heq⟩
      exact hc (congrArg Prod.fst (List.cons.inj heq).1)
  | case3 d next e next' words hread ih =>
    rw [List.cons_append, List.cons_append, redirected, redirected, if_pos hread, if_pos hread, ih]
    simp only [List.cons_append, List.append_assoc]
  | case4 d next e next' words hread ih =>
    rw [List.cons_append] at ih
    rw [List.cons_append, List.cons_append, redirected, redirected, if_neg hread, if_neg hread, ih]
    simp only [List.cons_append, List.append_assoc]

/-- A separating character that is no parenthesis belongs to no texture read. -/
lemma routed_append_cons {detour : List Char} {c : Char} (hc : separates c = true)
    (hparen : c ≠ '(') (a b : List Char) :
    routed detour true (a ++ c :: b) = routed detour true a ++ c :: routed detour true b := by
  refine List.cons_injective (?_ : '\n' :: _ = '\n' :: _)
  rw [cons_routed_true, spaced_append_cons (not_word_of_separates hc),
    redirected_append_cons hparen, ← cons_routed_true, ← cons_routed hc, List.cons_append]

/-- Without a parenthesis in it, what comes behind a text does not make a name in it called. -/
lemma isSome_behind?_append {name text behind : List Char} (hparen : '(' ∉ behind) :
    (Text.behind? (name ++ ['(']) (text ++ behind)).isSome =
      (Text.behind? (name ++ ['(']) text).isSome := by
  rw [Bool.eq_iff_iff, Option.isSome_iff_exists, Option.isSome_iff_exists]
  simp only [Text.behind?_eq_some]
  constructor
  · rintro ⟨rest, hrest⟩
    rcases List.append_eq_append_iff.mp hrest with ⟨rest', hname, hbehind⟩ | ⟨rest', hname, -⟩
    · -- the parenthesis would stand in what comes behind
      rcases List.eq_nil_or_concat rest' with rfl | ⟨init, c, rfl⟩
      · exact ⟨[], by simpa using hname.symm⟩
      · rw [List.concat_eq_append, ← List.append_assoc] at hname
        obtain rfl : '(' = c := by simpa using (List.append_inj_right' hname rfl)
        exact absurd (by simp [hbehind]) hparen
    · exact ⟨rest', hname⟩
  · rintro ⟨rest, rfl⟩
    exact ⟨rest ++ behind, List.append_assoc ..⟩

lemma length_le_of_behind? {part text : List Char} (h : (Text.behind? part text).isSome = true) :
    part.length ≤ text.length := by
  obtain ⟨rest, hrest⟩ := Option.isSome_iff_exists.mp h
  rw [Text.behind?_eq_some.mp hrest, List.length_append]
  exact Nat.le_add_right ..

/-- Behind the last parenthesis nothing is read. -/
lemma replaceCalls_append {detour text : List Char} {t : String} (hparen : '(' ∉ t.toList)
    (free : Bool) (skip : Nat) (hskip : skip ≤ text.length) :
    replaceCalls (sampleFunction.toList ++ ['(']) detour free skip (text ++ t.toList) =
      replaceCalls (sampleFunction.toList ++ ['(']) detour free skip text ++ t.toList := by
  induction text generalizing free skip with
  | nil =>
    obtain rfl : skip = 0 := by simpa using hskip
    exact routed_text free (readless_of_not_mem hparen)
  | cons c text ih =>
    cases skip with
    | succ skip => exact ih false skip (by simpa using hskip)
    | zero =>
      have hcalled : ∀ a : List Char,
          (Text.behind? (sampleFunction.toList ++ ['(']) (a ++ t.toList)).isSome =
            (Text.behind? (sampleFunction.toList ++ ['(']) a).isSome :=
        fun a => isSome_behind?_append hparen
      have hfirst := hcalled (c :: text)
      rw [List.cons_append] at hfirst ⊢
      rw [replaceCalls, replaceCalls, hfirst, hcalled]
      split_ifs with hstart hsep
      · have hlength := length_le_of_behind? (Bool.and_eq_true_iff.mp hstart).2
        rw [ih false _ (by rw [List.length_cons] at hlength; omega), List.append_assoc]
      · have hlength := length_le_of_behind? (Bool.and_eq_true_iff.mp hsep).2
        rw [ih false _ hlength, List.cons_append, List.append_assoc]
      · rw [ih false 0 (Nat.zero_le _), List.cons_append]

/-- A text that ends apart still does if other calls are put in it that do. -/
lemma all_getLast?_replaceCalls {name replacement text : List Char} (free : Bool) (skip : Nat)
    (hreplacement : replacement.getLast?.all separates = true)
    (htext : text.getLast?.all separates = true) :
    (replaceCalls name replacement free skip text).getLast?.all separates = true := by
  have happend : ∀ {a b : List Char}, a.getLast?.all separates = true →
      b.getLast?.all separates = true → (a ++ b).getLast?.all separates = true := by
    intro a b ha hb
    rw [List.getLast?_append]
    cases hlast : b.getLast? with
    | none => simpa using ha
    | some c => simpa [hlast] using hb
  have htail : ∀ {c : Char} {text : List Char}, (c :: text).getLast?.all separates = true →
      text.getLast?.all separates = true := by
    rintro c (_ | ⟨d, text⟩) h
    · rfl
    · simpa using h
  fun_induction replaceCalls name replacement free skip text with
  | case1 => rfl
  | case2 _ skip c text ih => exact ih (htail htext)
  | case3 free c text hstart ih => exact happend hreplacement (ih (htail htext))
  | case4 free c text hstart hsep ih =>
    have hc : separates c = true := (Bool.and_eq_true_iff.mp hsep).1
    exact happend (a := [c]) (by simpa using hc) (happend hreplacement (ih (htail htext)))
  | case5 free c text hstart hsep ih =>
    cases text with
    | nil => simpa [replaceCalls] using htext
    | cons d text =>
      have hrest := ih (htail htext)
      obtain ⟨rest, hcons⟩ : ∃ rest,
          replaceCalls name replacement false 0 (d :: text) = d :: rest := by
        rw [replaceCalls]
        split_ifs <;> simp_all
      rw [hcons] at hrest ⊢
      simpa using hrest

def detoured (shader t : String) : String := String.ofList (routeSamples shader t.toList)

lemma detoured_eq (shader t : String) :
    detoured shader t =
      String.ofList (routed (shader ++ "_sample(_sampler, ").toList true t.toList) := by
  have hcall : "sample(".toList = sampleFunction.toList ++ ['('] := by decide
  rw [detoured, routeSamples, hcall]
  rfl

lemma piecewise_detoured (shader : String) {keeps : String → Bool}
    (hkeeps : ∀ t, keeps t = true → '(' ∉ t.toList) : Piecewise (detoured shader) keeps where
  split mark hmark a b := by
    obtain ⟨c, hmark, hc, hparen⟩ :
        ∃ c, mark.toList = [c] ∧ separates c = true ∧ c ≠ '(' := by
      simp only [List.mem_cons, List.not_mem_nil, or_false] at hmark
      rcases hmark with rfl | rfl | rfl
      · exact ⟨' ', rfl, by decide⟩
      · exact ⟨'[', rfl, by decide⟩
      · exact ⟨']', rfl, by decide⟩
    simp only [detoured_eq, String.toList_append, hmark, List.append_assoc, List.singleton_append]
    rw [routed_append_cons hc hparen]
    simp [← String.toList_inj, hmark]
  number n := by
    have hreadless : Readless (toString n) := readless_of_not_mem fun hmem => by
      rcases Text.mem_toString_int hmem with h | h <;> revert h <;> decide
    rw [detoured_eq, routed_text true hreadless, String.ofList_toList]
  type a t _ ht := by
    simp only [detoured_eq, String.toList_append, routed]
    rw [replaceCalls_append (hkeeps t ht) true 0 (Nat.zero_le _), String.ofList_append,
      String.ofList_toList]
  apart a ha := by
    have hdetour : endsApart (shader ++ "_sample(_sampler, ") = true :=
      endsApart_append (by decide) (by simp)
    rw [detoured_eq, endsApart, String.toList_ofList]
    exact all_getLast?_replaceCalls true 0 hdetour ha

/-- Whether a type is neither renamed with a helper nor part of a texture read. -/
def keepsType (helpers : List String) (type : String) : Bool :=
  plainText helpers type && !type.toList.contains '('

namespace Renaming

variable (ρ : Renaming)

/-- The declarations of a shader under their final names. -/
def final (samples : Bool) (t : String) : String :=
  if samples then detoured ρ.shader (ρ.text t) else ρ.text t

lemma rename_eq (samples : Bool) (t : String) : rename ρ.shader ρ.helpers samples t =
    if searchable ρ.helpers then some (ρ.final samples t) else none := by
  rw [rename, renameHelpers_eq_text, final, detoured]
  cases searchable ρ.helpers <;> cases samples <;> simp

lemma piecewise_text {keeps : String → Bool} (hkeeps : ∀ t, keeps t = true → ρ.Fixes t) :
    Piecewise ρ.text keeps where
  split mark hmark a b := by
    obtain ⟨hpunctuation, hne⟩ : isPunctuation mark = true ∧ mark ≠ "" := by
      simp only [List.mem_cons, List.not_mem_nil, or_false] at hmark
      rcases hmark with rfl | rfl | rfl <;> decide
    have ha : ρ.Renames a (ρ.text a) := rfl
    exact ha.joined rfl hpunctuation hne
  number n := Rewording.fixes_of_chars fun c hc hword => Rewording.isDigit_of_mem_toString hc hword
  type a t ha ht := by rw [ρ.text_append_of_ends t ha, show ρ.text t = t from hkeeps t ht]
  apart a ha := endsApart_text ha

lemma piecewise_final (samples : Bool) : Piecewise (ρ.final samples) (keepsType ρ.helpers) := by
  have htext : Piecewise ρ.text (keepsType ρ.helpers) := ρ.piecewise_text fun t ht =>
    Rewording.fixes_plainText (Bool.and_eq_true_iff.mp ht).1
  cases samples with
  | true =>
    refine (piecewise_detoured ρ.shader fun t ht => ?_).comp htext
    simpa using (Bool.and_eq_true_iff.mp ht).2
  | false => exact htext

end Renaming

/-! ### Where the sizes stand -/

/-- The array that a parameter of a function is declared as. One that hands a value out is declared
as a reference, without a size. -/
def paramArray (table : NameTable) (p : VarDecl) : List Declarator :=
  if p.var.out then [] else (p.var.declarator types table).ifArray

/-- The arrays of a function. The parameters of the entry point are not declared. -/
def functionArrays (table : NameTable) (f : FuncDef) : List Declarator :=
  (if f.name = entryPointName then [] else f.params.flatMap (paramArray table)) ++
    Stmt.arraysOf types table f.body

/-- The arrays of a declaration. Constants are replacement texts, and the parameters of a shader are
declared in the uniform struct. -/
def declArrays (k : Known) : Decl → List Declarator
  | .absent => []
  | .var v =>
    if v.var.qualifier = .const || v.var.qualifier = .param then []
    else (v.var.declarator types k.variableNames).ifArray
  | .func f => functionArrays k.variableNames f

def declsArrays : Known → List Decl → List Declarator
  | _, [] => []
  | k, x :: xs => declArrays k x ++ declsArrays (k.behind x) xs

def firstParams (s : Shader) : List Variable :=
  ((s.params.map fun v => (v.name, v)).foldl addNew []).map Prod.snd

/-- A parameter of a shader as a field of the uniform struct, under its own name. -/
def fieldDeclarator (v : Variable) : Declarator := ⟨types.get v.type.name, v.name, v⟩

def fieldArrays (s : Shader) : List Declarator :=
  (firstParams s).flatMap fun v => (fieldDeclarator v).ifArray

/-- How a name that is written in the declarations of a shader reads in the end. -/
def finalName (s : Shader) (name : String) : String :=
  (rename s.name (helperNames s) (s.decls.any declReads) name).getD name

/-- How a declarator that is written in the declarations of a shader reads in the end. Nothing is
said of its type if a helper is called like it. -/
def finalDeclarator (s : Shader) : Declarator → Declarator :=
  Declarator.changed (finalName s) (keepsType (helperNames s))

def arrays (s : Shader) : List Declarator :=
  fieldArrays s ++ (declsArrays {} s.decls).map (finalDeclarator s)

variable {names table : NameTable} {shader : String}

lemma woven_paramRendering (p : VarDecl) :
    Woven (paramArray table p) fun size => paramRendering table (p.resized size) := by
  unfold paramArray
  by_cases hout : p.var.out = true
  · rw [if_pos hout]
    exact (Woven.plain (paramRendering table p)).of_eq fun size =>
      (if_pos hout).trans (if_pos hout).symm
  · rw [if_neg hout]
    exact (Woven.declared (p.var.declarator types table)).of_eq fun size => if_neg hout

lemma woven_signature (f : FuncDef) :
    Woven (f.params.flatMap (paramArray table)) fun size =>
      signature names shader table (f.resized size) := by
  have hhandles : List.Forall₂ Woven ((handles shader f).map fun _ => [])
      ((handles shader f).map fun handle _ => handle) :=
    Woven.forall₂_map fun handle _ => .plain handle
  have hparams : List.Forall₂ Woven (f.params.map (paramArray table))
      (f.params.map fun p size => paramRendering table (p.resized size)) :=
    Woven.forall₂_map fun p _ => woven_paramRendering p
  have hlist := Woven.joinWith (List.rel_append hhandles hparams)
  rw [List.flatten_append, ← List.flatMap_def, ← List.flatMap_def, List.flatMap_eq_nil_iff.mpr
    fun _ _ => rfl, List.nil_append] at hlist
  refine ((hlist.behind (types.get f.returns.name ++ " " ++ names.get f.name ++ "(")
    (endsApart_append (by decide) (by simp))).before ")").of_eq fun size => ?_
  simp only [signature, FuncDef.resized, List.map_append, List.map_map, Function.comp_def,
    List.map_id']
  rfl

lemma woven_definedText (f : FuncDef) :
    Woven (functionArrays table f) fun size => definedText names shader table (f.resized size) := by
  unfold functionArrays
  by_cases hname : f.name = entryPointName
  · rw [if_pos hname, List.nil_append]
    refine (f.woven_framedText (phrasing names table) (entrySignature shader)
      ("float4 " ++ resultName table f ++ " = float4(0.0);")
      (if resultName table f = "" then none else some (table.get (resultName table f)))
      ("return " ++ table.get (resultName table f) ++ ";")).of_eq fun size => ?_
    have hmain : (f.resized size).name = entryPointName := hname
    rw [definedText, if_pos hmain, resultName, FuncDef.accumulator_resized]
    rfl
  · rw [if_neg hname]
    exact (FuncDef.woven_text (phrasing names table) (woven_signature f) f).of_eq fun size =>
      if_neg hname

lemma woven_writtenText (names : NameTable) (shader : String) (k : Known) (x : Decl) :
    Woven (declArrays k x) fun size => writtenText names shader k (x.resized size) := by
  cases x with
  | absent => exact .plain ""
  | func f => exact woven_definedText f
  | var v =>
    show Woven (if v.var.qualifier = .const || v.var.qualifier = .param then [] else _) _
    by_cases hparam : v.var.qualifier = .param
    · rw [if_pos (by simp [hparam])]
      exact (Woven.plain "").of_eq fun size => if_pos hparam
    · by_cases hconst : v.var.qualifier = .const
      · rw [if_pos (by simp [hconst])]
        exact (Woven.plain (lineAt 0 (v.constantText (phrasing names k.variableNames)))).of_eq
          fun size => (if_neg hparam).trans (congrArg (lineAt 0) (if_pos hconst))
      · rw [if_neg (by simp [hparam, hconst])]
        have hglobal := (((v.woven_text (p := phrasing names k.variableNames)).behind
          "constant " (by decide)).before ";").lineAt 0
        exact hglobal.of_eq fun size =>
          (if_neg hparam).trans (congrArg (lineAt 0) (if_neg hconst))

lemma Known.behind_resized (k : Known) (size : Sizes) (x : Decl) :
    k.behind (x.resized size) = k.behind x := by
  unfold Known.behind
  rw [x.param?_resized]
  cases x.param? <;> rfl

lemma endsApart_writtenText (names : NameTable) (shader : String) (k : Known) (x : Decl) :
    endsApart (writtenText names shader k x) = true := by
  cases x with
  | absent => exact (by decide : endsApart "" = true)
  | func f =>
    show endsApart (definedText names shader k.variableNames f) = true
    unfold definedText
    split <;> exact endsApart_append (by decide) (by simp)
  | var v =>
    show endsApart (if v.var.qualifier = .param then "" else _) = true
    split
    · decide
    · exact endsApart_lineAt _ _

lemma woven_writtenTexts (names : NameTable) (shader : String) (k : Known) (xs : List Decl) :
    Woven (declsArrays k xs) fun size =>
      writtenTexts names shader k (xs.map (Decl.resized size)) := by
  induction xs generalizing k with
  | nil => exact .plain ""
  | cons x xs ih =>
    refine ((woven_writtenText names shader k x).append (ih (k.behind x)) fun _ size =>
      endsApart_writtenText _ _ _ _).of_eq fun size => ?_
    rw [List.map_cons, writtenTexts, k.behind_resized]

/-! ### The uniform struct -/

lemma concatMap_eq_join (f : Uniform → String) (us : List Uniform) :
    concatMap f us = String.join (us.map f) := by
  induction us with
  | nil => rfl
  | cons u us ih => rw [concatMap, ih, List.map_cons, String.join_cons]

/-- The fields are those of the first parameters of their names, with the new sizes. -/
lemma fields_resized (s : Shader) (size : Sizes) :
    ((s.resized size).params.foldl Layout.add {}).uniforms.map Uniform.field =
      (firstParams s).map fun v => fieldText (v.resized size) := by
  have hfields : ((s.resized size).params.foldl Layout.add {}).uniforms.map
      (fun u => (u.name, u.field)) =
        ((s.resized size).params.map fun v => (v.name, fieldText v)).foldl addNew [] :=
    Layout.uniforms_foldl_add (fun _ _ => rfl) {} _
  have hparams : ((s.resized size).params.map fun v => (v.name, fieldText v)) =
      (s.params.map fun v => (v.name, v)).map
        (Prod.map id fun v => fieldText (v.resized size)) := by
    rw [Shader.params_resized, List.map_map, List.map_map]
    rfl
  have hadded := foldl_addNew_map (fun v : Variable => fieldText (v.resized size)) []
    (s.params.map fun v => (v.name, v))
  rw [hparams, show ([] : List (String × String)) = List.map _ [] from rfl, hadded] at hfields
  have hsnd := congrArg (List.map Prod.snd) hfields
  rw [List.map_map, List.map_map] at hsnd
  rw [firstParams, List.map_map]
  exact hsnd

lemma woven_fieldText (v : Variable) :
    Woven (fieldDeclarator v).ifArray fun size => fieldText (v.resized size) := by
  have hends :
      endsApart (if v.precision.text = "" then "" else v.precision.text ++ " ") = true := by
    split
    · decide
    · exact endsApart_append (by decide) (by simp)
  refine (((Woven.declared (fieldDeclarator v)).behind _ hends).before ";").of_eq fun size => ?_
  simp only [fieldText, String.append_assoc]
  rfl

lemma woven_structText (s : Shader) : Woven (fieldArrays s) fun size =>
    structText s.name ((s.resized size).params.foldl Layout.add {}).uniforms := by
  have hfields := Woven.join (fun v (_ : v ∈ firstParams s) =>
    ((woven_fieldText v).behind "    " (by decide)).before "\n") fun size v =>
      endsApart_append (by decide) (by simp)
  refine ((hfields.behind ("struct " ++ uniformsName s.name ++ " \x7b\n")
    (endsApart_append (by decide) (by simp))).before "\x7d;\n").of_eq fun size => ?_
  have hmap : ((s.resized size).params.foldl Layout.add {}).uniforms.map
      (fun u => "    " ++ u.field ++ "\n") =
        (firstParams s).map fun v => "    " ++ fieldText (v.resized size) ++ "\n" := by
    have hlines := congrArg (List.map fun field => "    " ++ field ++ "\n") (fields_resized s size)
    rwa [List.map_map, List.map_map] at hlines
  rw [structText, concatMap_eq_join, hmap]

/-! ### All sizes of a shader -/

lemma declReads_resized (size : Sizes) (x : Decl) : declReads (x.resized size) = declReads x := by
  cases x with
  | func f => exact congrArg (List.any · Expr.isRead) (Stmt.exprsOf_resizedAll f.body)
  | _ => rfl

lemma helperNames_resized (s : Shader) (size : Sizes) :
    helperNames (s.resized size) = helperNames s := by
  unfold helperNames Shader.resized
  rw [List.filterMap_map]
  congr 1
  funext x
  cases x <;> rfl

lemma woven_finalNames {s : Shader} (hs : ∀ n ∈ helperNames s, isIdentifier n = true) :
    Woven ((declsArrays {} s.decls).map (finalDeclarator s)) fun size =>
      finalName s (writtenTexts functions s.name {} (s.decls.map (Decl.resized size))) := by
  have hwritten := woven_writtenTexts functions s.name {} s.decls
  let ρ : Renaming := .of s.name (helperNames s) hs
  have hfinal : finalName s = if searchable (helperNames s)
      then ρ.final (s.decls.any declReads) else fun name => name := by
    funext name
    rw [finalName, show rename s.name (helperNames s) _ name = _ from ρ.rename_eq _ name]
    show Option.getD (if searchable (helperNames s) then _ else _) name = _
    split <;> rfl
  have hpiecewise : Piecewise (finalName s) (keepsType (helperNames s)) := by
    rw [hfinal]
    split
    · exact ρ.piecewise_final _
    · exact .id _
  exact hwritten.changed hpiecewise

/-- If the helpers have identifiers for names, the sizes are woven into the text of a shader,
whatever they are. -/
lemma woven_compile (library : Option Library) {s : Shader}
    (hs : ∀ n ∈ helperNames s, isIdentifier n = true) : ∃ text, Woven (arrays s) text ∧
      ∀ size o w out, (compile o library (some (s.resized size)) w).1.1 = .ok out →
        out.text = text size := by
  have hbody := woven_finalNames hs
  have hhelper : endsApart ("\n" ++
      if s.decls.any declReads then sampleHelper s.name ++ "\n" else "") = true := by
    split
    · exact endsApart_append (endsApart_append (by decide) (by simp)) fun _ => by decide
    · decide
  have hfront := ((woven_structText s).behind (headerLines s.name (commonHeaderOf library))
    (endsApart_append (by decide) (by simp))).before ("\n" ++
      if s.decls.any declReads then sampleHelper s.name ++ "\n" else "")
  refine ⟨_, hfront.append hbody fun _ size => endsApart_append hhelper (by simp),
    fun size o w out h => ?_⟩
  obtain ⟨text, own, ht, rfl⟩ := translate_of_compile h
  have hlayout := layout_of_translate ht
  obtain ⟨-, v, body, hv, hrename, rfl, rfl⟩ := translate_eq_ok.mp ht
  obtain ⟨hout, -, hsamples⟩ := exec_decls_written ⟨rfl, rfl, rfl⟩ rfl hv
  have hreads : v.own.samples = s.decls.any declReads := by
    rw [hsamples, Bool.false_or, Shader.resized, List.any_map]
    congr 1
    funext x
    exact declReads_resized size x
  have hhelpers : v.own.helpers = helperNames s :=
    (helpers_of_exec hv).trans (helperNames_resized s size)
  have hname : body = finalName s v.out := by
    rw [hreads, hhelpers] at hrename
    exact (congrArg (Option.getD · v.out) hrename).symm
  have huniforms : v.own.uniforms = ((s.resized size).params.foldl Layout.add {}).uniforms :=
    congrArg Layout.uniforms hlayout
  rw [hout, String.empty_append] at hname
  show assemble s.name (commonHeaderOf library) v.own body = _
  rw [assemble, hname, hreads, huniforms]
  simp only [String.append_assoc]
  rfl

end Shaderwright.Msl
