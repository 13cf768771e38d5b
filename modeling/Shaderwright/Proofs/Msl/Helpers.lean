import Mathlib.Tactic.Common
import Shaderwright.Msl.Compile
import Shaderwright.Proofs.Emit.Discipline
import Shaderwright.Proofs.Emit.NameTable

/-!
The helpers of a shader: the functions it defines that are not part of the language, in the order
of their definitions. Nothing that is written inside a function changes them.
-/

namespace Shaderwright.Msl

def withHelpers (h : List String → List String) (s : State) : State :=
  { s with helpers := h s.helpers }

/-- A change of the own state that nothing inside a function takes notice of. -/
structure Unnoticed (g : State → State) : Prop where
  variableNames : ∀ s, (g s).variableNames = s.variableNames
  samples : ∀ s, g { s with samples := true } = { g s with samples := true }

lemma unnoticed_withHelpers (h : List String → List String) : Unnoticed (withHelpers h) :=
  ⟨fun _ => rfl, fun _ => rfl⟩

section Discipline

variable {c : Scope} {g : State → State}

lemma tame_modifyOwn {change : State → State} (hchange : ∀ s, change (g s) = g (change s)) :
    Emit.Tame c g (modifyOwn change) where
  keeps w hw := ⟨hw.function, hw.accumulator, hw.entry⟩
  balanced w a v _ hv := by
    obtain ⟨-, rfl⟩ := Prod.mk.inj hv
    rfl
  lifts before w w' _ _ hl := ⟨rfl, hl.out, hl.depth, by
    show change w'.own = g (change w.own)
    rw [hl.own, hchange]⟩

lemma tame_exprDialect (hg : Unnoticed g) (names : NameTable) : (exprDialect names).Tame c g where
  variableNames := hg.variableNames
  call callee args hargs := by
    show Emit.Tame c g (call names callee args)
    unfold call
    split
    · exact .bind (tame_modifyOwn fun s => (hg.samples s).symm) fun _ =>
        ExprDialect.tame_callNamed _ hargs
    · split
      · refine .bind (.write _) fun _ => .bind (.forM fun arg harg => ?_) fun _ => .write _
        exact .bind (.write _) fun _ => (hargs arg harg).write
      · unfold ExprDialect.callMapped
        split <;> exact ExprDialect.tame_callNamed _ hargs

lemma tame_declare (hg : Unnoticed g) (names : NameTable) {v : VarDecl}
    (hv : v.var.qualifier ≠ .param ∨ c.function ≠ none) :
    Emit.Tame c g (declare (exprDialect names) v) := by
  have hd : (exprDialect names).Tame c g := tame_exprDialect hg names
  unfold declare
  cases hqualifier : v.var.qualifier with
  | const => exact hd.defineConstant v
  | param =>
    refine .get (fun w hw => ?_) fun before w w' hw hw' _ => ?_
    · split
      · exact .throw _
      · rename_i hnone
        rw [hw.function] at hnone
        exact absurd hnone (hv.resolve_left fun h => h hqualifier)
    · rw [hw.function, hw'.function]
  | _ =>
    refine .get (fun w hw => ?_) fun before w w' hw hw' _ => ?_
    · split
      · exact hd.varDecl v
      · dsimp only
        split
        · exact .bind (.throw _) fun _ => .bind (hd.varDeclText v) fun _ => .writeLine _
        · exact .bind (hd.varDeclText v) fun _ => .writeLine _
    · rw [hw.function, hw'.function]

/-- The field of a parameter does not depend on the helpers. -/
lemma tame_declare_withHelpers (h : List String → List String) (names : NameTable) (v : VarDecl) :
    Emit.Tame c (withHelpers h) (declare (exprDialect names) v) := by
  by_cases hv : v.var.qualifier = .param
  · unfold declare
    rw [hv]
    refine .get (fun w hw => ?_) fun before w w' hw hw' _ => ?_
    · split
      · exact .throw _
      · unfold declareUniform
        refine .get (fun w _ => ?_) fun before w w' _ _ hl => ?_
        · split
          · exact .pure ()
          · exact .bind (ExprDialect.tame_mapped _ _) fun _ => tame_modifyOwn fun _ => rfl
        · rw [hl.own]
          rfl
    · rw [hw.function, hw'.function]
  · exact tame_declare (unnoticed_withHelpers h) names (.inl hv)

lemma tame_stmtDialect (hg : Unnoticed g) (names : NameTable) {f : String}
    (hf : c.function = some f) : (stmtDialect names).Tame c g where
  toTame := tame_exprDialect hg names
  declare _ := tame_declare hg names (.inr (by simp [hf]))

lemma tame_paramText (hg : Unnoticed g) (names : NameTable) (p : VarDecl) :
    Emit.Tame c g (paramText (exprDialect names) p) := by
  have hd : (exprDialect names).Tame c g := tame_exprDialect hg names
  refine .bind (ExprDialect.tame_mapped _ _) fun type => .bind (hd.variableName _) fun name => ?_
  split
  · exact .bind (ExprDialect.tame_mapped _ _) fun _ => .pure _
  · exact .pure _

lemma tame_defineEntry {names : NameTable} {function : Option String}
    (hd : ∀ acc, (stmtDialect names).Tame ⟨function, acc⟩ g) (shader : String) (f : FuncDef) :
    Emit.Tame ⟨function, ""⟩ g (defineEntry (stmtDialect names) shader f) := by
  unfold defineEntry
  split
  · exact .throw _
  · exact .bind ((hd "").variableName _) fun _ => (hd "").entryPoint rfl (hd _) _ f

/-- What comes behind the name of a function. -/
lemma tame_signature (hg : Unnoticed g) {names : NameTable} (hd : (stmtDialect names).Tame c g)
    (f : FuncDef) (head : String) (handles : List String) :
    Emit.Tame c g (do
      let params ← f.params.mapM (paramText (exprDialect names))
      (stmtDialect names).funcWithSignature
        (head ++ Text.joinWith ", " (handles ++ params) ++ ")") f) :=
  .bind (.mapM (tame_paramText hg names) _) fun _ => hd.funcWithSignature _ f

lemma tame_define_of_ne (hg : Unnoticed g) {names : NameTable} (hd : (stmtDialect names).Tame c g)
    (shader : String) {f : FuncDef} (hname : f.name ≠ entryPointName)
    (hhelpers : ∀ s n, g { s with helpers := s.helpers ++ [n] } =
      { g s with helpers := (g s).helpers ++ [n] }) :
    Emit.Tame c g (define (stmtDialect names) shader f) := by
  unfold define
  rw [if_neg hname]
  refine .bind (ExprDialect.tame_mapped _ _) fun type => ?_
  dsimp only
  split
  · exact .bind (tame_modifyOwn fun s => (hhelpers s _).symm) fun _ => tame_signature hg hd f _ _
  · exact tame_signature hg hd f _ _

lemma tame_define (hg : Unnoticed g) (names : NameTable) (shader : String) (f : FuncDef)
    (hhelpers : ∀ s n, g { s with helpers := s.helpers ++ [n] } =
      { g s with helpers := (g s).helpers ++ [n] }) :
    Emit.Tame ⟨some f.name, ""⟩ g (define (stmtDialect names) shader f) := by
  have hd : ∀ acc, (stmtDialect names).Tame ⟨some f.name, acc⟩ g :=
    fun acc => tame_stmtDialect hg names rfl
  by_cases hname : f.name = entryPointName
  · unfold define
    rw [if_pos hname]
    exact tame_defineEntry hd shader f
  · exact tame_define_of_ne hg (hd "") shader hname hhelpers

lemma tame_dialect (names : NameTable) (shader : String) :
    (dialect names shader).Tame (withHelpers id) where
  declare := tame_declare_withHelpers id names
  define f := tame_define (unnoticed_withHelpers id) names shader f fun _ _ => rfl

end Discipline

/-! ### The helpers of a shader -/

variable {c : Scope} {w w' : Writer State} {names : NameTable} {shader : String}

lemma helpers_of_tame {α : Type} {m : Emit State α} {r : Except Fault α}
    (hexec : m.exec w = (r, w')) (hm : ∀ h, Emit.Tame c (withHelpers h) m) (hw : w.Calm c) :
    w'.own.helpers = w.own.helpers := by
  have hl := ((hm fun _ => w.own.helpers).lifts "" w w hw hw ⟨by simp, rfl, rfl⟩).2.own
  rw [hexec] at hl
  rw [hl]
  rfl

def helperOf? : Decl → Option String
  | .func f => if isHelper f.name then some f.name else none
  | _ => none

def helperNames (s : Shader) : List String := s.decls.filterMap helperOf?

lemma mem_helperNames {s : Shader} {n : String} :
    n ∈ helperNames s ↔ ∃ g, .func g ∈ s.decls ∧ g.name = n ∧ isHelper n = true := by
  unfold helperNames
  rw [List.mem_filterMap]
  constructor
  · rintro ⟨x, hx, hn⟩
    cases x with
    | func g =>
      obtain ⟨hhelper, rfl⟩ : isHelper g.name = true ∧ g.name = n := by
        simpa [helperOf?] using hn
      exact ⟨g, hx, rfl, hhelper⟩
    | _ => simp [helperOf?] at hn
  · rintro ⟨g, hg, rfl, hhelper⟩
    exact ⟨.func g, hg, by simp [helperOf?, hhelper]⟩

lemma isHelper_main : isHelper entryPointName = false := by decide

lemma functions_get_of_isHelper {name : String} (h : isHelper name = true) :
    functions.get name = name := by
  have hkeys : ∀ key ∈ functions.entries.map Prod.fst, isHelper key = false := by decide
  refine NameTable.get_of_not_mem rfl fun hmem => ?_
  rw [hkeys name hmem] at h
  cases h

lemma helpers_define {f : FuncDef} (hw : w.Calm ⟨some f.name, ""⟩)
    (h : (define (stmtDialect names) shader f).exec w = (.ok (), w')) :
    w'.own.helpers = w.own.helpers ++ ((helperOf? (.func f)).map names.get).toList := by
  unfold define at h
  split at h
  · rename_i hmain
    have hkeep := helpers_of_tame h (fun h => tame_defineEntry
      (fun acc => tame_stmtDialect (unnoticed_withHelpers h) names rfl) shader f) hw
    simpa [helperOf?, hmain, isHelper_main] using hkeep
  · obtain ⟨type, u, htype, h⟩ := Emit.exec_bind_eq_ok.mp h
    obtain ⟨-, rfl⟩ := ExprDialect.exec_mapped_eq_ok.mp htype
    dsimp only at h
    split at h
    · rename_i hhelper
      obtain ⟨_, u, hu, h⟩ := Emit.exec_bind_eq_ok.mp h
      obtain ⟨-, rfl⟩ := Prod.mk.inj hu
      have hkeep := helpers_of_tame (c := ⟨some f.name, ""⟩) h
        (fun h => tame_signature (unnoticed_withHelpers h)
          (tame_stmtDialect (unnoticed_withHelpers h) names rfl) f _ _)
        ⟨hw.function, hw.accumulator, hw.entry⟩
      simpa [helperOf?, hhelper, ExprDialect.functionName, stmtDialect, exprDialect] using hkeep
    · rename_i hhelper
      have hkeep := helpers_of_tame h
        (fun h => tame_signature (unnoticed_withHelpers h)
          (tame_stmtDialect (unnoticed_withHelpers h) names rfl) f _ _) hw
      simpa [helperOf?, hhelper] using hkeep

lemma helpers_decl {x : Decl} (hw : w.Calm {})
    (h : ((dialect names shader).decl x).exec w = (.ok (), w')) :
    w'.own.helpers = w.own.helpers ++ ((helperOf? x).map names.get).toList := by
  cases x with
  | absent => simp [Dialect.decl] at h
  | var v =>
    simpa [helperOf?] using helpers_of_tame h (fun h => tame_declare_withHelpers h names v) hw
  | func f =>
    have hcalm : Writer.Calm ⟨some f.name, ""⟩ { w with function := some f.name } :=
      ⟨rfl, hw.accumulator, hw.entry⟩
    rw [Dialect.exec_func] at h
    obtain ⟨hr, rfl⟩ := Prod.mk.inj h
    have hdefine : (define (stmtDialect names) shader f).exec { w with function := some f.name } =
        (.ok (), _) := Prod.ext hr rfl
    have hhelpers := helpers_define hcalm hdefine
    exact hhelpers

lemma helpers_decls {xs : List Decl} (hw : w.Calm {})
    (h : ((dialect names shader).decls xs).exec w = (.ok (), w')) :
    w'.own.helpers = w.own.helpers ++ (xs.filterMap helperOf?).map names.get := by
  induction xs generalizing w with
  | nil =>
    obtain ⟨-, rfl⟩ := Prod.mk.inj h
    simp
  | cons x xs ih =>
    obtain ⟨_, u, hx, hxs⟩ := Emit.exec_bind_eq_ok.mp h
    have hu : u.Calm {} := by
      have hkeep := ((tame_dialect names shader).decl x).keeps w hw
      rwa [hx] at hkeep
    rw [ih hu hxs, helpers_decl hw hx, List.append_assoc]
    rcases hx : helperOf? x with _ | n <;> simp [hx]

/-- The helpers of a shader keep their own names while the declarations are written. -/
lemma helpers_of_exec {s : Shader}
    (h : ((dialect functions s.name).decls s.decls).exec { own := {} } = (.ok (), w)) :
    w.own.helpers = helperNames s := by
  rw [helpers_decls ⟨rfl, rfl, rfl⟩ h, List.nil_append]
  have hkept : ∀ n ∈ helperNames s, functions.get n = n := fun n hn => by
    obtain ⟨-, -, -, hhelper⟩ := mem_helperNames.mp hn
    exact functions_get_of_isHelper hhelper
  exact (List.map_congr_left hkept).trans (List.map_id' _)

end Shaderwright.Msl
