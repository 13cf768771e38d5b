import Mathlib.Tactic.Common
import Shaderwright.Proofs.Shader.Complete
import Shaderwright.Proofs.Source.Resolution

/-!
What the resolution of names gives is complete: it leaves out nothing that a form does not leave
out, and it knows no types and qualifiers but those that have names in every target language.
-/

namespace Shaderwright.Source

/-! ### Expressions -/

lemma Bound.complete {scope : Scope} {e : Expr} (h : Bound scope e) : e.Complete := by
  induction h with
  | ident name => simp [Expr.Complete, Expr.parts]
  | literal text kind => simp [Expr.Complete, Expr.parts]
  | call _ ih => exact Expr.complete_call.mpr ih
  | binary _ _ ihx ihy => exact Expr.complete_binary.mpr ⟨ihx, ihy⟩
  | unary _ ih => exact Expr.complete_unary.mpr ih
  | assign _ _ ihl ihr => exact Expr.complete_assign.mpr ⟨ihl, ihr⟩
  | member _ ih => exact Expr.complete_member.mpr ih
  | index _ _ ihx ihi => exact Expr.complete_index.mpr ⟨ihx, ihi⟩

lemma BoundIfAny.complete {scope : Scope} {e : Expr} (h : BoundIfAny scope e) :
    e.CompleteIfAny := by
  rcases h with rfl | h
  · exact .inl rfl
  · exact .inr h.complete

/-! ### Declarations -/

lemma Named.known {t : ShaderType} (h : Named t) : t.known = true := by
  obtain ⟨word, hword⟩ := h
  unfold ShaderType.parse? at hword
  split at hword <;> cases hword <;> decide

lemma known_of_parse? {word : String} {q : Qualifier} (h : Qualifier.parse? word = some q) :
    q.known = true := by
  unfold Qualifier.parse? at h
  split at h <;> cases h <;> decide

lemma Declares.complete {c : Context} {d : VarDecl} (h : Declares c d) : d.Complete := by
  obtain ⟨word, hword⟩ := h.qualifier
  exact ⟨h.type.known, known_of_parse? hword, h.init.complete⟩

/-! ### Statements -/

lemma complete_wordStmts {s : Stmt} (h : s ∈ wordStmts) : s.Complete := by
  simp only [wordStmts, List.mem_cons, List.not_mem_nil, or_false] at h
  rcases h with rfl | rfl | rfl | rfl
  · exact .discard
  · exact .breakLoop
  · exact .continueLoop
  · exact .returns (.inl rfl)

lemma Elaborates.complete {c c' : Context} {ss : List Stmt} (h : Elaborates c ss c') :
    ∀ s ∈ ss, s.Complete := by
  induction h with
  | nil c => simp
  | cons _ _ ihs ihss => exact List.forall_mem_cons.mpr ⟨ihs _ List.mem_cons_self, ihss⟩
  | word c hs => simpa using complete_wordStmts hs
  | block _ ih => simpa using Stmt.Complete.block ih
  | decl hd => simpa using Stmt.Complete.decl hd.complete
  | expr hx => simpa using Stmt.Complete.expr hx.complete
  | returns hx => simpa using Stmt.Complete.returns (.inr hx.complete)
  | @ifElse c d e cond yes no hcond _ _ ihyes ihno =>
    have hno : ((no.map Stmt.block).getD .absent).isAbsent = false →
        ((no.map Stmt.block).getD .absent).Complete := by
      cases no with
      | none => exact fun habsent => absurd habsent (by decide)
      | some no => exact fun _ => .block ihno
    simpa using Stmt.Complete.ifElse hcond.complete (.block ihyes) hno
  | @loop c d e init cond post body _ hcond hpost _ ihinit ihbody =>
    have hinit : (init.getD .absent).isAbsent = false → (init.getD .absent).Complete := by
      cases init with
      | none => exact fun habsent => absurd habsent (by decide)
      | some init => exact fun _ => ihinit init (by simp)
    simpa using Stmt.Complete.loop hinit hcond.complete hpost.complete (.block ihbody)

/-! ### Shaders -/

lemma ElaboratesDecl.complete {c c' : Context} {x : Decl} (h : ElaboratesDecl c x c') :
    x.Complete := by
  cases h with
  | var hd => exact .var hd.complete
  | func hreturns hparams hbody =>
    refine .func ⟨hreturns.known, fun p hp => ?_, hbody.complete⟩
    cases hparams.complete (.decl p) (List.mem_map_of_mem hp) with
    | decl hcomplete => exact hcomplete

lemma Resolved.complete {c : Context} {xs : List Decl} (h : Resolved c xs) :
    ∀ x ∈ xs, x.Complete := by
  induction h with
  | nil c => simp
  | cons hx _ ih => exact List.forall_mem_cons.mpr ⟨(elaborates_decl hx).complete, ih⟩

lemma complete_of_shader {form : ShaderForm} {s : Shader} (h : shader form = .ok s) :
    ∀ x ∈ s.decls, x.Complete :=
  (resolved_of_shader h).complete

end Shaderwright.Source
