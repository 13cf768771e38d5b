import Mathlib.Tactic.Common
import Shaderwright.Proofs.Emit.Acceptance
import Shaderwright.Proofs.Shader.Sites

/-!
Where the writing of a shader stops. A statement that cannot be written in a function ends the
whole shader with its own fault, at whatever depth it stands, unless another fault comes first;
and that one would come first whatever stood in its place.
-/

namespace Shaderwright

variable {σ α β : Type}

namespace Emit

/-- `m s` is a step that writes, among others, the statement `s`. From `w` on, it ends with the
fault `e` where this statement is `x`, or with a fault that does not depend on the statement. -/
def StopsFrom (w : Writer σ) (x : Stmt) (e : Fault) (m : Stmt → Emit σ α) : Prop :=
  ((m x).exec w).1 = .error e ∨ ∃ e', ∀ s, ((m s).exec w).1 = .error e'

/-- The same from everywhere inside `f`. -/
def StopsIn (f : Option String) (x : Stmt) (e : Fault) (m : Stmt → Emit σ α) : Prop :=
  ∀ w, w.function = f → StopsFrom w x e m

variable {f : Option String} {x : Stmt} {e : Fault} {w : Writer σ}

lemma error_bind {m : Emit σ α} (h : (m.exec w).1 = .error e) (k : α → Emit σ β) :
    ((m >>= k).exec w).1 = .error e := by
  rw [exec_bind]
  generalize m.exec w = r at h ⊢
  obtain ⟨r, v⟩ := r
  cases h
  rfl

lemma error_braces {m : Emit σ Unit} (hm : ∀ w, w.function = f → (m.exec w).1 = .error e)
    (hw : w.function = f) : ((Emit.braces m).exec w).1 = .error e := by
  rw [Emit.braces, exec_bind_of_ok (exec_write _ _), exec_bind_of_ok (exec_pushIndent _)]
  apply error_bind
  exact hm _ hw

lemma StopsFrom.bind {m : Stmt → Emit σ α} (hm : StopsFrom w x e m)
    (k : Stmt → α → Emit σ β) : StopsFrom w x e fun s => m s >>= k s :=
  hm.imp (error_bind · _) fun ⟨e', he'⟩ => ⟨e', fun s => error_bind (he' s) _⟩

/-- A step before the statement either fails in its own way or leads there. -/
lemma StopsFrom.after {m : Emit σ α} {k : Stmt → α → Emit σ β}
    (hk : ∀ a v, m.exec w = (.ok a, v) → StopsFrom v x e fun s => k s a) :
    StopsFrom w x e fun s => m >>= k s := by
  unfold StopsFrom
  simp only [exec_bind]
  rcases hex : m.exec w with ⟨e' | a, v⟩
  · exact .inr ⟨e', fun _ => rfl⟩
  · exact hk a v hex

namespace StopsIn

lemma bind {m : Stmt → Emit σ α} (hm : StopsIn f x e m) (k : Stmt → α → Emit σ β) :
    StopsIn f x e fun s => m s >>= k s :=
  fun w hw => (hm w hw).bind k

lemma after {m : Emit σ α} {p : Prop} {k : Stmt → α → Emit σ β} (hm : Accepts f m p)
    (hk : ∀ a, StopsIn f x e fun s => k s a) : StopsIn f x e fun s => m >>= k s :=
  fun w hw => .after fun a v hv => hk a v (hm.stays w a v hw hv)

lemma get {k : Stmt → Writer σ → Emit σ β} (hk : ∀ w, StopsIn f x e fun s => k s w) :
    StopsIn f x e fun s => MonadState.get >>= k s :=
  fun w hw => hk w w hw

lemma andThen {m : Stmt → Emit σ α} (hm : StopsIn f x e m) (g : Writer σ → Writer σ) :
    StopsIn f x e fun s => (m s).andThen g := hm

lemma braces {m : Stmt → Emit σ Unit} (hm : StopsIn f x e m) :
    StopsIn f x e fun s => Emit.braces (m s) := by
  have hpush : Accepts f (pushIndent : Emit σ Unit) True :=
    .of_exec (fun _ => ()) _ exec_pushIndent fun _ => rfl
  exact .after (Accepts.write _) fun _ => .after hpush fun _ => hm.bind _

lemma of_throw (e' : Fault) : StopsIn f x e fun _ => (throw e' : Emit σ α) :=
  fun _ _ => .inr ⟨e', fun _ => rfl⟩

end StopsIn

end Emit

lemma ExprDialect.stops_compound (d : ExprDialect σ) {f : Option String} {x : Stmt} {e : Fault}
    {body : Stmt → Emit σ Unit} (hbody : Emit.StopsIn f x e body) :
    Emit.StopsIn f x e fun s => d.compound (body s) := by
  unfold compound
  refine .get fun w => .after (.change fun _ => rfl) fun _ => ?_
  split
  · simp only [entryBody_eq]
    refine .braces (.after (.writeLine _) fun _ => .bind ?_ _)
    exact .after (.change fun _ => rfl) fun _ => hbody.andThen _
  · exact hbody.braces

/-! ### Statements -/

namespace StmtDialect

variable {rule : SampleRule} {f : Option String} {d : StmtDialect σ} {x : Stmt} {e : Fault}

lemma Accepting.stops_stmts (hd : d.Accepting rule f) {m : Stmt → Stmt}
    (hm : Emit.StopsIn f x e fun s => d.stmt (m s)) (before after : List Stmt) :
    Emit.StopsIn f x e fun s => d.stmts (before ++ m s :: after) := by
  induction before with
  | nil =>
    simp only [List.nil_append, stmts]
    exact hm.bind _
  | cons s before ih =>
    simp only [List.cons_append, stmts]
    exact .after (hd.stmt_branch s).1 fun _ => ih

/-- A loop that starts with a larger statement is refused. -/
lemma stops_loopStart {g : Gap} (hg : g ≠ .here) :
    Emit.StopsIn f x e fun s => d.loopStart (g.fill s) := by
  cases g with
  | here => exact absurd rfl hg
  | _ => exact .of_throw _

/-- Whether a statement is there does not depend on what is put into it. -/
lemma isAbsent_fill {g : Gap} (hg : g ≠ .here) (s : Stmt) : (g.fill s).isAbsent = false := by
  cases g with
  | here => exact absurd rfl hg
  | _ => rfl

/-- A declaration that fails inside `f` stops everything that stands around it, also where this is
a branch. The start of a loop is aside: it is no statement of its own. -/
lemma Accepting.stops_fill (hd : d.Accepting rule f) {v : VarDecl}
    (hv : ∀ w, w.function = f → ((d.declare v).exec w).1 = .error e) {g : Gap}
    (hg : g.opensLoop = false) :
    Emit.StopsIn f (.decl v) e (fun s => d.stmt (g.fill s)) ∧
      Emit.StopsIn f (.decl v) e (fun s => d.branch (g.fill s)) := by
  -- every other statement is written in braces where it is a branch
  have hsingle : ∀ {g : Gap}, (∀ s, d.branch (g.fill s) = Emit.braces (d.stmt (g.fill s))) →
      Emit.StopsIn f (.decl v) e (fun s => d.stmt (g.fill s)) →
      Emit.StopsIn f (.decl v) e (fun s => d.stmt (g.fill s)) ∧
        Emit.StopsIn f (.decl v) e (fun s => d.branch (g.fill s)) := by
    intro g hbranch hg
    simp only [hbranch]
    exact ⟨hg, hg.braces⟩
  induction g with
  | here =>
    exact ⟨fun w hw => .inl (hv w hw), fun w hw => .inl (Emit.error_braces hv hw)⟩
  | block before g after ih =>
    have hss : Emit.StopsIn f (.decl v) e
        fun s => d.compound (d.stmts (before ++ g.fill s :: after)) :=
      d.stops_compound (hd.stops_stmts (ih hg).1 before after)
    constructor
    · simp only [Gap.fill, stmt]
      exact .after .writeIndent fun _ => hss.bind _
    · simp only [Gap.fill, branch, contents]
      exact hss
  | thenBranch cond g no ih =>
    refine hsingle (fun _ => rfl) ?_
    simp only [Gap.fill, stmt]
    exact .after .writeIndent fun _ => .after (.write _) fun _ =>
      .after (hd.calls.expr cond) fun _ => .after (.write _) fun _ => (ih hg).2.bind _
  | elseBranch cond yes g ih =>
    have helse : Emit.StopsIn f (.decl v) e fun s => (do
        unless (g.fill s).isAbsent do
          Emit.write " else "
          d.branch (g.fill s)
        Emit.write "\n" : Emit σ Unit) := by
      by_cases hhere : g = .here
      · rw [hhere]
        refine fun w hw => .inl ?_
        show ((do Emit.write " else "; Emit.braces (d.declare v); Emit.write "\n").exec w).1 = _
        rw [Emit.exec_bind_of_ok (Emit.exec_write _ _)]
        apply Emit.error_bind
        exact Emit.error_braces hv hw
      · simp only [isAbsent_fill hhere]
        exact .after (.write _) fun _ => (ih hg).2.bind _
    refine hsingle (fun _ => rfl) ?_
    simp only [Gap.fill, stmt]
    exact .after .writeIndent fun _ => .after (.write _) fun _ =>
      .after (hd.calls.expr cond) fun _ => .after (.write _) fun _ =>
      .after (hd.stmt_branch yes).2 fun _ => helse
  | loopInit g cond post body ih =>
    have hhere : g ≠ .here := by
      rintro rfl
      simp [Gap.opensLoop] at hg
    refine hsingle (fun _ => rfl) ?_
    simp only [Gap.fill, stmt]
    exact .after .writeIndent fun _ => .after (.write _) fun _ => (stops_loopStart hhere).bind _
  | loopBody init cond post g ih =>
    refine hsingle (fun _ => rfl) ?_
    simp only [Gap.fill, stmt]
    exact .after .writeIndent fun _ => .after (.write _) fun _ =>
      .after (hd.loopStart init) fun _ => .after (.write _) fun _ =>
      .after (hd.optional cond) fun _ => .after (.write _) fun _ =>
      .after (hd.optional post) fun _ => .after (.write _) fun _ => (ih hg).2.bind _

lemma Accepting.stops_funcWithSignature (hd : d.Accepting rule f) {v : VarDecl}
    (hv : ∀ w, w.function = f → ((d.declare v).exec w).1 = .error e) {p : Site}
    (hg : p.gap.opensLoop = false) (signature : String) :
    Emit.StopsIn f (.decl v) e fun s => d.funcWithSignature signature (p.definition s) := by
  have hbody := d.stops_compound (hd.stops_stmts (hd.stops_fill hv hg).1 p.front p.back)
  exact .after .writeIndent fun _ => .after (.write _) fun _ => hbody.bind _

end StmtDialect

/-! ### Shaders -/

lemma Dialect.stops_decls {d : Dialect σ} {x : Stmt} {e : Fault} {p : Site}
    (h : Emit.StopsIn (some p.function.name) x e fun s => d.define (p.definition s))
    (w : Writer σ) : Emit.StopsFrom w x e fun s => d.decls (p.shader s).decls := by
  simp only [Site.shader, decls_append, decls]
  refine .after fun _ v _ => .bind ?_ _
  exact h { v with function := some p.function.name } rfl

end Shaderwright
