import Mathlib.Data.List.Forall2
import Mathlib.Tactic.Common
import Shaderwright.Proofs.Emit.Discipline
import Shaderwright.Proofs.Emit.Rendering

/-!
The writer against the rendering. A step that succeeds in a setting puts a known text behind the
output and otherwise leaves the writer alone, but for the note that a texture was read. A target
language prints its expressions and statements as they are rendered as soon as its own calls and
declarations do.
-/

namespace Shaderwright

variable {σ α β : Type}

/-- Where a step is written, and what the own state keeps of it. -/
structure Setting (σ : Type) where
  scope : Scope
  /-- Where the own state keeps the names of variables, and these names. -/
  names : σ → NameTable
  table : NameTable
  /-- The own state behind a step that reads a texture, or does not. -/
  note : Bool → σ → σ
  note_false : ∀ s, note false s = s
  note_note : ∀ a b s, note b (note a s) = note (a || b) s
  names_note : ∀ b s, names (note b s) = names s

namespace Setting

structure Holds (S : Setting σ) (w : Writer σ) : Prop where
  calm : w.Calm S.scope
  table : S.names w.own = S.table

/-- The writer behind a text. -/
def behind (S : Setting σ) (w : Writer σ) (text : String) (reads : Bool) : Writer σ :=
  { w with out := w.out ++ text, own := S.note reads w.own }

variable {S : Setting σ} {w : Writer σ}

lemma Holds.behind (hw : S.Holds w) (text : String) (reads : Bool) :
    S.Holds (S.behind w text reads) where
  calm := ⟨hw.calm.function, hw.calm.accumulator, hw.calm.entry⟩
  table := (S.names_note reads w.own).trans hw.table

lemma Holds.elsewhere (hw : S.Holds w) {out : String} {depth : Nat} :
    S.Holds { w with out := out, depth := depth } :=
  ⟨⟨hw.calm.function, hw.calm.accumulator, hw.calm.entry⟩, hw.table⟩

lemma behind_behind (w : Writer σ) (t t' : String) (b b' : Bool) :
    S.behind (S.behind w t b) t' b' = S.behind w (t ++ t') (b || b') := by
  simp only [Setting.behind, S.note_note, String.append_assoc]

@[simp] lemma behind_empty (w : Writer σ) : S.behind w "" false = w := by
  simp [Setting.behind, S.note_false]

/-- The same setting in a function that collects its result in an accumulator. -/
def collecting (S : Setting σ) (accumulator : String) : Setting σ :=
  { S with scope := { S.scope with accumulator } }

/-- What a bare return hands back. -/
def result (S : Setting σ) : Option String :=
  if S.scope.accumulator = "" then none else some (S.table.get S.scope.accumulator)

end Setting

/-- From the setting a step that succeeds gives `a` and puts a text behind the output, which depends
on nothing but the depth. -/
def Emit.Prints (S : Setting σ) (m : Emit σ α) (a : α) (text : Nat → String) (reads : Bool) :
    Prop :=
  ∀ w b v, S.Holds w → m.exec w = (.ok b, v) → b = a ∧ v = S.behind w (text w.depth) reads

namespace Emit.Prints

variable {S : Setting σ} {a : α} {c : β} {t t' : Nat → String} {r r' : Bool}

/-! ### Putting steps together -/

lemma of_eq {m : Emit σ α} (h : Prints S m a t r) (htext : ∀ n, t n = t' n) (hreads : r = r') :
    Prints S m a t' r' := by
  obtain rfl : t = t' := funext htext
  exact hreads ▸ h

lemma pure (a : α) : Prints S (Pure.pure a : Emit σ α) a (fun _ => "") false := by
  intro w b v _ hv
  obtain ⟨hb, rfl⟩ := Prod.mk.inj hv
  exact ⟨(Except.ok.inj hb).symm, by simp⟩

lemma throw (e : Fault) : Prints S (MonadExcept.throw e : Emit σ α) a t r := by
  intro w b v _ hv
  simp at hv

lemma throw_bind (e : Fault) (k : β → Emit σ α) : Prints S (MonadExcept.throw e >>= k) a t r := by
  intro w b v _ hv
  simp at hv

lemma bind {m : Emit σ α} {k : α → Emit σ β} (hm : Prints S m a t r) (hk : Prints S (k a) c t' r') :
    Prints S (m >>= k) c (fun n => t n ++ t' n) (r || r') := by
  intro w b v hw hv
  obtain ⟨a', u, hu, hv⟩ := exec_bind_eq_ok.mp hv
  obtain ⟨rfl, rfl⟩ := hm w a' u hw hu
  obtain ⟨hb, rfl⟩ := hk _ b v (hw.behind _ _) hv
  exact ⟨hb, S.behind_behind ..⟩

lemma get {k : Writer σ → Emit σ α} (hk : ∀ w, S.Holds w → Prints S (k w) a t r) :
    Prints S (MonadState.get >>= k) a t r :=
  fun w b v hw hv => hk w hw w b v hw hv

lemma write (text : String) :
    Prints S (Emit.write text : Emit σ Unit) () (fun _ => text) false := by
  intro w b v _ hv
  obtain ⟨-, rfl⟩ := Prod.mk.inj hv
  exact ⟨rfl, by rw [Setting.behind, S.note_false]⟩

lemma writeIndent : Prints S (Emit.writeIndent : Emit σ Unit) () indentation false := by
  intro w b v _ hv
  obtain ⟨-, rfl⟩ := Prod.mk.inj hv
  exact ⟨rfl, by rw [Setting.behind, S.note_false]⟩

lemma writeLine (text : String) :
    Prints S (Emit.writeLine text : Emit σ Unit) () (fun n => lineAt n text) false :=
  bind writeIndent (write _)

lemma captured {m : Emit σ Unit} {text : String} (hm : Prints S m () (fun _ => text) r) :
    Prints S (Emit.captured m) text (fun _ => "") r := by
  intro w b v hw hv
  rw [exec_captured] at hv
  rcases hex : m.exec { w with out := "" } with ⟨e | _, u⟩
  · simp [hex] at hv
  · obtain ⟨-, rfl⟩ := hm { w with out := "" } () u hw.elsewhere hex
    rw [hex] at hv
    obtain ⟨hb, rfl⟩ := Prod.mk.inj hv
    refine ⟨?_, by simp [Setting.behind]⟩
    simpa [Setting.behind] using (Except.ok.inj hb).symm

/-- Steps that each print a text of their own, with a separator between them. -/
lemma separated (separator : String) {steps : List (Emit σ Unit)} {texts : List (String × Bool)}
    (h : List.Forall₂ (fun m p => Prints S m () (fun _ => p.1) p.2) steps texts) :
    Prints S (Emit.separated separator steps) ()
      (fun _ => Text.joinWith separator (texts.map Prod.fst)) (texts.any Prod.snd) := by
  induction h with
  | nil => exact pure ()
  | @cons m p steps texts hm hrest ih =>
    cases hrest with
    | nil => simpa [Emit.separated, Text.joinWith] using hm
    | cons hnext hothers =>
      refine of_eq (bind hm (bind (write separator) ih)) (fun n => ?_) (by simp)
      simp [Text.joinWith, String.append_assoc]

lemma forM {γ : Type} {m : γ → Emit σ Unit} {xs : List γ} {texts : List (String × Bool)}
    (h : List.Forall₂ (fun x p => Prints S (m x) () (fun _ => p.1) p.2) xs texts) :
    Prints S (xs.forM m) () (fun _ => Text.joinWith "" (texts.map Prod.fst))
      (texts.any Prod.snd) := by
  induction h with
  | nil => exact pure ()
  | @cons x p xs texts hx hrest ih =>
    refine of_eq (bind hx ih) (fun n => ?_) (by simp)
    cases texts <;> simp [Text.joinWith]

lemma mapM {γ : Type} {m : γ → Emit σ α} {value : γ → α} {xs : List γ}
    (h : ∀ x ∈ xs, Prints S (m x) (value x) (fun _ => "") false) :
    Prints S (xs.mapM m) (xs.map value) (fun _ => "") false := by
  induction xs with
  | nil => exact pure []
  | cons x xs ih =>
    rw [List.mapM_cons]
    have hxs := ih fun y hy => h y (List.mem_cons_of_mem _ hy)
    exact of_eq (bind (h x List.mem_cons_self) (bind hxs (pure _))) (fun _ => rfl) rfl

lemma braces {m : Emit σ Unit} (hm : Prints S m () t r) :
    Prints S (Emit.braces m) () (fun n => bracedAt n (t (n + 1))) r := by
  have hinner : Prints S (do pushIndent; m; popIndent : Emit σ Unit) () (fun n => t (n + 1)) r := by
    intro w b v hw hv
    rw [exec_indented] at hv
    rcases hex : m.exec { w with depth := w.depth + 1 } with ⟨e | _, u⟩
    · simp [hex] at hv
    · obtain ⟨-, rfl⟩ := hm { w with depth := w.depth + 1 } () u hw.elsewhere hex
      rw [hex] at hv
      obtain ⟨-, rfl⟩ := Prod.mk.inj hv
      exact ⟨rfl, by simp [Setting.behind]⟩
  rw [braces_eq]
  refine of_eq (bind (write _) (bind hinner (bind writeIndent (write _)))) (fun n => ?_) (by simp)
  simp [bracedAt, String.append_assoc]

/-- A step in an inner setting, which is left behind it. -/
lemma inSetting {S' : Setting σ} {m : Emit σ α} {enter leave : Writer σ → Writer σ}
    (hm : Prints S' m a t r) (henter : ∀ w, S.Holds w → S'.Holds (enter w))
    (hdepth : ∀ w, (enter w).depth = w.depth)
    (hleave : ∀ w text r, S.Holds w → leave (S'.behind (enter w) text r) = S.behind w text r) :
    Prints S (modify enter >>= fun _ => m.andThen leave) a t r := by
  intro w b v hw hv
  rw [exec_bind_of_ok (exec_modify enter w), exec_andThen] at hv
  obtain ⟨hr, rfl⟩ := Prod.mk.inj hv
  obtain ⟨hb, hu⟩ := hm (enter w) b _ (henter w hw) (Prod.ext hr rfl)
  exact ⟨hb, (congrArg leave hu).trans (by rw [hleave w _ _ hw, hdepth])⟩

lemma mapped (table : NameTable) (key : String) :
    Prints S (ExprDialect.mapped table key : Emit σ String) (table.get key) (fun _ => "")
      false := by
  intro w b v _ hv
  obtain ⟨hb, rfl⟩ := ExprDialect.exec_mapped_eq_ok.mp hv
  exact ⟨by simp [NameTable.get, hb], by simp⟩

/-- A step that only finds something out leaves the writer to the next one. -/
lemma exec_bind_of_value {m : Emit σ α} {k : α → Emit σ β} (hm : Prints S m a (fun _ => "") false)
    {w v : Writer σ} {b : β} (hw : S.Holds w) (h : (m >>= k).exec w = (.ok b, v)) :
    (k a).exec w = (.ok b, v) := by
  obtain ⟨a', u, hu, hv⟩ := exec_bind_eq_ok.mp h
  obtain ⟨rfl, rfl⟩ := hm w a' u hw hu
  rwa [Setting.behind_empty] at hv

end Emit.Prints

open Emit (Prints)

/-! ### Expressions -/

/-- An argument is written as the phrase says, and so is the index of an array element. -/
structure Operand.Follows (S : Setting σ) (o : Operand σ) (ph : Phrase) : Prop where
  expr : o.expr = ph.expr
  write : Prints S o.write () (fun _ => ph.text) ph.expr.reads
  element : ∀ name index, o.element = some (name, index) →
    ∃ text, ph.element = some (name, text) ∧ Prints S index () (fun _ => text) ph.expr.reads

/-- The target language has this vocabulary in the setting. -/
structure ExprDialect.Follows (S : Setting σ) (p : Phrasing) (d : ExprDialect σ) : Prop where
  types : d.types = p.types
  qualifiers : d.qualifiers = p.qualifiers
  names : d.variableNames = S.names
  table : S.table = p.variableNames
  call : ∀ callee args phrases, List.Forall₂ (Operand.Follows S) args phrases →
    Prints S (d.call callee args) () (fun _ => p.call callee phrases)
      (callee = sampleFunction || phrases.any fun ph => ph.expr.reads)

namespace ExprDialect

variable {S : Setting σ} {p : Phrasing} {d : ExprDialect σ}

/-- A call by a name, with the texts of the arguments. -/
lemma prints_callNamed (name : String) {args : List (Operand σ)} {phrases : List Phrase}
    (h : List.Forall₂ (Operand.Follows S) args phrases) :
    Prints S (callNamed name args) () (fun _ => calledBy name phrases)
      (phrases.any fun ph => ph.expr.reads) := by
  have hargs : List.Forall₂ (fun m (q : String × Bool) => Prints S m () (fun _ => q.1) q.2)
      (args.map Operand.write) (phrases.map fun ph => (ph.text, ph.expr.reads)) := by
    rw [List.forall₂_map_left_iff, List.forall₂_map_right_iff]
    exact h.imp fun o ph ho => ho.write
  refine .of_eq (.bind (.write _) (.bind (.separated ", " hargs) (.write _))) (fun n => ?_) ?_
  · simp [calledBy, Function.comp_def, String.append_assoc]
  · simp [Function.comp_def]

lemma prints_callMapped (functions : NameTable) (callee : String) {args : List (Operand σ)}
    {phrases : List Phrase} (h : List.Forall₂ (Operand.Follows S) args phrases) :
    Prints S (callMapped functions callee args) () (fun _ => mappedCall functions callee phrases)
      (phrases.any fun ph => ph.expr.reads) := by
  unfold callMapped mappedCall
  rw [h.length_eq]
  split <;> exact prints_callNamed _ h

lemma Follows.variableName (hd : d.Follows S p) (name : String) :
    Prints S (d.variableName name) (p.variableNames.get name) (fun _ => "") false := by
  refine .get fun w hw => ?_
  rw [hd.names, hw.table, hd.table]
  exact .pure _

lemma Follows.typeName (hd : d.Follows S p) (type : ShaderType) :
    Prints S (d.typeName type) (p.types.get type.name) (fun _ => "") false :=
  hd.types ▸ .mapped _ _

lemma Follows.qualifier (hd : d.Follows S p) (key : String) :
    Prints S (d.qualifier key) (p.qualifiers.get key) (fun _ => "") false :=
  hd.qualifiers ▸ .mapped _ _

lemma Follows.operand (hd : d.Follows S p) (e : Expr) : (d.operand e).Follows S (e.phrase p) := by
  -- nothing but an array element has a second way to be written
  have hplain : ∀ {e : Expr}, (d.operand e).element = none →
      Prints S (d.expr e) () (fun _ => e.text p) e.reads →
      (d.operand e).Follows S (e.phrase p) := by
    intro e hnone he
    exact ⟨rfl, he, by simp [hnone]⟩
  induction e using Expr.inductOn with
  | absent =>
    refine hplain rfl ?_
    rw [ExprDialect.expr]
    exact .throw _
  | ident name ref =>
    refine hplain rfl ?_
    rw [ExprDialect.expr]
    refine .get fun w _ => ?_
    dsimp only
    split
    · exact .throw_bind _ _
    · refine .of_eq (.bind (hd.variableName name) (.write _)) (fun n => ?_) rfl
      simp [Expr.text]
  | literal text kind =>
    refine hplain rfl ?_
    rw [ExprDialect.expr]
    exact .of_eq (.write text) (fun n => by simp [Expr.text]) rfl
  | call callee args ih =>
    refine hplain rfl ?_
    rw [ExprDialect.expr, operands_eq_map]
    have hargs :
        List.Forall₂ (Operand.Follows S) (args.map d.operand) (args.map (Expr.phrase p)) := by
      rw [List.forall₂_map_left_iff, List.forall₂_map_right_iff, List.forall₂_same]
      exact ih
    refine .of_eq (hd.call callee _ _ hargs) (fun n => ?_) ?_
    · rw [Expr.text, Expr.phrases_eq_map]
    · simp [Expr.reads, Expr.parts, Expr.isRead, Expr.partsOf_eq_flatMap, Expr.phrase,
        List.any_flatMap, Function.comp_def]
  | binary op x y hx hy =>
    refine hplain rfl ?_
    rw [ExprDialect.expr]
    refine .of_eq (.bind (.write _) (.bind hx.write (.bind (.write _) (.bind hy.write (.write _)))))
      (fun n => ?_) ?_
    · simp [Expr.text, Expr.phrase, String.append_assoc]
    · simp [Expr.reads, Expr.parts, Expr.isRead, Expr.phrase]
  | unary op x hx =>
    refine hplain rfl ?_
    rw [ExprDialect.expr]
    refine .of_eq (.bind (.write _) hx.write) (fun n => ?_) ?_
    · simp [Expr.text, Expr.phrase]
    · simp [Expr.reads, Expr.parts, Expr.isRead, Expr.phrase]
  | assign op lhs rhs hl hr =>
    refine hplain rfl ?_
    rw [ExprDialect.expr]
    refine .of_eq (.bind hl.write (.bind (.write _) hr.write)) (fun n => ?_) ?_
    · simp [Expr.text, Expr.phrase, String.append_assoc]
    · simp [Expr.reads, Expr.parts, Expr.isRead, Expr.phrase]
  | member x field hx =>
    refine hplain rfl ?_
    rw [ExprDialect.expr]
    refine .of_eq (.bind hx.write (.write _)) (fun n => ?_) ?_
    · simp [Expr.text, Expr.phrase]
    · simp [Expr.reads, Expr.parts, Expr.isRead, Expr.phrase]
  | index x i hx hi =>
    refine ⟨rfl, ?_, ?_⟩
    · show Prints S (d.expr (.index x i)) () _ _
      rw [ExprDialect.expr]
      refine .of_eq (.bind hx.write (.bind (.write _) (.bind hi.write (.write _)))) (fun n => ?_) ?_
      · simp [Expr.text, Expr.phrase, String.append_assoc]
      · simp [Expr.reads, Expr.parts, Expr.isRead, Expr.phrase]
    · intro name index hindex
      unfold ExprDialect.operand at hindex
      split at hindex
      · rename_i ref j heq
        obtain ⟨rfl, rfl⟩ := Expr.index.inj heq
        obtain ⟨rfl, rfl⟩ := Prod.mk.inj (Option.some.inj hindex)
        refine ⟨_, rfl, .of_eq hi.write (fun _ => rfl) ?_⟩
        simp [Expr.reads, Expr.parts, Expr.isRead, Expr.phrase]
      · simp at hindex

lemma Follows.expr (hd : d.Follows S p) (e : Expr) :
    Prints S (d.expr e) () (fun _ => e.text p) e.reads := (hd.operand e).write

lemma Follows.exprText (hd : d.Follows S p) (e : Expr) :
    Prints S (d.exprText e) (e.text p) (fun _ => "") e.reads := .captured (hd.expr e)

/-! ### Declarations -/

lemma Follows.defineConstant (hd : d.Follows S p) (v : VarDecl) :
    Prints S (d.defineConstant v) () (fun n => lineAt n (v.constantText p)) v.init.reads := by
  unfold ExprDialect.defineConstant
  dsimp only
  split
  · exact .throw_bind _ _
  · refine .of_eq (.bind (hd.qualifier _) (.bind (hd.exprText _) (.bind (hd.variableName _)
      (.writeLine _)))) (fun n => ?_) (by simp)
    simp [VarDecl.constantText]

lemma Follows.varDeclText (hd : d.Follows S p) (v : VarDecl) :
    Prints S (d.varDeclText v) (v.text p) (fun _ => "") v.init.reads := by
  unfold ExprDialect.varDeclText VarDecl.text
  cases hinit : v.init.isAbsent with
  | true =>
    simp only [if_true, String.append_empty]
    exact .of_eq (.bind (hd.typeName _) (.bind (hd.qualifier _) (.bind (hd.variableName _)
      (.pure _)))) (fun _ => rfl) (v.init.reads_of_isAbsent hinit).symm
  | false =>
    simp only [Bool.false_eq_true, if_false, ← String.append_assoc]
    exact .of_eq (.bind (hd.typeName _) (.bind (hd.qualifier _) (.bind (hd.variableName _)
      (.bind (hd.exprText _) (.pure _))))) (fun _ => rfl) (by simp)

lemma Follows.varDecl (hd : d.Follows S p) (v : VarDecl) :
    Prints S (d.varDecl v) () (fun n => lineAt n (v.text p ++ ";")) v.init.reads :=
  .of_eq (.bind (hd.varDeclText v) (.writeLine _)) (fun _ => by simp) (by simp)

/-! ### Blocks -/

lemma prints_compound (d : ExprDialect σ) {body : Emit σ Unit} {t : Nat → String} {r : Bool}
    (hbody : Prints S body () t r) :
    Prints S (d.compound body) () (fun n => bracedAt n (t (n + 1))) r := by
  have hdisarm : Prints S (modify fun w => { w with entry := w.entry.disarmed } : Emit σ Unit) ()
      (fun _ => "") false := by
    intro w b v hw hv
    obtain ⟨-, rfl⟩ := Prod.mk.inj hv
    have hentry : w.entry.disarmed = w.entry := by
      rw [EntryMark.disarmed, ← hw.calm.entry]
    exact ⟨rfl, by simp [hentry]⟩
  unfold compound
  refine .get fun w hw => ?_
  simp only [hw.calm.entry, Bool.false_eq_true, if_false]
  exact .of_eq (.bind hdisarm hbody.braces) (fun _ => by simp) (by simp)

/-- The body of the entry point: the accumulator is initialized, then the body has it for its own,
and at the end it is returned. -/
lemma Follows.entryBody (hd : d.Follows S p) (hS : S.scope.accumulator = "") {mark : EntryMark}
    {body : Emit σ Unit} {t : Nat → String} {r : Bool}
    (hbody : Prints (S.collecting mark.accumulator) body () t r) :
    Prints S (d.entryBody mark body) () (fun n => bracedAt n (lineAt (n + 1) mark.init ++
      t (n + 1) ++
        lineAt (n + 1) ("return " ++ p.variableNames.get mark.accumulator ++ ";"))) r := by
  have hinner : Prints S (do
      modify fun w => { w with accumulator := mark.accumulator }
      body.andThen fun w => { w with accumulator := "" } : Emit σ Unit) () t r := by
    refine .inSetting hbody (fun w hw => ⟨⟨hw.calm.function, rfl, hw.calm.entry⟩, hw.table⟩)
      (fun _ => rfl) fun w text r hw => ?_
    rw [← hS, ← hw.calm.accumulator]
    rfl
  rw [entryBody_eq]
  refine .of_eq (.braces (.bind (.writeLine _) (.bind hinner (.bind (hd.variableName _)
    (.writeLine _))))) (fun n => ?_) (by simp)
  simp only [String.append_assoc, String.empty_append]

end ExprDialect

/-! ### Statements -/

structure StmtDialect.Follows (S : Setting σ) (p : Phrasing) (d : StmtDialect σ) : Prop
    extends ExprDialect.Follows S p d.toExprDialect where
  declare : ∀ v, Prints S (d.declare v) () (fun n => lineAt n (v.localText p)) v.init.reads
  discard : d.discard = p.discard

namespace StmtDialect

variable {S : Setting σ} {p : Phrasing} {d : StmtDialect σ}

lemma Follows.loopStart (hd : d.Follows S p) (s : Stmt) :
    Prints S (d.loopStart s) () (fun _ => s.start p) s.reads := by
  cases s with
  | absent => exact .pure ()
  | decl v =>
    exact .of_eq (.bind (hd.varDeclText v) (.write _)) (fun _ => by simp [Stmt.start])
      (by simp [Stmt.reads, Stmt.exprs, Expr.reads])
  | expr x => exact hd.expr x
  | _ => exact .throw _

lemma Follows.optional (hd : d.Follows S p) (e : Expr) :
    Prints S (d.optional e) () (fun _ => e.text p) e.reads := by
  unfold StmtDialect.optional
  split
  · rename_i habsent
    exact .of_eq (.pure ()) (fun _ => (e.text_of_isAbsent habsent).symm)
      (e.reads_of_isAbsent habsent).symm
  · exact hd.expr e

lemma prints_stmts {ss : List Stmt}
    (h : ∀ s ∈ ss, Prints S (d.stmt s) () (s.lines p S.result) s.reads) :
    Prints S (d.stmts ss) () (fun n => Stmt.linesOf p S.result n ss)
      ((Stmt.exprsOf ss).any Expr.isRead) := by
  induction ss with
  | nil =>
    rw [stmts]
    exact .of_eq (.pure ()) (fun _ => by rw [Stmt.linesOf]) (by simp [Stmt.exprsOf])
  | cons s ss ih =>
    rw [stmts]
    refine .of_eq (.bind (h s List.mem_cons_self)
      (ih fun s' hs' => h s' (List.mem_cons_of_mem _ hs'))) (fun n => ?_) ?_
    · rw [Stmt.linesOf]
    · simp [Stmt.exprsOf, Stmt.reads]

/-- A statement prints its lines, and as a branch it stands between braces. -/
lemma Follows.stmt_branch (hd : d.Follows S p) (s : Stmt) :
    Prints S (d.stmt s) () (fun n => s.lines p S.result n) s.reads ∧
      Prints S (d.branch s) () (fun n => bracedAt n (s.inBraces (s.contents p S.result (n + 1))
        (s.lines p S.result (n + 1)))) s.reads := by
  -- whatever is no block gets braces of its own as a branch
  have hwhole : ∀ {s : Stmt}, (∀ contents whole, s.inBraces contents whole = whole) →
      d.branch s = Emit.braces (d.stmt s) →
      Prints S (d.stmt s) () (fun n => s.lines p S.result n) s.reads →
      Prints S (d.stmt s) () (fun n => s.lines p S.result n) s.reads ∧
        Prints S (d.branch s) () (fun n => bracedAt n (s.inBraces (s.contents p S.result (n + 1))
          (s.lines p S.result (n + 1)))) s.reads := by
    intro s hinside hbranch hs
    refine ⟨hs, hbranch ▸ .of_eq hs.braces (fun n => ?_) rfl⟩
    rw [hinside]
  have hbreak : ∀ text : String, text ++ ";" ++ "\n" = text ++ ";\n" := fun text => by
    rw [String.append_assoc]
    rfl
  induction s using Stmt.inductOn with
  | absent =>
    refine hwhole (fun _ _ => rfl) rfl ?_
    rw [stmt]
    exact .throw _
  | block ss ih =>
    have hss := prints_stmts fun s hs => (ih s hs).1
    have hreads : (Stmt.exprsOf ss).any Expr.isRead = (Stmt.block ss).reads := by
      rw [Stmt.reads, Stmt.exprs]
    constructor
    · rw [stmt]
      refine .of_eq (.bind .writeIndent (.bind (d.prints_compound hss) (.write _))) (fun n => ?_) ?_
      · rw [Stmt.lines, String.append_assoc]
      · simp [hreads]
    · refine .of_eq (d.prints_compound (hreads ▸ hss)) (fun n => ?_) rfl
      simp only [Stmt.inBraces, Stmt.contents]
  | decl v =>
    refine hwhole (fun _ _ => rfl) rfl ?_
    rw [stmt]
    refine .of_eq (hd.declare v) (fun n => ?_) ?_
    · rw [Stmt.lines]
    · rw [Stmt.reads, Stmt.exprs, Expr.reads]
  | expr x =>
    refine hwhole (fun _ _ => rfl) rfl ?_
    rw [stmt]
    refine .of_eq (.bind .writeIndent (.bind (hd.expr x) (.write _))) (fun n => ?_) ?_
    · rw [Stmt.lines, lineAt, hbreak]
    · simp [Stmt.reads, Stmt.exprs, Expr.reads]
  | returns value =>
    refine hwhole (fun _ _ => rfl) rfl ?_
    rw [stmt]
    cases hvalue : value.isAbsent with
    | true =>
      have hbare : Prints S (do
          let acc := (← get).accumulator
          if acc = "" then Emit.write "return;\n"
          else Emit.write ("return " ++ (← d.variableName acc) ++ ";\n") : Emit σ Unit) ()
          (fun _ => bareReturn S.result ++ "\n") false := by
        refine .get fun w hw => ?_
        rw [hw.calm.accumulator, Setting.result]
        dsimp only
        split
        · exact .write _
        · refine .of_eq (.bind (hd.variableName _) (.write _)) (fun n => ?_) rfl
          rw [bareReturn, hbreak, hd.table, String.empty_append]
      refine .of_eq (.bind .writeIndent hbare) (fun n => ?_) ?_
      · rw [Stmt.lines, if_pos hvalue]
        rfl
      · simpa [Stmt.reads, Stmt.exprs, Expr.reads] using (value.reads_of_isAbsent hvalue).symm
    | false =>
      refine .of_eq (.bind .writeIndent (.bind (.write _) (.bind (hd.expr value) (.write _))))
        (fun n => ?_) ?_
      · rw [Stmt.lines, hvalue, lineAt, if_neg Bool.false_ne_true, hbreak, String.append_assoc]
      · simp [Stmt.reads, Stmt.exprs, Expr.reads]
  | ifElse cond yes no hyes helse =>
    refine hwhole (fun _ _ => rfl) rfl ?_
    rw [stmt]
    cases hno : no.isAbsent with
    | true =>
      refine .of_eq (.bind .writeIndent (.bind (.write _) (.bind (hd.expr cond) (.bind (.write _)
        (.bind hyes.2 (.write _)))))) (fun n => ?_) ?_
      · simp only [Stmt.lines, lineAt, hno, if_true, String.append_assoc, String.empty_append]
      · simp [Stmt.reads, Stmt.exprs, Expr.reads, no.exprs_of_isAbsent hno]
    | false =>
      refine .of_eq (.bind .writeIndent (.bind (.write _) (.bind (hd.expr cond) (.bind (.write _)
        (.bind hyes.2 (.bind (.write _) (.bind helse.2 (.write _)))))))) (fun n => ?_) ?_
      · simp [Stmt.lines, lineAt, hno, String.append_assoc]
      · simp [Stmt.reads, Stmt.exprs, Expr.reads]
  | loop init cond post body hinit hbody =>
    refine hwhole (fun _ _ => rfl) rfl ?_
    rw [stmt]
    refine .of_eq (.bind .writeIndent (.bind (.write _) (.bind (hd.loopStart init) (.bind (.write _)
      (.bind (hd.optional cond) (.bind (.write _) (.bind (hd.optional post) (.bind (.write _)
      (.bind hbody.2 (.write _)))))))))) (fun n => ?_) ?_
    · simp [Stmt.lines, lineAt, String.append_assoc]
    · simp [Stmt.reads, Stmt.exprs, Expr.reads]
  | discard =>
    refine hwhole (fun _ _ => rfl) rfl ?_
    rw [stmt]
    exact .of_eq (.writeLine _) (fun n => by rw [Stmt.lines, hd.discard]) rfl
  | breakLoop =>
    refine hwhole (fun _ _ => rfl) rfl ?_
    rw [stmt]
    exact .of_eq (.writeLine _) (fun n => by rw [Stmt.lines]) rfl
  | continueLoop =>
    refine hwhole (fun _ _ => rfl) rfl ?_
    rw [stmt]
    exact .of_eq (.writeLine _) (fun n => by rw [Stmt.lines]) rfl

lemma Follows.stmts (hd : d.Follows S p) (ss : List Stmt) :
    Prints S (d.stmts ss) () (fun n => Stmt.linesOf p S.result n ss)
      ((Stmt.exprsOf ss).any Expr.isRead) :=
  prints_stmts fun s _ => (hd.stmt_branch s).1

/-! ### Functions -/

/-- Outside all blocks a function reads as it is rendered. One that is not the entry point has
nothing to hand back. -/
lemma Follows.funcWithSignature (hd : d.Follows S p) (hS : S.scope.accumulator = "")
    (signature : String) (f : FuncDef) {w v : Writer σ} (hw : S.Holds w) (hdepth : w.depth = 0)
    (h : (d.funcWithSignature signature f).exec w = (.ok (), v)) :
    v.out = w.out ++ f.text p signature ∧ v.own = S.note f.reads w.own := by
  have hstmts := hd.stmts f.body
  rw [show S.result = none from if_pos hS] at hstmts
  obtain ⟨-, rfl⟩ := Emit.Prints.bind .writeIndent (.bind (.write _)
    (.bind (d.prints_compound hstmts) (.write _))) w () v hw h
  simp [Setting.behind, hdepth, FuncDef.reads, FuncDef.text, Emit.indentation, String.append_assoc]

/-- Behind its mark a function is the entry point, whose body collects a result under the name in
the mark. -/
lemma Follows.entryPoint (hd : d.Follows S p) (hS : S.scope.accumulator = "") {mark : EntryMark}
    (hmark : mark.armed = true) (hbody : d.Follows (S.collecting mark.accumulator) p)
    (signature : String) (f : FuncDef) {w v : Writer σ} (hw : S.Holds w) (hdepth : w.depth = 0)
    (h : (do modify fun w => { w with entry := mark }; d.funcWithSignature signature f :
      Emit σ Unit).exec w = (.ok (), v)) :
    v.out = w.out ++ f.framedText p signature mark.init (S.collecting mark.accumulator).result
        ("return " ++ p.variableNames.get mark.accumulator ++ ";") ∧
      v.own = S.note f.reads w.own := by
  rw [d.funcWithSignature_armed mark hmark, Emit.exec_bind_of_ok (Emit.exec_modify _ w)] at h
  obtain ⟨-, rfl⟩ := Emit.Prints.bind .writeIndent (.bind (.write _)
    (.bind (hd.entryBody hS (hbody.stmts f.body)) (.write _)))
    { w with entry := mark.disarmed } () v
    ⟨⟨hw.calm.function, hw.calm.accumulator, rfl⟩, hw.table⟩ h
  simp [Setting.behind, hdepth, FuncDef.reads, FuncDef.framedText, Emit.indentation,
    String.append_assoc]

end StmtDialect

end Shaderwright
