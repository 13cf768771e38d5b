import Mathlib.Data.List.Forall2
import Mathlib.Order.Defs.Unbundled
import Mathlib.Tactic.Common
import Shaderwright.Proofs.Emit.Discipline

/-!
Steps that do nothing but put a text behind the output, from every state of the writer. What they
give and what they write does not depend on the output, so that steps can be written one by one and
their texts joined. A target language writes its expressions by such steps as soon as its own calls
are such steps.
-/

namespace Shaderwright

variable {σ α β : Type} {R : σ → σ → Prop}

namespace Emit

/-- Whatever the output is, a step gives the same result and puts the same text behind it. Nothing
else changes but the own state, and that by `R`. -/
def Appends (R : σ → σ → Prop) (m : Emit σ α) : Prop :=
  ∀ w : Writer σ, ∃ (r : Except Fault α) (text : String) (own : σ), R w.own own ∧
    ∀ out, m.exec { w with out := out } = (r, { w with out := out ++ text, own := own })

namespace Appends

lemma get {k : Writer σ → Emit σ α} (hk : ∀ w, Appends R (k w))
    (hsame : ∀ w out, k { w with out := out } = k w) : Appends R (MonadState.get >>= k) := by
  intro w
  obtain ⟨r, text, own, hown, hexec⟩ := hk w w
  refine ⟨r, text, own, hown, fun out => ?_⟩
  rw [exec_bind_of_ok (exec_get _), hsame]
  exact hexec out

lemma captured {m : Emit σ Unit} (hm : Appends R m) : Appends R (Emit.captured m) := by
  intro w
  obtain ⟨r, text, own, hown, hexec⟩ := hm w
  refine ⟨r.map fun _ => text, "", own, hown, fun out => ?_⟩
  rw [exec_captured, hexec ""]
  cases r <;> simp [Except.map]

variable [IsPreorder σ R]

lemma pure (a : α) : Appends R (Pure.pure a : Emit σ α) :=
  fun w => ⟨.ok a, "", w.own, refl_of R _, fun out => by simp⟩

lemma throw (e : Fault) : Appends R (MonadExcept.throw e : Emit σ α) :=
  fun w => ⟨.error e, "", w.own, refl_of R _, fun out => by simp⟩

lemma bind {m : Emit σ α} {k : α → Emit σ β} (hm : Appends R m) (hk : ∀ a, Appends R (k a)) :
    Appends R (m >>= k) := by
  intro w
  obtain ⟨r, text, own, hown, hexec⟩ := hm w
  cases r with
  | error e =>
    refine ⟨.error e, text, own, hown, fun out => ?_⟩
    rw [exec_bind, hexec]
  | ok a =>
    obtain ⟨r', text', own', hown', hexec'⟩ := hk a { w with own := own }
    refine ⟨r', text ++ text', own', trans_of R hown hown', fun out => ?_⟩
    rw [exec_bind_of_ok (hexec out), ← String.append_assoc]
    exact hexec' (out ++ text)

lemma write (text : String) : Appends R (Emit.write text : Emit σ Unit) :=
  fun w => ⟨.ok (), text, w.own, refl_of R _, fun _ => rfl⟩

lemma separated (separator : String) {steps : List (Emit σ Unit)}
    (h : ∀ m ∈ steps, Appends R m) : Appends R (Emit.separated separator steps) := by
  induction steps with
  | nil => exact pure ()
  | cons m rest ih =>
    rw [List.forall_mem_cons] at h
    cases rest with
    | nil => exact h.1
    | cons n rest => exact bind h.1 fun _ => bind (write separator) fun _ => ih h.2

lemma forM {m : α → Emit σ Unit} {xs : List α} (h : ∀ x ∈ xs, Appends R (m x)) :
    Appends R (xs.forM m) := by
  induction xs with
  | nil => exact pure ()
  | cons x xs ih =>
    rw [List.forall_mem_cons] at h
    exact bind h.1 fun _ => ih h.2

end Appends

end Emit

/-! ### Expressions -/

/-- An argument is written by such a step, and so is the index of an array element. -/
structure Operand.Appends (R : σ → σ → Prop) (o : Operand σ) : Prop where
  write : Emit.Appends R o.write
  element : ∀ name index, o.element = some (name, index) → Emit.Appends R index

/-- Calls are such steps if their arguments are. -/
def ExprDialect.Appends (R : σ → σ → Prop) (d : ExprDialect σ) : Prop :=
  ∀ callee args, (∀ o ∈ args, Operand.Appends R o) → Emit.Appends R (d.call callee args)

namespace ExprDialect

variable [IsPreorder σ R] {d : ExprDialect σ}

lemma appends_callNamed (name : String) {args : List (Operand σ)}
    (h : ∀ o ∈ args, o.Appends R) : Emit.Appends R (callNamed name args) := by
  refine .bind (.write _) fun _ => .bind (.separated ", " ?_) fun _ => .write _
  intro step hstep
  obtain ⟨o, ho, rfl⟩ := List.mem_map.mp hstep
  exact (h o ho).write

lemma appends_callMapped (functions : NameTable) (callee : String) {args : List (Operand σ)}
    (h : ∀ o ∈ args, o.Appends R) : Emit.Appends R (callMapped functions callee args) := by
  unfold callMapped
  split
  · exact appends_callNamed _ h
  · exact appends_callNamed _ h

lemma appends_variableName (d : ExprDialect σ) (name : String) :
    Emit.Appends R (d.variableName name) :=
  .get (fun _ => .pure _) fun _ _ => rfl

lemma Appends.operand (hd : d.Appends R) (e : Expr) : (d.operand e).Appends R := by
  -- nothing but an array element has a second way to be written
  have hplain : ∀ {e : Expr}, (d.operand e).element = none → Emit.Appends R (d.expr e) →
      (d.operand e).Appends R := by
    intro e hnone he
    exact ⟨he, by simp [hnone]⟩
  induction e using Expr.inductOn with
  | absent =>
    refine hplain rfl ?_
    rw [ExprDialect.expr]
    exact .throw _
  | ident name ref =>
    refine hplain rfl ?_
    rw [ExprDialect.expr]
    refine .get (fun w => ?_) fun _ _ => rfl
    dsimp only
    split
    · exact .bind (.throw _) fun _ => .bind (d.appends_variableName name) fun _ => .write _
    · exact .bind (d.appends_variableName name) fun _ => .write _
  | literal text kind =>
    refine hplain rfl ?_
    rw [ExprDialect.expr]
    exact .write text
  | call callee args ih =>
    refine hplain rfl ?_
    rw [ExprDialect.expr, operands_eq_map]
    apply hd
    intro o ho
    obtain ⟨arg, harg, rfl⟩ := List.mem_map.mp ho
    exact ih arg harg
  | binary op x y hx hy =>
    refine hplain rfl ?_
    rw [ExprDialect.expr]
    exact .bind (.write _) fun _ => .bind hx.write fun _ => .bind (.write _) fun _ =>
      .bind hy.write fun _ => .write _
  | unary op x hx =>
    refine hplain rfl ?_
    rw [ExprDialect.expr]
    exact .bind (.write _) fun _ => hx.write
  | assign op lhs rhs hl hr =>
    refine hplain rfl ?_
    rw [ExprDialect.expr]
    exact .bind hl.write fun _ => .bind (.write _) fun _ => hr.write
  | member x field hx =>
    refine hplain rfl ?_
    rw [ExprDialect.expr]
    exact .bind hx.write fun _ => .write _
  | index x i hx hi =>
    refine ⟨?_, ?_⟩
    · show Emit.Appends R (d.expr (.index x i))
      rw [ExprDialect.expr]
      exact .bind hx.write fun _ => .bind (.write _) fun _ => .bind hi.write fun _ => .write _
    · intro name index hindex
      unfold ExprDialect.operand at hindex
      split at hindex
      · rename_i heq
        obtain ⟨-, rfl⟩ := Expr.index.inj heq
        obtain ⟨-, rfl⟩ := Prod.mk.inj (Option.some.inj hindex)
        exact hi.write
      · simp at hindex

lemma Appends.expr (hd : d.Appends R) (e : Expr) : Emit.Appends R (d.expr e) :=
  (hd.operand e).write

end ExprDialect

/-! ### The text of a step -/

namespace Emit

/-- From a state a step succeeds and puts a text behind the output. -/
def WritesAt (w : Writer σ) (m : Emit σ Unit) (text : String) : Prop :=
  m.exec w = (.ok (), { w with out := w.out ++ text })

/-- Where a step succeeds it has a text, and behind any other output it has the same. -/
lemma Appends.exec_eq_ok {m : Emit σ Unit} (hm : Appends Eq m) {w v : Writer σ} (out : String) :
    m.exec { w with out := out } = (.ok (), v) ↔
      ∃ text, WritesAt w m text ∧ v = { w with out := out ++ text } := by
  obtain ⟨r, text, own, rfl, hexec⟩ := hm w
  have hhere : m.exec w = (r, { w with out := w.out ++ text }) := hexec w.out
  constructor
  · intro h
    rw [hexec] at h
    obtain ⟨rfl, rfl⟩ := Prod.mk.inj h
    exact ⟨text, hhere, rfl⟩
  · rintro ⟨text', htext', rfl⟩
    obtain ⟨rfl, hw⟩ := Prod.mk.inj (hhere.symm.trans htext')
    obtain rfl : text = text' := by simpa using congrArg Writer.out hw
    exact hexec out

lemma writesAt_pure {w : Writer σ} {t : String} : WritesAt w (Pure.pure ()) t ↔ t = "" := by
  refine ⟨fun h => ?_, fun h => by simp [WritesAt, h]⟩
  have hout : w.out = w.out ++ t := congrArg Writer.out (Prod.mk.inj h).2
  rw [← String.append_empty (s := w.out), String.append_assoc, String.append_right_inj] at hout
  simpa using hout.symm

lemma writesAt_write {w : Writer σ} {text t : String} :
    WritesAt w (write text) t ↔ t = text := by
  simp [WritesAt, eq_comm]

/-- Two steps write their texts one behind the other. -/
lemma writesAt_seq {m m' : Emit σ Unit} (hm : Appends Eq m) (hm' : Appends Eq m') {w : Writer σ}
    {text : String} :
    WritesAt w (m >>= fun _ => m') text ↔
      ∃ t t', WritesAt w m t ∧ WritesAt w m' t' ∧ text = t ++ t' := by
  unfold WritesAt
  rw [exec_bind_eq_ok]
  constructor
  · rintro ⟨_, u, hu, hv⟩
    obtain ⟨t, ht, rfl⟩ := (hm.exec_eq_ok w.out).mp hu
    obtain ⟨t', ht', heq⟩ := (hm'.exec_eq_ok _).mp hv
    have htext : w.out ++ text = w.out ++ t ++ t' := congrArg Writer.out heq
    rw [String.append_assoc, String.append_right_inj] at htext
    exact ⟨t, t', ht, ht', htext⟩
  · rintro ⟨t, t', ht, ht', rfl⟩
    refine ⟨(), _, ht, ?_⟩
    rw [← String.append_assoc]
    exact (hm'.exec_eq_ok _).mpr ⟨t', ht', rfl⟩

/-- Steps with a separator between them write what each of them writes on its own. -/
lemma writesAt_separated (separator : String) {steps : List (Emit σ Unit)}
    (h : ∀ m ∈ steps, Appends Eq m) {w : Writer σ} {text : String} :
    WritesAt w (Emit.separated separator steps) text ↔
      ∃ texts, List.Forall₂ (WritesAt w) steps texts ∧ text = Text.joinWith separator texts := by
  induction steps generalizing text with
  | nil => simp [Emit.separated, writesAt_pure, Text.joinWith]
  | cons m rest ih =>
    rw [List.forall_mem_cons] at h
    cases rest with
    | nil => simp [Emit.separated, List.forall₂_cons_left_iff, Text.joinWith]
    | cons n rest =>
      have hrest : Appends Eq (Emit.separated separator (n :: rest)) := .separated separator h.2
      rw [Emit.separated, writesAt_seq h.1 (.bind (.write _) fun _ => hrest)]
      swap
      · simp
      constructor
      · rintro ⟨t, t', ht, hbehind, rfl⟩
        obtain ⟨s, t'', hs, hothers, rfl⟩ := (writesAt_seq (.write _) hrest).mp hbehind
        obtain rfl := writesAt_write.mp hs
        obtain ⟨texts, htexts, rfl⟩ := (ih h.2).mp hothers
        refine ⟨t :: texts, .cons ht htexts, ?_⟩
        cases htexts
        exact (String.append_assoc ..).symm
      · rintro ⟨texts, htexts, rfl⟩
        cases htexts with | @cons _ t _ texts ht htexts =>
        refine ⟨t, separator ++ Text.joinWith separator texts, ht,
          (writesAt_seq (.write _) hrest).mpr ⟨_, _, writesAt_write.mpr rfl,
            (ih h.2).mpr ⟨texts, htexts, rfl⟩, rfl⟩, ?_⟩
        cases htexts
        exact String.append_assoc ..

end Emit

end Shaderwright
