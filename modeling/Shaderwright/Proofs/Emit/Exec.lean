import Mathlib.Tactic.Common
import Shaderwright.Emit.Expr

/-!
What the elementary steps of a writer do to its state, one equation for each.
-/

namespace Shaderwright.Emit

variable {σ α β : Type}

lemma ext {m m' : Emit σ α} (h : ∀ w, m.exec w = m'.exec w) : m = m' := funext h

@[simp] lemma exec_pure (a : α) (w : Writer σ) : (pure a : Emit σ α).exec w = (.ok a, w) := rfl

@[simp] lemma exec_throw (e : Fault) (w : Writer σ) :
    (throw e : Emit σ α).exec w = (.error e, w) := rfl

@[simp] lemma exec_get (w : Writer σ) : (get : Emit σ (Writer σ)).exec w = (.ok w, w) := rfl

@[simp] lemma exec_modify (f : Writer σ → Writer σ) (w : Writer σ) :
    (modify f : Emit σ Unit).exec w = (.ok (), f w) := rfl

lemma exec_bind (m : Emit σ α) (k : α → Emit σ β) (w : Writer σ) :
    (m >>= k).exec w =
      match m.exec w with
      | (.ok a, v) => (k a).exec v
      | (.error e, v) => (.error e, v) := by
  show StateT.run (ExceptT.run (m >>= k)) w = _
  rw [ExceptT.run_bind, StateT.run_bind]
  unfold exec
  rcases StateT.run (ExceptT.run m) w with ⟨_ | _, _⟩ <;> rfl

lemma exec_bind_of_ok {m : Emit σ α} {w v : Writer σ} {a : α} (h : m.exec w = (.ok a, v))
    (k : α → Emit σ β) : (m >>= k).exec w = (k a).exec v := by
  rw [exec_bind, h]

lemma exec_bind_eq_ok {m : Emit σ α} {k : α → Emit σ β} {w v : Writer σ} {b : β} :
    (m >>= k).exec w = (.ok b, v) ↔
      ∃ a u, m.exec w = (.ok a, u) ∧ (k a).exec u = (.ok b, v) := by
  rw [exec_bind]
  rcases m.exec w with ⟨e | a, u⟩ <;> simp

@[simp] lemma exec_write (text : String) (w : Writer σ) :
    (write text : Emit σ Unit).exec w = (.ok (), { w with out := w.out ++ text }) := rfl

@[simp] lemma exec_writeIndent (w : Writer σ) :
    (writeIndent : Emit σ Unit).exec w =
      (.ok (), { w with out := w.out ++ indentation w.depth }) := rfl

@[simp] lemma exec_writeLine (text : String) (w : Writer σ) :
    (writeLine text : Emit σ Unit).exec w =
      (.ok (), { w with out := w.out ++ indentation w.depth ++ (text ++ "\n") }) := rfl

@[simp] lemma exec_pushIndent (w : Writer σ) :
    (pushIndent : Emit σ Unit).exec w = (.ok (), { w with depth := w.depth + 1 }) := rfl

@[simp] lemma exec_popIndent (w : Writer σ) :
    (popIndent : Emit σ Unit).exec w = (.ok (), { w with depth := w.depth - 1 }) := rfl

@[simp] lemma exec_andThen (m : Emit σ α) (f : Writer σ → Writer σ) (w : Writer σ) :
    (m.andThen f).exec w = ((m.exec w).1, f (m.exec w).2) := rfl

@[simp] lemma exec_capture (m : Emit σ α) (w : Writer σ) :
    (capture m).exec w =
      (.ok ((m.exec { w with out := "" }).2.out, (m.exec { w with out := "" }).1),
        { (m.exec { w with out := "" }).2 with out := w.out }) := rfl

/-- The text of a step is what it writes on an empty output. -/
lemma exec_captured (m : Emit σ Unit) (w : Writer σ) :
    (captured m).exec w =
      match m.exec { w with out := "" } with
      | (.ok (), v) => (.ok v.out, { v with out := w.out })
      | (.error e, v) => (.error e, { v with out := w.out }) := by
  unfold captured
  rw [exec_bind, exec_capture]
  rcases m.exec { w with out := "" } with ⟨e | u, v⟩ <;> rfl

lemma exec_indented (m : Emit σ Unit) (w : Writer σ) :
    (do pushIndent; m; popIndent : Emit σ Unit).exec w =
      match m.exec { w with depth := w.depth + 1 } with
      | (.ok _, v) => (.ok (), { v with depth := v.depth - 1 })
      | (.error e, v) => (.error e, v) := by
  rw [exec_bind_of_ok (exec_pushIndent w), exec_bind]
  rcases m.exec { w with depth := w.depth + 1 } with ⟨e | _, v⟩ <;> rfl

lemma braces_eq (m : Emit σ Unit) :
    braces m = (do
      write "\x7b\n"
      (do pushIndent; m; popIndent : Emit σ Unit)
      writeIndent
      write "\x7d") := by
  simp only [braces, bind_assoc]

end Shaderwright.Emit

namespace Shaderwright.ExprDialect

variable {σ : Type}

lemma exec_mapped_eq_ok {t : NameTable} {key value : String} {w v : Writer σ} :
    (mapped t key : Emit σ String).exec w = (.ok value, v) ↔ t.get? key = some value ∧ w = v := by
  unfold mapped
  rcases t.get? key with _ | value' <;> simp

@[simp] lemma exec_variableName (d : ExprDialect σ) (name : String) (w : Writer σ) :
    (d.variableName name).exec w = (.ok ((d.variableNames w.own).get name), w) := rfl

end Shaderwright.ExprDialect
