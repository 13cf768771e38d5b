import Mathlib.Tactic.Common
import Shaderwright.Build.World

/-!
How a build step acts on the world: one equation for each way to put steps together, and what
the log and the counters leave alone.
-/

namespace Shaderwright.Build

variable {α β : Type}

@[simp] lemma pure_apply (a : α) (w : World) : (pure a : Build α) w = (a, w) := rfl

@[simp] lemma bind_apply (m : Build α) (k : α → Build β) (w : World) :
    (m >>= k) w = k (m w).1 (m w).2 := rfl

@[simp] lemma map_apply (f : α → β) (m : Build α) (w : World) :
    (f <$> m) w = (f (m w).1, (m w).2) := rfl

@[simp] lemma get_apply (w : World) : (get : Build World) w = (w, w) := rfl

@[simp] lemma setFiles_apply (t : FileTree) (w : World) :
    setFiles t w = ((), { w with files := t }) := rfl

@[simp] lemma log_files (level : LogLevel) (message : String)
    (attributes : List (String × LogValue)) (w : World) :
    (log level message attributes w).2.files = w.files := rfl

@[simp] lemma count_files (c : Counter) (w : World) : (count c w).2.files = w.files := by
  show (if w.counting then { w with counts := w.counts ++ [c] } else w).files = w.files
  split <;> rfl

lemma forM_files {f : α → Build Unit} (hf : ∀ a w, (f a w).2.files = w.files) (as : List α)
    (w : World) : (as.forM f w).2.files = w.files := by
  induction as generalizing w with
  | nil => rfl
  | cons a as ih => exact (ih _).trans (hf a w)

@[simp] lemma forM_count_files (f : α → Counter) (xs : List α) (w : World) :
    ((xs.forM fun x => count (f x)) w).2.files = w.files :=
  forM_files (fun x => count_files (f x)) xs w

end Shaderwright.Build
