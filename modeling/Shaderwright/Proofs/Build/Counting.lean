import Mathlib.Tactic.Common
import Shaderwright.Build.World

/-!
What a build step counts. Where counting is on, a step adds to the counts behind those that are
there, and what it adds goes with its answer.
-/

namespace Shaderwright

/-- The target language of a counter. -/
def Counter.target : Counter → String
  | compiled target => target
  | binding target _ => target
  | merged target => target
  | failed target => target

def Counter.isBinding (target : String) : Counter → Bool
  | binding t _ => t = target
  | _ => false

namespace Build

variable {α β : Type}

/-- From every world in which is counted, the step adds counts that fit to its answer, and counting
stays on. -/
def Counts (m : Build α) (p : α → List Counter → Prop) : Prop :=
  ∀ w : World, w.counting = true →
    (m w).2.counting = true ∧ ∃ cs, (m w).2.counts = w.counts ++ cs ∧ p (m w).1 cs

namespace Counts

variable {p : α → List Counter → Prop} {q : β → List Counter → Prop}

lemma mono {p' : α → List Counter → Prop} {m : Build α} (hm : Counts m p)
    (h : ∀ a cs, p a cs → p' a cs) : Counts m p' := by
  intro w hw
  obtain ⟨hcounting, cs, hcs, hp⟩ := hm w hw
  exact ⟨hcounting, cs, hcs, h _ cs hp⟩

lemma of_counts {m : Build α} (hm : ∀ w, (m w).2.counting = w.counting ∧
    (m w).2.counts = w.counts ∧ p (m w).1 []) : Counts m p := by
  intro w hw
  obtain ⟨hcounting, hcounts, hp⟩ := hm w
  exact ⟨hcounting.trans hw, [], by rw [hcounts, List.append_nil], hp⟩

lemma pure {a : α} (h : p a []) : Counts (Pure.pure a) p :=
  of_counts fun _ => ⟨rfl, rfl, h⟩

lemma bind {m : Build α} {k : α → Build β} (hm : Counts m p)
    (hk : ∀ a cs, p a cs → Counts (k a) fun b cs' => q b (cs ++ cs')) : Counts (m >>= k) q := by
  intro w hw
  obtain ⟨hcounting, cs, hcs, hp⟩ := hm w hw
  obtain ⟨hcounting', cs', hcs', hq⟩ := hk _ cs hp _ hcounting
  refine ⟨hcounting', cs ++ cs', ?_, hq⟩
  rw [← List.append_assoc, ← hcs]
  exact hcs'

lemma map {m : Build α} {g : α → β} (hm : Counts m fun a cs => q (g a) cs) :
    Counts (g <$> m) q := hm

lemma behind {m : Build α} {k : α → Build β} (hm : Counts m fun _ cs => cs = [])
    (hk : ∀ a, Counts (k a) q) : Counts (m >>= k) q :=
  hm.bind fun a cs hcs => by rw [hcs]; exact hk a

lemma get {k : World → Build β} (hk : ∀ w, Counts (k w) q) : Counts (MonadState.get >>= k) q :=
  fun w hw => hk w w hw

lemma log (level : LogLevel) (message : String) (attributes : List (String × LogValue)) :
    Counts (Build.log level message attributes) fun _ cs => cs = [] :=
  of_counts fun _ => ⟨rfl, rfl, rfl⟩

lemma logIf {c : Prop} [Decidable c] {level : LogLevel} {message : String}
    {attributes : List (String × LogValue)} {k : Build β} (hk : Counts k q) :
    Counts (if c then Build.log level message attributes >>= fun _ => k else k) q := by
  split
  · exact behind (log _ _ _) fun _ => hk
  · exact hk

lemma setFiles (t : FileTree) : Counts (Build.setFiles t) fun _ cs => cs = [] :=
  of_counts fun _ => ⟨rfl, rfl, rfl⟩

lemma count (c : Counter) : Counts (Build.count c) fun _ cs => cs = [c] := by
  intro w hw
  have hrun : Build.count c w = ((), { w with counts := w.counts ++ [c] }) := by
    show ((), if w.counting then { w with counts := w.counts ++ [c] } else w) = _
    rw [if_pos hw]
  rw [hrun]
  exact ⟨hw, [c], rfl, rfl⟩

lemma counted {c : Counter} {k : Unit → Build β}
    (hk : Counts (k ()) fun b cs => q b (c :: cs)) : Counts (Build.count c >>= k) q :=
  (count c).bind fun _ cs hcs => by rw [hcs]; exact hk

lemma forM (g : α → Counter) (xs : List α) :
    Counts (xs.forM fun x => Build.count (g x)) fun _ cs => cs = xs.map g := by
  induction xs with
  | nil => exact pure rfl
  | cons x xs ih =>
    exact counted (ih.mono fun _ cs hcs => by rw [hcs, List.map_cons])

end Counts

end Build

end Shaderwright
