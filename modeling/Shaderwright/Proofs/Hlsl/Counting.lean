import Mathlib.Tactic.Common
import Shaderwright.Proofs.Build.Counting
import Shaderwright.Proofs.Hlsl.Compile

/-!
What a compile to HLSL counts: a shader that succeeds with its bindings, and whether its header
could be merged.
-/

namespace Shaderwright

open Build (Counts)

lemma Path.join_ne_empty {dir : String} (h : dir ≠ "") (name : String) :
    Path.join dir name ≠ "" := by
  have hclean : ∀ path, Path.clean path ≠ "" := by
    intro path
    unfold Path.clean
    dsimp only
    split
    · simp
    · split
      · decide
      · assumption
  unfold Path.join
  split
  · rename_i hnone
    simp [h] at hnone
  · exact hclean _

namespace Hlsl

/-- What the header of a shader adds to the counts: nothing if there is no directory for it, and
otherwise a failure if it has no path. -/
def headerCounts (dir path : String) : List Counter :=
  if dir = "" then [] else if path = "" then [.failed "hlsl"] else [.merged "hlsl"]

def Output.counts (dir : String) (out : Output) : List Counter :=
  headerCounts dir out.headerPath ++
    (out.bindings.map fun b => .binding "hlsl" b.category.text) ++ [.compiled "hlsl"]

lemma counts_mergeHeaders (p : HeaderPlace) (shader : String) (bs : List Binding) :
    Counts (mergeHeaders p shader bs) fun r cs =>
      cs = [] ∧ ∀ path, r = .ok path → path = p.targetPath := by
  unfold mergeHeaders
  refine .get fun w => .behind (.setFiles _) fun _ => ?_
  split
  · exact .pure ⟨rfl, by simp⟩
  · generalize FileTree.merge _ _ _ _ _ = merge
    obtain ⟨files, report, error⟩ := merge
    cases error <;>
      exact .logIf (.behind (.setFiles _) fun _ => .logIf (.pure ⟨rfl, by simp⟩))

lemma counts_recordHeaders (o : Options) (shader : String) (bs : List Binding) :
    Counts (recordHeaders o shader bs) fun path cs =>
      cs = headerCounts o.headerDir path ∧ (o.headerDir = "" → path = "") := by
  unfold recordHeaders
  split
  · rename_i hdir
    exact .pure ⟨by simp [headerCounts, hdir], fun _ => rfl⟩
  · rename_i hdir
    refine (counts_mergeHeaders _ shader bs).bind ?_
    rintro (⟨path, e⟩ | path) cs ⟨rfl, hpath⟩
    · exact .behind (.log _ _ _) fun _ => .counted (.pure ⟨by simp [headerCounts, hdir],
        fun _ => rfl⟩)
    · have hne : path ≠ "" := by
        rw [hpath path rfl]
        exact Path.join_ne_empty hdir _
      exact .counted (.pure ⟨by simp [headerCounts, hdir, hne], fun h => absurd h hdir⟩)

lemma counts_finish (o : Options) (shader : String) (code : Code) :
    Counts (finish o shader code) fun out cs =>
      cs = out.counts o.headerDir ∧ (o.headerDir = "" → out.headerPath = "") := by
  refine (counts_recordHeaders o shader code.bindings).bind fun path cs hcs => ?_
  refine (Counts.forM _ code.bindings).bind fun _ cs' hcs' => .counted (.pure ⟨?_, hcs.2⟩)
  simp [Output.counts, hcs.1, hcs']

/-- A shader that fails adds nothing to the counts. -/
def resultCounts (dir : String) : Except Failure Output → List Counter
  | .error _ => []
  | .ok out => out.counts dir

/-- A compile counts a shader that succeeds, and nothing else. Without a directory for it there is
no header. -/
lemma counts_compile (o : Options) (s : Option Shader) :
    Counts (compile o s) fun r cs =>
      cs = resultCounts o.headerDir r ∧
        ∀ out, r = .ok out → o.headerDir = "" → out.headerPath = "" := by
  have hfinish := fun name code => (counts_finish o name code).bind
    (k := fun out => (Pure.pure (.ok out) : Build (Except Failure Output)))
    (q := fun r cs => cs = resultCounts o.headerDir r ∧
      ∀ out, r = .ok out → o.headerDir = "" → out.headerPath = "")
    fun out cs hcs => .pure (by simpa [resultCounts] using hcs)
  unfold compile
  split
  · exact .pure ⟨rfl, by simp⟩
  · dsimp only
    split
    · exact hfinish _ _
    · split
      · exact .pure ⟨rfl, by simp⟩
      · exact .behind (.log _ _ _) fun _ => hfinish _ _

end Hlsl

/-! ### Totals -/

lemma Hlsl.Output.target_of_mem_counts {dir : String} {out : Hlsl.Output} {c : Counter}
    (h : c ∈ out.counts dir) : c.target = "hlsl" := by
  simp only [Hlsl.Output.counts, Hlsl.headerCounts, List.mem_append, List.mem_map,
    List.mem_singleton] at h
  obtain (h | ⟨b, -, rfl⟩) | rfl := h
  · split_ifs at h <;> simp_all [Counter.target]
  · rfl
  · rfl

namespace Hlsl.Output

variable (dir : String) (out : Hlsl.Output)

lemma count_counts (c : Counter) : (out.counts dir).count c =
    (headerCounts dir out.headerPath).count c +
      out.bindings.countP (fun b => .binding "hlsl" b.category.text = c) +
      [Counter.compiled "hlsl"].count c := by
  rw [counts, List.count_append, List.count_append, List.count, List.countP_map]
  rfl

lemma count_headerCounts_of_ne {path : String} {c : Counter} (hmerged : c ≠ .merged "hlsl")
    (hfailed : c ≠ .failed "hlsl") : (headerCounts dir path).count c = 0 := by
  unfold headerCounts
  split_ifs <;> simp [hmerged.symm, hfailed.symm]

lemma count_compiled : (out.counts dir).count (.compiled "hlsl") = [out].length := by
  rw [count_counts, count_headerCounts_of_ne] <;> simp

lemma count_binding (label : String) : (out.counts dir).count (.binding "hlsl" label) =
    out.bindings.countP (·.category.text = label) := by
  rw [count_counts, count_headerCounts_of_ne] <;> simp

lemma count_merged (h : dir = "" → out.headerPath = "") :
    (out.counts dir).count (.merged "hlsl") = [out].countP (·.headerPath ≠ "") := by
  rw [count_counts, headerCounts]
  by_cases hdir : dir = ""
  · simp [hdir, h hdir]
  · by_cases hpath : out.headerPath = "" <;> simp [hdir, hpath]

lemma count_failed : (out.counts dir).count (.failed "hlsl") =
    [out].countP fun out => dir ≠ "" ∧ out.headerPath = "" := by
  rw [count_counts, headerCounts]
  by_cases hdir : dir = ""
  · simp [hdir]
  · by_cases hpath : out.headerPath = "" <;> simp [hdir, hpath]

end Hlsl.Output

end Shaderwright
