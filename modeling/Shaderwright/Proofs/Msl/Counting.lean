import Mathlib.Tactic.Common
import Shaderwright.Proofs.Build.Counting
import Shaderwright.Proofs.Build.Step
import Shaderwright.Proofs.Msl.Recording

/-!
What a compile to MSL counts, and what a flush does: a shader that succeeds is counted with its
uniforms and always recorded, and every header that cannot be written is a failure.
-/

namespace Shaderwright

open Build (Counts)

namespace Msl

def Output.counts (out : Output) : List Counter :=
  .merged "msl" :: (out.uniforms.map fun u => .binding "msl" (uniformCategory u)) ++
    [.compiled "msl"]

lemma counts_recordMetadata {l : Library} (hl : l.Ready) {shader : String} (h : shader ≠ "")
    (v : Variant) (us : List Uniform) :
    Counts (recordMetadata l shader v us) fun l' cs => cs = [.merged "msl"] ∧ l'.Ready := by
  obtain ⟨hok, hready⟩ := hl.record h v us
  unfold recordMetadata
  rcases hrecord : l.record shader v us with ⟨r, l'⟩
  rw [hrecord] at hok hready
  cases hok
  exact .counted (.pure ⟨rfl, hready⟩)

def resultCounts : Except Failure Output → List Counter
  | .error _ => []
  | .ok out => out.counts

lemma counts_compile (o : Options) {l : Library} (hl : l.Ready) (s : Option Shader) :
    Counts (compile o (some l) s) fun r cs =>
      cs = resultCounts r.1 ∧ ∃ l', r.2 = some l' ∧ l'.Ready := by
  unfold compile
  dsimp only
  split
  · exact .pure ⟨rfl, l, rfl, hl⟩
  · rename_i text own ht
    have hname : (s.map Shader.name).getD "" ≠ "" := by
      cases s with
      | none => cases ht
      | some s => exact (translate_eq_ok.mp ht).1
    refine ((counts_recordMetadata hl hname _ own.uniforms).bind
      (k := fun l' => Pure.pure (some l')) (q := fun r cs =>
        cs = [.merged "msl"] ∧ ∃ l', r = some l' ∧ l'.Ready) fun l' cs hcs => .pure ?_).bind
      fun r cs hcs => (Counts.forM _ own.uniforms).bind fun _ cs' hcs' =>
        .counted (.pure ⟨?_, hcs.2⟩)
    · simpa using hcs
    · simp [resultCounts, Output.counts, hcs.1, hcs']

end Msl

/-! ### Headers of a library -/

def errorOf? {ε α : Type} : Except ε α → Option ε
  | .error e => some e
  | .ok _ => none

/-- Write texts to their paths one after another, and collect the errors. -/
def FileTree.storeAll (t : FileTree) : List (String × String) → List FileError × FileTree
  | [] => ([], t)
  | x :: rest =>
    let stored := t.store x.1 x.2
    ((errorOf? stored.1).toList ++ (stored.2.storeAll rest).1, (stored.2.storeAll rest).2)

lemma FileTree.storeAll_append (t : FileTree) (xs ys : List (String × String)) :
    t.storeAll (xs ++ ys) = ((t.storeAll xs).1 ++ ((t.storeAll xs).2.storeAll ys).1,
      ((t.storeAll xs).2.storeAll ys).2) := by
  induction xs generalizing t with
  | nil => rfl
  | cons x xs ih =>
    rw [List.cons_append, storeAll, storeAll]
    dsimp only
    rw [ih, List.append_assoc]

namespace Msl

/-- The header of a platform with its path, if a shader was recorded for it. -/
def Library.variantHeader? (l : Library) (dir : String) (v : Variant) : Option (String × String) :=
  match l.document? v, l.metadataHeaders.lookup v with
  | some doc, some name => some (Path.join dir name, doc.text)
  | _, _ => none

/-- The headers of a library with their paths in a directory, in the order in which they are
written. -/
def Library.headers (l : Library) (dir : String) : List (String × String) :=
  (if l.common = "" then [] else [(Path.join dir l.commonHeader, l.common)]) ++
    Variant.all.filterMap (l.variantHeader? dir)

/-- The step writes these texts, gives an error for each of them that cannot be written, and counts
no more than that. -/
structure Writes (m : Build (List FlushError)) (headers : List (String × String)) : Prop where
  errors : ∀ w, (m w).1 = (w.files.storeAll headers).1.map .file
  files : ∀ w, (m w).2.files = (w.files.storeAll headers).2
  counts : Counts m fun errors cs => cs = errors.map fun _ => .failed "msl"

namespace Writes

lemma nil : Writes (pure []) [] := ⟨fun _ => rfl, fun _ => rfl, .pure rfl⟩

lemma append {m m' : Build (List FlushError)} {xs ys : List (String × String)} (hm : Writes m xs)
    (hm' : Writes m' ys) : Writes (do return (← m) ++ (← m')) (xs ++ ys) where
  errors w := by
    rw [FileTree.storeAll_append, List.map_append, ← hm.errors, ← hm.files, ← hm'.errors]
    simp only [Build.bind_apply, Build.pure_apply]
  files w := by
    rw [FileTree.storeAll_append, ← hm.files, ← hm'.files]
    simp only [Build.bind_apply, Build.pure_apply]
  counts := by
    refine hm.counts.bind fun a cs hcs => hm'.counts.bind fun b cs' hcs' => .pure ?_
    rw [hcs, hcs', List.append_nil, List.map_append]

lemma writeHeader (dir name text : String) :
    Writes (Option.toList <$> Library.writeHeader dir name text) [(Path.join dir name, text)] where
  errors w := by
    rw [FileTree.storeAll, FileTree.storeAll, Build.map_apply]
    unfold Library.writeHeader
    simp only [Build.bind_apply, Build.get_apply, Build.setFiles_apply]
    generalize w.files.store (Path.join dir name) text = stored
    obtain ⟨e | _, t⟩ := stored <;> rfl
  files w := by
    rw [FileTree.storeAll, FileTree.storeAll, Build.map_apply]
    unfold Library.writeHeader
    simp only [Build.bind_apply, Build.get_apply, Build.setFiles_apply]
    generalize w.files.store (Path.join dir name) text = stored
    obtain ⟨e | _, t⟩ := stored
    · simp [Library.writeHeader.failed]
    · rfl
  counts := by
    refine .map ?_
    unfold Library.writeHeader
    refine .get fun w => .behind (.setFiles _) fun _ => ?_
    split
    · exact .behind (.log _ _ _) fun _ => .counted (.pure rfl)
    · exact .behind (.log _ _ _) fun _ => .pure rfl

lemma writeVariant {l : Library} (hl : l.Ready) (dir : String) (v : Variant) :
    Writes (Option.toList <$> l.writeVariant dir v) (l.variantHeader? dir v).toList := by
  obtain ⟨name, hname⟩ := hl.named v
  unfold Library.writeVariant Library.variantHeader?
  rw [hname]
  rcases l.document? v with _ | doc
  · exact nil
  · exact writeHeader dir name doc.text

/-- A flush writes all headers, whether the ones before could be written or not. -/
lemma flush {l : Library} (hl : l.Ready) (dir : String) :
    Writes (l.flush dir) (l.headers dir) := by
  have hcommon : Writes
      (Option.toList <$> if l.common = "" then pure none
        else Library.writeHeader dir l.commonHeader l.common)
      (if l.common = "" then [] else [(Path.join dir l.commonHeader, l.common)]) := by
    split
    · exact nil
    · exact writeHeader dir l.commonHeader l.common
  have hall := hcommon.append ((writeVariant hl dir .macOS).append (writeVariant hl dir .iOS))
  have hfound : ∀ a b c : Option FlushError,
      [a, b, c].filterMap id = a.toList ++ (b.toList ++ c.toList) := by
    intro a b c
    cases a <;> cases b <;> cases c <;> rfl
  have hheaders : Variant.all.filterMap (l.variantHeader? dir) =
      (l.variantHeader? dir .macOS).toList ++ (l.variantHeader? dir .iOS).toList := by
    rw [Variant.all]
    cases hmac : l.variantHeader? dir .macOS <;> cases hios : l.variantHeader? dir .iOS <;>
      simp [hmac, hios]
  rw [Library.headers, hheaders]
  convert hall using 1
  funext w
  unfold Library.flush
  split <;> simp only [Variant.all, List.mapM_cons, List.mapM_nil, Build.bind_apply,
    Build.pure_apply, Build.map_apply, hfound]

end Writes

end Msl

/-! ### Totals -/

lemma Msl.Output.target_of_mem_counts {out : Msl.Output} {c : Counter} (h : c ∈ out.counts) :
    c.target = "msl" := by
  simp only [Msl.Output.counts, List.mem_cons, List.mem_append, List.mem_map, List.not_mem_nil,
    or_false] at h
  obtain (rfl | ⟨u, -, rfl⟩) | rfl := h <;> rfl

namespace Msl.Output

variable (out : Msl.Output)

lemma count_compiled : out.counts.count (.compiled "msl") = [out].length := by
  simp [counts, List.count_eq_zero]

lemma count_merged : out.counts.count (.merged "msl") = [out].length := by
  simp [counts, List.count_eq_zero]

lemma countP_isBinding : out.counts.countP (Counter.isBinding "msl") = out.uniforms.length := by
  simp [counts, Counter.isBinding]

end Msl.Output

end Shaderwright
