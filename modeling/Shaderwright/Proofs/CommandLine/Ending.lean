import Mathlib.Tactic.Common
import Shaderwright.CommandLine.Run
import Shaderwright.Proofs.Build.Step

/-!
Runs that succeed. A run is taken apart step by step: what it ends with, and in which state, is
what its parts end with, and an input that is compiled with an output directory has its code written
under the name of its shader.
-/

namespace Shaderwright.CommandLine

abbrev RunState := List Generated × World

/-- From this state the run succeeds with this result and in that state. -/
def Ends {α : Type} (m : Run α) (x : RunState) (a : α) (y : RunState) : Prop :=
  m.run x.1 x.2 = ((.ok a, y.1), y.2)

namespace Ends

variable {α β : Type} {x y : RunState}

lemma pure_iff {a b : α} : Ends (pure a) x b y ↔ b = a ∧ y = x := by
  show ((Except.ok a, x.1), x.2) = ((Except.ok b, y.1), y.2) ↔ _
  simp [Prod.ext_iff, eq_comm, and_assoc]

lemma not_throw {e : RunError} {a : α} : ¬ Ends (throw e) x a y := by
  show ¬ ((Except.error e, x.1), x.2) = ((Except.ok a, y.1), y.2)
  simp

lemma bind_iff {m : Run α} {k : α → Run β} {b : β} :
    Ends (m >>= k) x b y ↔ ∃ a z, Ends m x a z ∧ Ends (k a) z b y := by
  have hbind : (m >>= k).run x.1 x.2 =
      ExceptT.bindCont k (m.run x.1 x.2).1.1 (m.run x.1 x.2).1.2 (m.run x.1 x.2).2 := rfl
  unfold Ends
  rw [hbind]
  rcases m.run x.1 x.2 with ⟨⟨e | a, gs⟩, w⟩
  · refine iff_of_false (fun h => ?_) (fun ⟨a, z, h, _⟩ => ?_)
    · cases h
    · cases h
  · constructor
    · intro h
      exact ⟨a, (gs, w), rfl, h⟩
    · rintro ⟨a', z, hm, h⟩
      cases hm
      exact h

lemma build_iff {m : Build α} {a : α} :
    Ends (Run.build m) x a y ↔ m x.2 = (a, y.2) ∧ y.1 = x.1 := by
  show ((Except.ok (m x.2).1, x.1), (m x.2).2) = ((Except.ok a, y.1), y.2) ↔ _
  obtain ⟨gs', w'⟩ := y
  constructor
  · intro h
    cases h
    exact ⟨rfl, rfl⟩
  · rintro ⟨h, rfl⟩
    rw [h]

lemma ofExcept_iff {ε : Type} {f : ε → RunError} {r : Except ε α} {a : α} :
    Ends (Run.ofExcept f r) x a y ↔ r = .ok a ∧ y = x := by
  cases r with
  | error e => exact iff_of_false not_throw (by simp)
  | ok b =>
    rw [Run.ofExcept, pure_iff, Except.ok.injEq, eq_comm]

lemma ofExcept_bind_iff {ε : Type} {f : ε → RunError} {r : Except ε α} {k : α → Run β} {b : β} :
    Ends (Run.ofExcept f r >>= k) x b y ↔ ∃ a, r = .ok a ∧ Ends (k a) x b y := by
  simp [bind_iff, ofExcept_iff, and_assoc]

lemma files_bind_iff {k : FileTree → Run β} {b : β} :
    Ends (Run.files >>= k) x b y ↔ Ends (k x.2.files) x b y := Iff.rfl

lemma modify_bind_iff {f : List Generated → List Generated} {k : Unit → Run β} {b : β} :
    Ends (modify f >>= k) x b y ↔ Ends (k ()) (f x.1, x.2) b y := Iff.rfl

lemma setFiles_bind_iff {t : FileTree} {k : Unit → Run β} {b : β} :
    Ends (Run.build (Build.setFiles t) >>= k) x b y ↔
      Ends (k ()) (x.1, { x.2 with files := t }) b y := Iff.rfl

end Ends

variable {x y : RunState} {target : Target} {s s' : Session} {input path code out : String}

/-! ### One input -/

lemma compileShader_hlsl_ends {shader : Shader}
    (h : Ends (compileShader .hlsl s input path shader) x (code, s') y) :
    ∃ o, s.compileHlsl (some shader) x.2 = (.ok o, y.2) ∧ code = o.text ∧ s' = s ∧ y.1 = x.1 := by
  obtain ⟨r, z, hcompile, hrest⟩ := Ends.bind_iff.mp h
  obtain ⟨o, rfl, hend⟩ := Ends.ofExcept_bind_iff.mp hrest
  obtain ⟨hresult, rfl⟩ := Ends.pure_iff.mp hend
  obtain ⟨hworld, hgenerated⟩ := Ends.build_iff.mp hcompile
  obtain ⟨rfl, rfl⟩ := Prod.mk.inj hresult
  exact ⟨o, hworld, rfl, rfl, hgenerated⟩

lemma compileShader_msl_ends {shader : Shader}
    (h : Ends (compileShader .msl s input path shader) x (code, s') y) :
    ∃ o, s.compileMsl (some shader) path x.2 = ((.ok o, s'), y.2) ∧ code = o.text ∧
      y.1 = x.1 := by
  obtain ⟨⟨r, s₁⟩, z, hcompile, hrest⟩ := Ends.bind_iff.mp h
  obtain ⟨o, rfl, hend⟩ := Ends.ofExcept_bind_iff.mp hrest
  obtain ⟨hresult, rfl⟩ := Ends.pure_iff.mp hend
  obtain ⟨hworld, hgenerated⟩ := Ends.build_iff.mp hcompile
  obtain ⟨rfl, rfl⟩ := Prod.mk.inj hresult
  exact ⟨o, hworld, rfl, hgenerated⟩

lemma writeCode_ends (hout : out ≠ "") {u : Unit}
    (h : Ends (writeCode out input path code) x u y) :
    x.2.files.write path code = .ok y.2.files ∧ y.1 = x.1 := by
  unfold writeCode at h
  rw [if_neg hout, Ends.files_bind_iff] at h
  obtain ⟨t, hwrite, hrest⟩ := Ends.ofExcept_bind_iff.mp h
  rw [Ends.setFiles_bind_iff] at hrest
  obtain ⟨hlog, hgenerated⟩ := Ends.build_iff.mp hrest
  have hfiles : y.2.files = t := by rw [← congrArg Prod.snd hlog, Build.log_files]
  exact ⟨hfiles ▸ hwrite, hgenerated⟩

/-- With an output directory, an input that is compiled has its code written under the name of its
shader. -/
lemma compileInput_ends (hout : out ≠ "") (h : Ends (compileInput target out s input) x s' y) :
    ∃ shader code z, Source.load x.2.files input = .ok shader ∧
      Ends (compileShader target s input (Path.join out (shader.name ++ target.ext)) shader) x
        (code, s') z ∧
      z.2.files.write (Path.join out (shader.name ++ target.ext)) code = .ok y.2.files ∧
      y.1 = z.1 ++ [⟨input, Path.join out (shader.name ++ target.ext), code⟩] := by
  unfold compileInput outputPath at h
  simp only [if_neg hout] at h
  rw [Ends.files_bind_iff] at h
  obtain ⟨shader, hload, hshader⟩ := Ends.ofExcept_bind_iff.mp h
  obtain ⟨⟨code, s₁⟩, z, hcompile, hcode⟩ := Ends.bind_iff.mp hshader
  obtain ⟨_, z', hwrite, hwritten⟩ := Ends.bind_iff.mp hcode
  obtain ⟨hwrite, hz'⟩ := writeCode_ends hout hwrite
  rw [Ends.modify_bind_iff] at hwritten
  obtain ⟨rfl, rfl⟩ := Ends.pure_iff.mp hwritten
  exact ⟨shader, code, z, hload, hcompile, hwrite, by rw [← hz']⟩

/-! ### A whole run -/

lemma makeOutputDirectory_ends (hout : out ≠ "") {u : Unit}
    (h : Ends (makeOutputDirectory out) x u y) :
    y = (x.1, { x.2 with files := (x.2.files.makeDirectories out).2 }) := by
  unfold makeOutputDirectory at h
  rw [if_neg hout, Ends.files_bind_iff, Ends.setFiles_bind_iff] at h
  exact (Ends.ofExcept_iff.mp h).2

lemma logSummary_files (w : World) : (logSummary w).2.files = w.files :=
  Build.forM_files (fun _ _ => rfl) w.report w

lemma finish_hlsl_ends {u : Unit} (h : Ends (finish .hlsl s) x u y) :
    y.1 = x.1 ∧ y.2.files = x.2.files := by
  obtain ⟨hlog, hgenerated⟩ := Ends.build_iff.mp h
  exact ⟨hgenerated, by rw [← congrArg Prod.snd hlog, logSummary_files]⟩

/-- At the end of a run for MSL the headers of the library are written, all of them. -/
lemma finish_msl_ends {u : Unit} (h : Ends (finish .msl s) x u y) :
    y.1 = x.1 ∧ (s.flush x.2).1 = [] ∧ y.2.files = (s.flush x.2).2.files := by
  obtain ⟨errors, z, hflush, hrest⟩ := Ends.bind_iff.mp h
  obtain ⟨hflush, hz⟩ := Ends.build_iff.mp hflush
  rw [hflush]
  dsimp only at hrest ⊢
  split at hrest
  · exact absurd hrest Ends.not_throw
  · rename_i hnone
    obtain ⟨hlog, hgenerated⟩ := Ends.build_iff.mp hrest
    refine ⟨hgenerated.trans hz, by simpa using hnone, ?_⟩
    rw [← congrArg Prod.snd hlog, logSummary_files]

lemma foldlM_cons_ends {σ α : Type} {f : σ → α → Run σ} {a : α} {as : List α} {b b' : σ}
    (h : Ends ((a :: as).foldlM f b) x b' y) :
    ∃ c z, Ends (f b a) x c z ∧ Ends (as.foldlM f c) z b' y := by
  rw [List.foldlM_cons] at h
  exact Ends.bind_iff.mp h

lemma compileAll_ends {fs : Flags} (hout : fs.out ≠ "") {inputs : List String} {u : Unit}
    (h : Ends (compileAll target fs s inputs) x u y) :
    ∃ s' z, Ends (inputs.foldlM (compileInput target fs.out) s)
        (x.1, { x.2 with files := (x.2.files.makeDirectories fs.out).2 }) s' z ∧
      Ends (finish target s') z () y := by
  obtain ⟨_, z, hmake, hrest⟩ := Ends.bind_iff.mp h
  obtain ⟨s', z', hinputs, hfinish⟩ := Ends.bind_iff.mp hrest
  rw [makeOutputDirectory_ends hout hmake] at hinputs
  exact ⟨s', z', hinputs, hfinish⟩

/-- A run without an error has a session in which all inputs are compiled. -/
lemma runRequest_ends {home : String} {files : FileTree} {fs : Flags} {inputs : List String}
    {o : Outcome} (hrun : runRequest home files (.compile target fs inputs) = o)
    (h : o.error? = none) :
    ∃ c s w, configOf home files fs = .ok c ∧ Session.new c = .ok s ∧
      Ends (compileAll target fs s inputs) ([], { files := files, counting := true }) ()
        (o.generated, w) ∧ w.files = o.files := by
  unfold runRequest compileCommand at hrun
  rcases hc : configOf home files fs with e | c
  · simp [← hrun, hc, bind, Except.bind] at h
  rcases ht : thresholdOf c fs with e | threshold
  · simp [← hrun, hc, ht, bind, Except.bind] at h
  rcases hs : Session.new c with e | s
  · simp [← hrun, hc, ht, hs, bind, Except.bind, Except.mapError] at h
  simp only [hc, ht, hs, bind, Except.bind, Except.mapError, pure, Except.pure, StateT.run] at hrun
  rcases hall : (compileAll target fs s inputs).run [] { files := files, counting := true } with
    ⟨⟨e | u, gs⟩, w⟩
  · rw [hall] at hrun
    simp [← hrun] at h
  · rw [hall] at hrun
    rw [← hrun]
    exact ⟨c, s, w, rfl, hs, hall, rfl⟩

end Shaderwright.CommandLine
