import Mathlib.Tactic.Common
import Shaderwright.Proofs.CommandLine.Ending
import Shaderwright.Proofs.FlushedHeaders
import Shaderwright.Proofs.Hlsl.HeaderHistory

/-!
Where a run with an output directory leaves its code. The files are named after the shaders, and a
later file takes the place of an earlier one without an error. Every input has its code in a file of
its own inside the directory if and only if the paths say so, and nothing but a header of a library
can come in between.
-/

namespace Shaderwright

open Shaderwright.Path

/-! ### What a compile does to the files -/

lemma Msl.compile_files (o : Msl.Options) (l : Msl.Library) (s : Option Shader) (w : World) :
    (Msl.compile o (some l) s w).2.files = w.files := by
  unfold Msl.compile
  rcases Msl.translate _ s with e | ⟨text, own⟩
  · rfl
  · have hrecord : ∀ (shader : String) (v : Msl.Variant),
        (Msl.recordMetadata l shader v own.uniforms w).2.files = w.files := by
      intro shader v
      unfold Msl.recordMetadata
      rcases l.record shader v own.uniforms with ⟨e | _, l'⟩ <;> simp
    simp only [Option.mapM_some, Build.bind_apply, Build.pure_apply, Build.map_apply,
      Build.count_files, Build.forM_count_files, hrecord]

namespace CommandLine

/-! ### Code files -/

def codePath (target : Target) (out name : String) : String := join out (name ++ target.ext)

lemma slash_notMem_ext (target : Target) : '/' ∉ target.ext.toList := by
  cases target <;> decide

lemma two_lt_length_ext (target : Target) : 2 < target.ext.length := by
  cases target <;> decide

lemma targetPath_ne_codePath {p : Hlsl.HeaderPlace} (hdir : p.dir ≠ "") {out : String}
    (hout : out ≠ "") (name : String) : p.targetPath ≠ codePath .hlsl out name := by
  intro he
  obtain ⟨front, last, hheader⟩ := destination_join_ending hdir p.target
    (show '/' ∉ "Resources.h".toList by decide) (by decide)
  obtain ⟨front', last', hcode⟩ := destination_join_ending hout name
    (slash_notMem_ext .hlsl) (two_lt_length_ext .hlsl)
  have hsame : destination p.targetPath = destination (codePath .hlsl out name) := by rw [he]
  have hends : last ++ "Resources.h" = last' ++ ".hlsl" := by
    have hlast := congrArg List.getLast? (hheader.symm.trans (hsame.trans hcode))
    simpa [Target.ext] using hlast
  have hletters := congrArg (fun s => s.toList.getLast?) hends
  simp [String.toList_append] at hletters

/-- A file keeps its text if it is code. -/
def KeepsCode (target : Target) (out : String) (t t' : FileTree) : Prop :=
  ∀ name text, t.read (codePath target out name) = .ok text →
    t'.read (codePath target out name) = .ok text

/-! ### One input -/

/-- The code of a target for a shader. -/
def Translates (target : Target) (c : Config) (shader : Shader) (code : String) : Prop :=
  match target with
  | .hlsl => ∃ o bs, c.hlsl.options = .ok o ∧ Hlsl.translate o (some shader) = .ok ⟨code, bs⟩
  | .msl => ∃ own, Msl.translate c.msl.commonHeader (some shader) = .ok (code, own)

/-- A session with this configuration, whatever it has recorded. -/
structure Follows (c : Config) (s : Session) : Prop where
  options : c.hlsl.options = .ok s.hlslOptions
  stocked : ∃ vs, s.Stocked c vs

lemma follows_of_new {c : Config} {s : Session} (h : Session.new c = .ok s) : Follows c s := by
  refine ⟨?_, [], Session.stocked_of_new h⟩
  obtain ⟨-, o, ho, rfl⟩ := Session.new_eq_ok.mp h
  exact ho

variable {target : Target} {c : Config} {s s' : Session} {input out path code : String}
  {x y : RunState}

lemma compileHlsl_eq_ok {shader : Shader} {w w' : World} {o : Hlsl.Output}
    (h : s.compileHlsl (some shader) w = (.ok o, w')) :
    ∃ v, Hlsl.compile s.hlslOptions (some shader) w = (.ok o, v) ∧ w'.files = v.files := by
  unfold Session.compileHlsl at h
  rw [Build.bind_apply] at h
  rcases hr : Hlsl.compile s.hlslOptions (some shader) w with ⟨e | o', v⟩
  · rw [hr] at h
    cases h
  · rw [hr] at h
    cases h
    exact ⟨v, rfl, rfl⟩

lemma compileMsl_eq_ok {shader : Shader} {w w' : World} {o : Msl.Output}
    (h : s.compileMsl (some shader) path w = ((.ok o, s'), w')) :
    (Msl.compile ⟨path, s.config.msl.iosMarker⟩ (some s.library) (some shader) w).1.1 = .ok o ∧
      s'.hlslOptions = s.hlslOptions ∧ w'.files = w.files := by
  have hfiles :=
    Msl.compile_files ⟨path, s.config.msl.iosMarker⟩ s.library (some shader) w
  unfold Session.compileMsl at h
  rw [Build.bind_apply] at h
  generalize Msl.compile ⟨path, s.config.msl.iosMarker⟩ (some s.library) (some shader) w = r
    at h hfiles ⊢
  obtain ⟨⟨e | o', library⟩, v⟩ := r
  · cases h
  · cases h
    exact ⟨rfl, rfl, hfiles⟩

/-- Compiling a shader gives its code and leaves all other code alone. -/
lemma compileShader_ends (hout : out ≠ "") (hs : Follows c s) {shader : Shader}
    (h : Ends (compileShader target s input path shader) x (code, s') y) :
    Translates target c shader code ∧ Follows c s' ∧
      KeepsCode target out x.2.files y.2.files ∧ y.1 = x.1 := by
  cases target with
  | hlsl =>
    obtain ⟨o, hcompile, rfl, rfl, hy⟩ := compileShader_hlsl_ends h
    obtain ⟨v, hcompile, hfiles⟩ := compileHlsl_eq_ok hcompile
    refine ⟨⟨s'.hlslOptions, o.bindings, hs.options, Hlsl.translate_of_compile hcompile⟩, hs, ?_,
      hy⟩
    intro name text hread
    rw [hfiles]
    exact Hlsl.read_compile hcompile hread (clean_join hout _) fun hdir =>
      targetPath_ne_codePath hdir hout name
  | msl =>
    obtain ⟨o, hcompile, rfl, hy⟩ := compileShader_msl_ends h
    obtain ⟨hout, hoptions, hfiles⟩ := compileMsl_eq_ok hcompile
    obtain ⟨vs, hstocked⟩ := hs.stocked
    obtain ⟨text, own, ht, rfl⟩ := Msl.translate_of_compile hout
    have hcommon : Msl.commonHeaderOf (some s.library) = c.msl.commonHeader :=
      hstocked.library.commonHeader
    rw [hcommon] at ht
    have hnext := hstocked.compileMsl (some shader) path x.2
    rw [hcompile] at hnext
    refine ⟨⟨own, ht⟩, ⟨by rw [hoptions, hs.options], _, hnext⟩, ?_, hy⟩
    intro name text hread
    rwa [hfiles]

/-! ### All inputs -/

/-- Inputs compiled one after another: each is loaded from the files that it finds, and its code is
written under the name of its shader while all other code stays as it is. -/
inductive Compiled (target : Target) (c : Config) (out : String) :
    FileTree → List Generated → List Shader → FileTree → Prop
  | nil (t : FileTree) : Compiled target c out t [] [] t
  | cons {t t₁ t₂ t' : FileTree} {g : Generated} {shader : Shader} {gs : List Generated}
    {shaders : List Shader} (load : Source.load t g.input = .ok shader)
    (code : Translates target c shader g.code) (path : g.path = codePath target out shader.name)
    (keeps : KeepsCode target out t t₁) (write : t₁.write g.path g.code = .ok t₂)
    (rest : Compiled target c out t₂ gs shaders t') :
    Compiled target c out t (g :: gs) (shader :: shaders) t'

lemma foldlM_compileInput_ends (hout : out ≠ "") {inputs : List String} (hs : Follows c s)
    (h : Ends (inputs.foldlM (compileInput target out) s) x s' y) :
    ∃ gs shaders, y.1 = x.1 ++ gs ∧ gs.map Generated.input = inputs ∧ Follows c s' ∧
      Compiled target c out x.2.files gs shaders y.2.files := by
  induction inputs generalizing s x with
  | nil =>
    obtain ⟨rfl, rfl⟩ := Ends.pure_iff.mp h
    exact ⟨[], [], by simp, rfl, hs, .nil _⟩
  | cons input inputs ih =>
    obtain ⟨s₁, z, hinput, hinputs⟩ := foldlM_cons_ends h
    obtain ⟨shader, code, z₁, hload, hcompile, hwrite, hz⟩ := compileInput_ends hout hinput
    obtain ⟨hcode, hs₁, hkeeps, hz₁⟩ := compileShader_ends hout hs hcompile
    obtain ⟨gs, shaders, hy, hgs, hs', hcompiled⟩ := ih hs₁ hinputs
    refine ⟨⟨input, codePath target out shader.name, code⟩ :: gs, shader :: shaders, ?_, ?_, hs',
      .cons hload hcode rfl hkeeps hwrite hcompiled⟩
    · rw [hy, hz, hz₁, List.append_assoc]
      rfl
    · rw [List.map_cons, hgs]

namespace Compiled

variable {t t' : FileTree} {gs : List Generated} {shaders : List Shader}

lemma paths (h : Compiled target c out t gs shaders t') :
    gs.map Generated.path = shaders.map fun shader => codePath target out shader.name := by
  induction h with
  | nil => rfl
  | cons _ _ path _ _ _ ih => rw [List.map_cons, List.map_cons, path, ih]

lemma exists_name (h : Compiled target c out t gs shaders t') {g : Generated} (hg : g ∈ gs) :
    ∃ shader ∈ shaders, g.path = codePath target out shader.name := by
  have hpath := List.mem_map_of_mem (f := Generated.path) hg
  rw [h.paths] at hpath
  obtain ⟨shader, hshader, he⟩ := List.mem_map.mp hpath
  exact ⟨shader, hshader, he.symm⟩

/-- A code file stays as it is while the code of other shaders is written. -/
lemma read_of_ne (hout : out ≠ "") (h : Compiled target c out t gs shaders t') {name text : String}
    (hr : t.read (codePath target out name) = .ok text)
    (hne : codePath target out name ∉ gs.map Generated.path) :
    t'.read (codePath target out name) = .ok text := by
  induction h with
  | nil => exact hr
  | cons _ _ path keeps write _ ih =>
    rw [List.map_cons, List.mem_cons, not_or] at hne
    refine ih (FileTree.read_write_of_clean_ne write (keeps name text hr) ?_) hne.2
    rw [path, codePath, codePath, clean_join hout, clean_join hout]
    exact fun he => hne.1 (by rw [path, codePath, codePath, he])

/-- From the path of an input the code is read that was written there last. -/
lemma exists_read (hout : out ≠ "") (h : Compiled target c out t gs shaders t') :
    ∀ g ∈ gs, ∃ g' ∈ gs, g'.path = g.path ∧ t'.read g.path = .ok g'.code := by
  induction h with
  | nil => simp
  | @cons _ _ _ _ g _ gs _ _ _ path _ write rest ih =>
    have hrest : ∀ g₁ ∈ gs, ∃ g' ∈ g :: gs, g'.path = g₁.path ∧ _ := fun g₁ hg₁ =>
      (ih g₁ hg₁).imp fun g' hg' => ⟨List.mem_cons_of_mem g hg'.1, hg'.2⟩
    rw [List.forall_mem_cons]
    refine ⟨?_, hrest⟩
    by_cases hlater : g.path ∈ gs.map Generated.path
    · obtain ⟨g₁, hg₁, he⟩ := List.mem_map.mp hlater
      rw [← he]
      exact hrest g₁ hg₁
    · refine ⟨g, List.mem_cons_self, rfl, ?_⟩
      have hwritten := FileTree.read_write write
      rw [path] at hwritten hlater ⊢
      exact rest.read_of_ne hout hwritten hlater

end Compiled

/-! ### Whole runs -/

/-- No header of a library is written where code is. -/
def HeadersApart (target : Target) (c : Config) (gs : List Generated) : Prop :=
  target = .msl → c.msl.headerDir ≠ "" →
    ∀ g ∈ gs, g.path ∉ c.msl.headerPaths Msl.Variant.all

lemma generated_finish {u : Unit} (h : Ends (finish target s) x u y) : y.1 = x.1 := by
  cases target with
  | hlsl => exact (finish_hlsl_ends h).1
  | msl => exact (finish_msl_ends h).1

/-- What can be read before the end of a run can be read behind it, unless it is a header. -/
lemma read_finish (hs : Follows c s) {u : Unit} (h : Ends (finish target s) x u y)
    (hr : x.2.files.read path = .ok code) (hclean : clean path = path)
    (hpath : target = .msl → c.msl.headerDir ≠ "" →
      path ∉ c.msl.headerPaths Msl.Variant.all) : y.2.files.read path = .ok code := by
  cases target with
  | hlsl => rwa [(finish_hlsl_ends h).2]
  | msl =>
    obtain ⟨vs, hstocked⟩ := hs.stocked
    rw [(finish_msl_ends h).2.2]
    exact hstocked.read_flush hr hclean (hpath rfl)

/-- The path leads strictly below the directory. -/
def Below (dir path : String) : Prop :=
  ∃ steps, steps ≠ [] ∧ (∀ step ∈ steps, Descends step) ∧
    destination path = destination dir ++ steps

/-- The code of every input lies inside the directory, apart from that of the others, and can be
read back. -/
structure KeptApart (out : String) (gs : List Generated) (t : FileTree) : Prop where
  inside : ∀ g ∈ gs, ∃ steps, steps ≠ [] ∧ (∀ step ∈ steps, Descends step) ∧
    t.place g.path = .ok (destination out ++ steps)
  apart : ∀ g ∈ gs, ∀ g' ∈ gs, g.input ≠ g'.input → t.place g.path ≠ t.place g'.path
  readBack : ∀ g ∈ gs, t.read g.path = .ok g.code

lemma keptApart_iff {gs : List Generated} {t : FileTree} (hclean : ∀ g ∈ gs, clean g.path = g.path)
    (hread : ∀ g ∈ gs, ∃ g' ∈ gs, g'.path = g.path ∧ t.read g.path = .ok g'.code) :
    KeptApart out gs t ↔
      (∀ g ∈ gs, Below out g.path) ∧ ∀ g ∈ gs, ∀ g' ∈ gs, g.path = g'.path → g = g' := by
  constructor
  · intro h
    refine ⟨fun g hg => ?_, fun g hg g' hg' hpath => ?_⟩
    · obtain ⟨steps, hne, hsteps, hplace⟩ := h.inside g hg
      exact ⟨steps, hne, hsteps, (FileTree.place_eq_ok hplace).symm⟩
    · have hinput : g.input = g'.input := by
        by_contra hne
        exact h.apart g hg g' hg' hne (by rw [hpath])
      have hcode := h.readBack g hg
      rw [hpath, h.readBack g' hg'] at hcode
      obtain ⟨input, path, code⟩ := g
      obtain ⟨input', path', code'⟩ := g'
      cases hcode
      cases hinput
      cases hpath
      rfl
  · rintro ⟨hbelow, hpaths⟩
    have hback : ∀ g ∈ gs, t.read g.path = .ok g.code := by
      intro g hg
      obtain ⟨g', hg', hpath, hr⟩ := hread g hg
      rwa [hpaths g' hg' g hg hpath] at hr
    have hplace : ∀ g ∈ gs, t.place g.path = .ok (destination g.path) := by
      intro g hg
      obtain ⟨q, hq, -⟩ := FileTree.read_eq_ok.mp (hback g hg)
      rw [hq, FileTree.place_eq_ok hq]
    refine ⟨fun g hg => ?_, fun g hg g' hg' hne he => hne ?_, hback⟩
    · obtain ⟨steps, hne, hsteps, he⟩ := hbelow g hg
      exact ⟨steps, hne, hsteps, he ▸ hplace g hg⟩
    · -- one place has one clean path
      have hsame := FileTree.clean_eq_of_place (he.trans (hplace g' hg')) (hplace g' hg')
      rw [hclean g hg, hclean g' hg'] at hsame
      rw [hpaths g hg g' hg' hsame]

/-- Names that do not climb lead below the directory. -/
lemma below_codePath (hout : out ≠ "") {name : String} (h : ".." ∉ descent (name ++ target.ext)) :
    Below out (codePath target out name) := by
  refine ⟨descent (name ++ target.ext), ?_, descends_of_mem_descent h, ?_⟩
  · exact descent_ending_ne_nil name (slash_notMem_ext target) (two_lt_length_ext target)
  · exact destination_join_of_stays hout (append_ending_ne_empty name (two_lt_length_ext target)) h

/-- Such names have one path only if they take the same steps. -/
lemma descent_eq_of_codePath (hout : out ≠ "") {name name' : String}
    (h : ".." ∉ descent (name ++ target.ext)) (h' : ".." ∉ descent (name' ++ target.ext))
    (he : codePath target out name = codePath target out name') :
    descent (name ++ target.ext) = descent (name' ++ target.ext) := by
  have hdest := destination_join_of_stays hout
    (append_ending_ne_empty name (two_lt_length_ext target)) h
  have hdest' := destination_join_of_stays hout
    (append_ending_ne_empty name' (two_lt_length_ext target)) h'
  have hsame := congrArg destination he
  rw [codePath, codePath, hdest, hdest'] at hsame
  exact List.append_cancel_left hsame

/-- A run without an error has compiled every input. Unless a header of a library is in the way, the
code of all inputs is kept inside the output directory and apart if and only if every path leads
below the directory and belongs to one input with one code. Shaders whose names do not climb lead
below it, and apart if they take different steps. -/
theorem outputs_kept_apart_iff {home : String} {files : FileTree} {target : Target} {fs : Flags}
    {inputs : List String} {o : Outcome}
    (hrun : runRequest home files (.compile target fs inputs) = o) (hok : o.error? = none)
    (hout : fs.out ≠ "") :
    ∃ c shaders t, configOf home files fs = .ok c ∧ o.generated.map Generated.input = inputs ∧
      Compiled target c fs.out (files.makeDirectories fs.out).2 o.generated shaders t ∧
      (HeadersApart target c o.generated →
        (KeptApart fs.out o.generated o.files ↔ (∀ g ∈ o.generated, Below fs.out g.path) ∧
          ∀ g ∈ o.generated, ∀ g' ∈ o.generated, g.path = g'.path → g = g')) ∧
      ((∀ shader ∈ shaders, ".." ∉ descent (shader.name ++ target.ext)) →
        (∀ g ∈ o.generated, Below fs.out g.path) ∧
          ((shaders.map fun shader => descent (shader.name ++ target.ext)).Nodup →
            ∀ g ∈ o.generated, ∀ g' ∈ o.generated, g.path = g'.path → g = g')) := by
  obtain ⟨c, s, w, hc, hs, hall, hfiles⟩ := runRequest_ends hrun hok
  obtain ⟨s', z, hinputs, hfinish⟩ := compileAll_ends hout hall
  obtain ⟨gs, shaders, hz, hgs, hs', hcompiled⟩ :=
    foldlM_compileInput_ends hout (follows_of_new hs) hinputs
  have hgenerated : o.generated = gs := (generated_finish hfinish).trans hz
  have hclean : ∀ g ∈ gs, clean g.path = g.path := by
    intro g hg
    obtain ⟨shader, -, hpath⟩ := hcompiled.exists_name hg
    rw [hpath]
    exact clean_join hout _
  rw [hgenerated]
  refine ⟨c, shaders, z.2.files, hc, hgs, hcompiled, fun hheaders => ?_, fun hstays => ⟨?_, ?_⟩⟩
  · refine keptApart_iff hclean fun g hg => ?_
    obtain ⟨g', hg', hpath, hr⟩ := hcompiled.exists_read hout g hg
    have hback := read_finish hs' hfinish hr (hclean g hg) fun htarget hdir =>
      hheaders htarget hdir g hg
    rw [← hfiles]
    exact ⟨g', hg', hpath, hback⟩
  · intro g hg
    obtain ⟨shader, hshader, hpath⟩ := hcompiled.exists_name hg
    rw [hpath]
    exact below_codePath hout (hstays shader hshader)
  · intro hsteps
    have hpaths : (gs.map Generated.path).Nodup := by
      rw [hcompiled.paths]
      refine List.Nodup.map_on (fun a ha b hb he => ?_) hsteps.of_map
      exact List.inj_on_of_nodup_map hsteps ha hb
        (descent_eq_of_codePath hout (hstays a ha) (hstays b hb) he)
    exact fun g hg g' hg' he => List.inj_on_of_nodup_map hpaths hg hg' he

/-- Two shaders, one of which takes a step back in its name. -/
def glowFiles : FileTree where
  entries := [(["a.yaml"], .file "name: Glow\n"), (["b.yaml"], .file "name: mist/../Haze\n")]

def glowOutcome : Outcome :=
  runRequest "" glowFiles (.compile .hlsl { out := "gen" } ["a.yaml", "b.yaml"])

theorem outputs_kept_apart_glow :
    glowOutcome.error? = none ∧
      glowOutcome.generated.map Generated.path = ["gen/Glow.hlsl", "gen/Haze.hlsl"] ∧
      KeptApart "gen" glowOutcome.generated glowOutcome.files := by
  have hok : glowOutcome.error? = none := by decide +kernel
  have hpaths : glowOutcome.generated.map Generated.path = ["gen/Glow.hlsl", "gen/Haze.hlsl"] := by
    decide +kernel
  obtain ⟨c, shaders, t, -, -, -, hkept, -⟩ := outputs_kept_apart_iff rfl hok (by decide)
  have hbelow : ∀ path ∈ ["gen/Glow.hlsl", "gen/Haze.hlsl"], Below "gen" path := by
    rw [List.forall_mem_cons, List.forall_mem_singleton]
    exact ⟨⟨["Glow.hlsl"], by simp, by simp [Descends], by decide⟩,
      ⟨["Haze.hlsl"], by simp, by simp [Descends], by decide⟩⟩
  refine ⟨hok, hpaths, (hkept (by simp [HeadersApart])).mpr ⟨fun g hg => ?_, ?_⟩⟩
  · exact hbelow _ (hpaths ▸ List.mem_map_of_mem hg)
  · have hnodup : (glowOutcome.generated.map Generated.path).Nodup := by
      rw [hpaths]
      decide
    exact fun g hg g' hg' he => List.inj_on_of_nodup_map hnodup hg hg' he

def climbOutcome : Outcome :=
  runRequest "" { entries := [(["a.yaml"], .file "name: ../Glow\n")] }
    (.compile .hlsl { out := "gen" } ["a.yaml"])

def twinOutcome : Outcome :=
  runRequest ""
    { entries := [(["a.yaml"], .file "name: Glow\n"), (["b.yaml"], .file "name: Glow\n")] }
    (.compile .hlsl { out := "gen" } ["a.yaml", "b.yaml"])

/-- Code is written outside of the directory, or over the code of another input, and no error
tells. -/
theorem outputs_escape_or_collide :
    (climbOutcome.error? = none ∧ climbOutcome.generated.map Generated.path = ["Glow.hlsl"] ∧
      ¬ KeptApart "gen" climbOutcome.generated climbOutcome.files) ∧
    (twinOutcome.error? = none ∧
      twinOutcome.generated.map (fun g => (g.input, g.path)) =
        [("a.yaml", "gen/Glow.hlsl"), ("b.yaml", "gen/Glow.hlsl")] ∧
      ¬ KeptApart "gen" twinOutcome.generated twinOutcome.files) := by
  have hclimb : climbOutcome.generated.map Generated.path = ["Glow.hlsl"] := by decide +kernel
  have htwin : twinOutcome.generated.map (fun g => (g.input, g.path)) =
      [("a.yaml", "gen/Glow.hlsl"), ("b.yaml", "gen/Glow.hlsl")] := by decide +kernel
  refine ⟨⟨by decide +kernel, hclimb, fun h => ?_⟩, by decide +kernel, htwin, fun h => ?_⟩
  · obtain ⟨g, gs, hg, hpath, -⟩ := List.map_eq_cons_iff.mp hclimb
    obtain ⟨steps, -, -, hplace⟩ := h.inside g (by simp [hg])
    have he := FileTree.place_eq_ok hplace
    have hroot : destination "Glow.hlsl" = ["Glow.hlsl"] := by decide
    have hgen : destination "gen" = ["gen"] := by decide
    rw [hpath, hroot, hgen] at he
    exact absurd (List.cons.inj he).1 (by decide)
  · obtain ⟨g, gs, hg, hfirst, hrest⟩ := List.map_eq_cons_iff.mp htwin
    obtain ⟨g', gs', hg', hsecond, -⟩ := List.map_eq_cons_iff.mp hrest
    rw [Prod.mk.injEq] at hfirst hsecond
    refine h.apart g (by simp [hg]) g' (by simp [hg, hg']) ?_ ?_
    · rw [hfirst.1, hsecond.1]
      decide
    · rw [hfirst.2, hsecond.2]

end CommandLine

end Shaderwright
