import Mathlib.Tactic.Common
import Shaderwright.Build.Session
import Shaderwright.Proofs.Hlsl.Counting
import Shaderwright.Proofs.Msl.Counting

/-!
The counters of a session. Every call adds a fixed sequence of counts that can be read off its
answer, so that after any calls, whatever happens to the files in between, the totals are those of
the answers.
-/

namespace Shaderwright

open Build (Counts)

/-! ### Calls -/

inductive Call where
  | hlsl (shader : Option Shader)
  | msl (shader : Option Shader) (outputPath : String)
  | flush

inductive Answer where
  | hlsl (r : Except Hlsl.Failure Hlsl.Output)
  | msl (r : Except Msl.Failure Msl.Output)
  | flush (errors : List Msl.FlushError)

def Session.call (s : Session) : Call → Build (Answer × Session)
  | .hlsl shader => do return (.hlsl (← s.compileHlsl shader), s)
  | .msl shader outputPath => do
    let (r, s) ← s.compileMsl shader outputPath
    return (.msl r, s)
  | .flush => do return (.flush (← s.flush), s)

namespace Answer

def hlslOutput? : Answer → Option Hlsl.Output
  | hlsl r => r.toOption
  | _ => none

def mslOutput? : Answer → Option Msl.Output
  | msl r => r.toOption
  | _ => none

def flushErrors : Answer → List Msl.FlushError
  | flush errors => errors
  | _ => []

/-- What a call with this answer adds to the counts, where `dir` is the directory for the headers of
HLSL. -/
def counts (dir : String) : Answer → List Counter
  | hlsl r => Hlsl.resultCounts dir r
  | msl r => Msl.resultCounts r
  | flush errors => errors.map fun _ => .failed "msl"

end Answer

/-- A session from whose library every shader can be recorded. -/
structure Session.Ready (dir : String) (s : Session) : Prop where
  headerDir : s.hlslOptions.headerDir = dir
  library : s.library.Ready

/-- The header writes that fail when this session is flushed with these files. -/
def Session.failedWrites (s : Session) (t : FileTree) : List FileError :=
  if s.config.msl.headerDir = "" then []
  else (t.storeAll (s.library.headers s.config.msl.headerDir)).1

namespace Session.Ready

variable {dir : String} {s : Session}

lemma errors_flush (hs : s.Ready dir) (w : World) :
    (s.flush w).1 = (s.failedWrites w.files).map .file := by
  unfold Session.flush Session.failedWrites
  split
  · rfl
  · exact (Msl.Writes.flush hs.library _).errors w

lemma counts_compileHlsl (hs : s.Ready dir) (shader : Option Shader) :
    Counts (s.compileHlsl shader) fun r cs =>
      cs = Hlsl.resultCounts dir r ∧ ∀ out, r = .ok out → dir = "" → out.headerPath = "" := by
  have hcompile := Hlsl.counts_compile s.hlslOptions shader
  rw [hs.headerDir] at hcompile
  refine hcompile.bind fun r cs hcs => ?_
  rw [← List.append_nil cs] at hcs
  cases r with
  | error e => exact .pure hcs
  | ok out => exact .behind (.log _ _ _) fun _ => .pure hcs

lemma counts_compileMsl (hs : s.Ready dir) (shader : Option Shader) (outputPath : String) :
    Counts (s.compileMsl shader outputPath) fun r cs =>
      cs = Msl.resultCounts r.1 ∧ r.2.Ready dir := by
  refine (Msl.counts_compile _ hs.library shader).bind fun r cs hcs => ?_
  obtain ⟨r, library⟩ := r
  obtain ⟨hcounts, l, rfl, hl⟩ := hcs
  rw [← List.append_nil cs] at hcounts
  cases r with
  | error e => exact .pure ⟨hcounts, hs.headerDir, hl⟩
  | ok out => exact .behind (.log _ _ _) fun _ => .pure ⟨hcounts, hs.headerDir, hl⟩

lemma counts_flush (hs : s.Ready dir) :
    Counts s.flush fun errors cs => cs = errors.map fun _ => .failed "msl" := by
  unfold Session.flush
  split
  · exact .behind (.log _ _ _) fun _ => .pure rfl
  · exact (Msl.Writes.flush hs.library _).counts

/-- A call counts what its answer tells, and the session is ready for the next one. -/
lemma counts_call (hs : s.Ready dir) (c : Call) :
    Counts (s.call c) fun r cs => cs = r.1.counts dir ∧ r.2.Ready dir ∧
      ∀ out, r.1.hlslOutput? = some out → dir = "" → out.headerPath = "" := by
  cases c with
  | hlsl shader =>
    refine (hs.counts_compileHlsl shader).bind fun r cs hcs => .pure ⟨?_, hs, ?_⟩
    · rw [List.append_nil]
      exact hcs.1
    · cases r with
      | error e => simp [Answer.hlslOutput?, Except.toOption]
      | ok out => simpa [Answer.hlslOutput?, Except.toOption] using hcs.2 out
  | msl shader outputPath =>
    refine (hs.counts_compileMsl shader outputPath).bind fun r cs hcs =>
      .pure ⟨?_, hcs.2, by simp [Answer.hlslOutput?]⟩
    rw [List.append_nil]
    exact hcs.1
  | flush =>
    refine hs.counts_flush.bind fun errors cs hcs => .pure ⟨?_, hs, by simp [Answer.hlslOutput?]⟩
    rw [List.append_nil]
    exact hcs

end Session.Ready

lemma HlslSettings.headerDir_of_options {h : HlslSettings} {o : Hlsl.Options}
    (ho : h.options = .ok o) : o.headerDir = h.headerDir := by
  unfold HlslSettings.options at ho
  rcases hpolicy : h.policy with e | policy
  · simp [hpolicy, bind, Except.bind] at ho
  rcases hsignature : h.signature with e | signature
  · simp [hpolicy, hsignature, bind, Except.bind] at ho
  simp only [hpolicy, hsignature, bind, Except.bind, pure, Except.pure, Except.ok.injEq] at ho
  rw [← ho]

lemma MslSettings.ready_library (m : MslSettings) : m.library.Ready where
  sections v doc h := by cases h
  named v := by cases v <;> exact ⟨_, rfl⟩

lemma Session.new_eq_ok {c : Config} {s : Session} : Session.new c = .ok s ↔
    c.validate = .ok () ∧ ∃ o, c.hlsl.options = .ok o ∧ s = ⟨c, o, c.msl.library⟩ := by
  unfold Session.new
  rcases c.validate with e | _ <;> rcases c.hlsl.options with e | o <;>
    simp [bind, Except.bind, pure, Except.pure, eq_comm]

lemma Session.ready_of_new {c : Config} {s : Session} (h : Session.new c = .ok s) :
    s.Ready c.hlsl.headerDir := by
  obtain ⟨-, o, hoptions, rfl⟩ := Session.new_eq_ok.mp h
  exact ⟨HlslSettings.headerDir_of_options hoptions, c.msl.ready_library⟩

/-! ### Runs -/

/-- A call that a session has answered, with the files that it found. -/
structure Served where
  session : Session
  files : FileTree
  answer : Answer

/-- Calls one after another. Before each of them the files may have become any others. -/
def Session.run (s : Session) : List (FileTree × Call) → Build (List Served)
  | [] => return []
  | (files, c) :: rest => do
    Build.setFiles files
    let (answer, next) ← s.call c
    return ⟨s, files, answer⟩ :: (← next.run rest)

namespace Served

def failedWrites (x : Served) : List FileError :=
  match x.answer with
  | .flush _ => x.session.failedWrites x.files
  | _ => []

/-- What is known of an answer besides its counts. -/
structure Sound (dir : String) (x : Served) : Prop where
  headerPath : ∀ out, x.answer.hlslOutput? = some out → dir = "" → out.headerPath = ""
  flushErrors : x.answer.flushErrors = x.failedWrites.map .file

end Served

namespace Session.Ready

variable {dir : String} {s : Session}

lemma flushErrors_call (hs : s.Ready dir) (c : Call) (w : World) :
    (s.call c w).1.1.flushErrors =
      (Served.mk s w.files (s.call c w).1.1).failedWrites.map .file := by
  cases c with
  | hlsl shader => rfl
  | msl shader outputPath => rfl
  | flush => exact hs.errors_flush w

lemma counts_served (hs : s.Ready dir) (files : FileTree) (c : Call) :
    Counts (do Build.setFiles files; s.call c) fun r cs =>
      cs = r.1.counts dir ∧ r.2.Ready dir ∧ (Served.mk s files r.1).Sound dir := by
  intro w hw
  obtain ⟨hcounting, cs, hcs, hcounts, hready, hpath⟩ := hs.counts_call c { w with files } hw
  exact ⟨hcounting, cs, hcs, hcounts, hready, hpath, hs.flushErrors_call c _⟩

lemma counts_run (hs : s.Ready dir) (calls : List (FileTree × Call)) :
    Counts (s.run calls) fun xs cs =>
      cs = xs.flatMap (·.answer.counts dir) ∧ ∀ x ∈ xs, x.Sound dir := by
  induction calls generalizing s with
  | nil => exact .pure (by simp)
  | cons call rest ih =>
    obtain ⟨files, c⟩ := call
    have hrun : s.run ((files, c) :: rest) = (do Build.setFiles files; s.call c) >>=
        fun r => return ⟨s, files, r.1⟩ :: (← r.2.run rest) := rfl
    rw [hrun]
    refine (hs.counts_served files c).bind fun r cs hcs => ?_
    obtain ⟨hcounts, hready, hsound⟩ := hcs
    refine (ih hready).bind fun xs cs' hcs' => .pure ⟨?_, ?_⟩
    · rw [hcounts, hcs'.1, List.append_nil, List.flatMap_cons]
    · exact List.forall_mem_cons.mpr ⟨hsound, hcs'.2⟩

end Session.Ready

/-! ### Totals -/

def hlslOutputs (xs : List Served) : List Hlsl.Output := xs.filterMap (·.answer.hlslOutput?)

def mslOutputs (xs : List Served) : List Msl.Output := xs.filterMap (·.answer.mslOutput?)

/-- The counters account for the calls of a run, where `dir` is the directory for HLSL headers. -/
structure Accounts (dir : String) (xs : List Served) (w : World) : Prop where
  compiledHlsl : w.total (.compiled "hlsl") = (hlslOutputs xs).length
  compiledMsl : w.total (.compiled "msl") = (mslOutputs xs).length
  bindings : ∀ label, w.total (.binding "hlsl" label) =
    ((hlslOutputs xs).flatMap (·.bindings)).countP (·.category.text = label)
  uniforms : w.counts.countP (Counter.isBinding "msl") =
    ((mslOutputs xs).flatMap (·.uniforms)).length
  /-- With a directory, the header of every shader is merged or fails. -/
  headers : w.total (.merged "hlsl") + w.total (.failed "hlsl") =
    if dir = "" then 0 else w.total (.compiled "hlsl")
  mergedHlsl : w.total (.merged "hlsl") = (hlslOutputs xs).countP (·.headerPath ≠ "")
  mergedMsl : w.total (.merged "msl") = w.total (.compiled "msl")
  failedMsl : w.total (.failed "msl") = (xs.flatMap (·.failedWrites)).length

section Totals

variable {dir : String} {xs : List Served}

/-- The counts of a run, sorted by what they come from. -/
lemma counts_perm (dir : String) (xs : List Served) :
    (xs.flatMap (·.answer.counts dir)).Perm ((hlslOutputs xs).flatMap (·.counts dir) ++
      ((mslOutputs xs).flatMap (·.counts) ++
        (xs.flatMap (·.answer.flushErrors)).map fun _ => .failed "msl")) := by
  induction xs with
  | nil => rfl
  | cons x xs ih =>
    rw [List.flatMap_cons, List.flatMap_cons, List.map_append]
    refine (ih.append_left _).trans ?_
    rcases hx : x.answer with (e | out) | (e | out) | errors
    all_goals
      simp only [hlslOutputs, mslOutputs, List.filterMap_cons, hx, Answer.counts,
        Hlsl.resultCounts, Msl.resultCounts, Answer.hlslOutput?, Answer.mslOutput?,
        Except.toOption, Answer.flushErrors, List.flatMap_cons, List.map_nil, List.nil_append,
        List.append_assoc]
    · exact .refl _
    · exact .refl _
    · exact .refl _
    · exact List.perm_append_comm_assoc _ _ _
    · exact (List.perm_append_comm_assoc _ _ _).trans
        ((List.perm_append_comm_assoc _ _ _).append_left _)

lemma countP_eq_zero_of_target {target : String} {p : Counter → Bool} {cs : List Counter}
    (hcs : ∀ c ∈ cs, c.target ≠ target) (hp : ∀ c, p c → c.target = target) : cs.countP p = 0 :=
  List.countP_eq_zero.mpr fun c hc h => hcs c hc (hp c h)

lemma countP_hlsl {p : Counter → Bool} (hp : ∀ c, p c → c.target = "hlsl") :
    (xs.flatMap (·.answer.counts dir)).countP p =
      ((hlslOutputs xs).flatMap (·.counts dir)).countP p := by
  rw [(counts_perm dir xs).countP_eq, List.countP_append, Nat.add_eq_left]
  refine countP_eq_zero_of_target (fun c hc => ?_) hp
  have htarget : c.target = "msl" := by
    obtain hc | hc := List.mem_append.mp hc
    · obtain ⟨out, -, hc⟩ := List.mem_flatMap.mp hc
      exact Msl.Output.target_of_mem_counts hc
    · obtain ⟨e, -, rfl⟩ := List.mem_map.mp hc
      rfl
  simp [htarget]

lemma countP_msl {p : Counter → Bool} (hp : ∀ c, p c → c.target = "msl") :
    (xs.flatMap (·.answer.counts dir)).countP p =
      ((mslOutputs xs).flatMap (·.counts)).countP p +
        if p (.failed "msl") then (xs.flatMap (·.answer.flushErrors)).length else 0 := by
  rw [(counts_perm dir xs).countP_eq, List.countP_append, List.countP_append, List.countP_map]
  have hzero : ((hlslOutputs xs).flatMap (·.counts dir)).countP p = 0 := by
    refine countP_eq_zero_of_target (fun c hc => ?_) hp
    obtain ⟨out, -, hc⟩ := List.mem_flatMap.mp hc
    simp [Hlsl.Output.target_of_mem_counts hc]
  rw [hzero, Nat.zero_add]
  congr 1
  split
  · rename_i hfailed
    simp [Function.comp_def, hfailed]
  · rename_i hfailed
    simp [Function.comp_def, hfailed]

lemma countP_flatMap_congr {α β γ : Type} {f : α → List β} {g : α → List γ} {p : β → Bool}
    {q : γ → Bool} {l : List α} (h : ∀ a ∈ l, (f a).countP p = (g a).countP q) :
    (l.flatMap f).countP p = (l.flatMap g).countP q := by
  rw [List.countP_flatMap, List.countP_flatMap]
  exact congrArg List.sum (List.map_congr_left h)

end Totals

section Accounts

variable {dir : String} {xs : List Served} {w : World}

/-- What the shaders compiled to HLSL count one by one, they count together. -/
lemma total_hlsl {β : Type} {c : Counter} {g : Hlsl.Output → List β} {q : β → Bool}
    (hw : w.counts = xs.flatMap (·.answer.counts dir)) (hc : c.target = "hlsl")
    (h : ∀ out ∈ hlslOutputs xs, (out.counts dir).count c = (g out).countP q) :
    w.total c = ((hlslOutputs xs).flatMap g).countP q := by
  rw [World.total, hw, List.count, countP_hlsl (by simp [← hc])]
  exact countP_flatMap_congr h

lemma countP_mslOutputs {β : Type} {p : Counter → Bool} {g : Msl.Output → List β}
    (hw : w.counts = xs.flatMap (·.answer.counts dir)) (hp : ∀ c, p c → c.target = "msl")
    (hfailed : p (.failed "msl") = false) (h : ∀ out, out.counts.countP p = (g out).length) :
    w.counts.countP p = ((mslOutputs xs).flatMap g).length := by
  rw [hw, countP_msl hp, hfailed, if_neg Bool.false_ne_true, Nat.add_zero, List.countP_flatMap,
    List.length_flatMap]
  exact congrArg List.sum (List.map_congr_left fun out _ => h out)

/-- Every failed write is counted, and it is known from the answer of its flush. -/
lemma total_failedWrites (hw : w.counts = xs.flatMap (·.answer.counts dir))
    (hxs : ∀ x ∈ xs, x.Sound dir) :
    w.total (.failed "msl") = (xs.flatMap (·.failedWrites)).length := by
  have hnone : ((mslOutputs xs).flatMap (·.counts)).count (.failed "msl") = 0 := by
    simp [List.count_eq_zero, Msl.Output.counts]
  have herrors : ∀ x ∈ xs, x.answer.flushErrors.length = x.failedWrites.length := by
    intro x hx
    rw [(hxs x hx).flushErrors, List.length_map]
  calc w.total (.failed "msl")
      = ((mslOutputs xs).flatMap (·.counts)).count (.failed "msl") +
          (xs.flatMap (·.answer.flushErrors)).length := by
        rw [World.total, hw]
        exact countP_msl (by simp [Counter.target])
    _ = (xs.flatMap (·.failedWrites)).length := by
        rw [hnone, Nat.zero_add, List.length_flatMap, List.length_flatMap,
          List.map_congr_left herrors]

lemma headerPath_of_sound (hxs : ∀ x ∈ xs, x.Sound dir) :
    ∀ out ∈ hlslOutputs xs, dir = "" → out.headerPath = "" := by
  intro out hout
  obtain ⟨x, hx, hout⟩ := List.mem_filterMap.mp hout
  exact (hxs x hx).headerPath out hout

/-- The counters account for a run that counts what its answers tell. -/
lemma accounts_of_counts (hw : w.counts = xs.flatMap (·.answer.counts dir))
    (hxs : ∀ x ∈ xs, x.Sound dir) : Accounts dir xs w := by
  have hpath := headerPath_of_sound hxs
  have hsingle := List.flatMap_singleton' (hlslOutputs xs)
  have hcompiled : w.total (.compiled "hlsl") = (hlslOutputs xs).length := by
    rw [total_hlsl (q := fun _ => true) hw rfl fun out _ => by
      rw [out.count_compiled, ← List.countP_true], hsingle, List.countP_true]
  have hmerged : w.total (.merged "hlsl") = (hlslOutputs xs).countP (·.headerPath ≠ "") := by
    rw [total_hlsl hw rfl fun out hout => out.count_merged dir (hpath out hout), hsingle]
  have hfailed : w.total (.failed "hlsl") =
      (hlslOutputs xs).countP fun out => dir ≠ "" ∧ out.headerPath = "" := by
    rw [total_hlsl hw rfl fun out _ => out.count_failed dir, hsingle]
  have hmsl : ∀ c : Counter, c.target = "msl" → c ≠ .failed "msl" →
      (∀ out : Msl.Output, out.counts.count c = [out].length) →
      w.total c = (mslOutputs xs).length := by
    intro c hc hfailed hout
    have htotal := countP_mslOutputs (p := (· == c)) hw (by simp [← hc])
      (by simpa using hfailed.symm) hout
    rwa [List.flatMap_singleton'] at htotal
  have hcompiledMsl := hmsl (.compiled "msl") rfl (by simp) Msl.Output.count_compiled
  refine
    { compiledHlsl := hcompiled
      compiledMsl := hcompiledMsl
      bindings := fun label => total_hlsl hw rfl fun out _ => out.count_binding dir label
      uniforms := ?_
      headers := ?_
      mergedHlsl := hmerged
      mergedMsl := ?_
      failedMsl := ?_ }
  · exact countP_mslOutputs hw (by rintro ⟨⟩ <;> simp [Counter.isBinding, Counter.target]) rfl
      Msl.Output.countP_isBinding
  · rw [hmerged, hfailed, hcompiled]
    split
    · rename_i hdir
      simpa [hdir] using fun out hout => hpath out hout hdir
    · rename_i hdir
      rw [List.length_eq_countP_add_countP (fun out : Hlsl.Output => out.headerPath ≠ "")]
      simp [hdir]
  · exact (hmsl (.merged "msl") rfl (by simp) Msl.Output.count_merged).trans hcompiledMsl.symm
  · exact total_failedWrites hw hxs

end Accounts

/-- After any calls of a session, with any files before each of them, the counters account for
every compile and every header. -/
theorem counters_account_for_calls {c : Config} {s : Session} (hs : Session.new c = .ok s)
    {w : World} (hcounting : w.counting = true) (hcounts : w.counts = [])
    (calls : List (FileTree × Call)) :
    Accounts c.hlsl.headerDir (s.run calls w).1 (s.run calls w).2 := by
  obtain ⟨-, cs, hcs, htold, hsound⟩ := (Session.ready_of_new hs).counts_run calls w hcounting
  rw [hcounts, List.nil_append] at hcs
  exact accounts_of_counts (hcs.trans htold) hsound

/-- The headers of both target languages go to one directory. -/
def shroudConfig : Config where
  logLevel := "warn"
  hlsl := { Config.standard.hlsl with headerDir := "gen" }
  msl := { Config.standard.msl with headerDir := "gen" }

def shroudSession : Session := ⟨shroudConfig, { headerDir := "gen" }, shroudConfig.msl.library⟩

def shroud : Shader where
  name := "Shroud"
  decls := [.var { var := { name := "image", type := .sampler2D, qualifier := .param, slot := 1 } }]

/-- A file stands where the directory of the headers should be. -/
def shroudFiles : FileTree := { entries := [(["gen"], .file "")] }

/-- A shader is compiled to both languages and the headers are written, at first where none of them
can be and then in a tree without any files. -/
def shroudCalls : List (FileTree × Call) :=
  [(shroudFiles, .hlsl (some shroud)), (shroudFiles, .msl (some shroud) "shroud"),
    (shroudFiles, .flush), ({}, .hlsl (some shroud)), ({}, .flush)]

/-- The header is what fails in the first of these calls, and the shader is counted all the same. -/
theorem counters_account_for_shroud :
    Session.new shroudConfig = .ok shroudSession ∧
      Accounts "gen" (shroudSession.run shroudCalls { counting := true }).1
        (shroudSession.run shroudCalls { counting := true }).2 ∧
      (shroudSession.run (shroudCalls.take 1) { counting := true }).2.counts =
        [.failed "hlsl", .binding "hlsl" "Texture", .binding "hlsl" "Sampler",
          .compiled "hlsl"] := by
  have hnew : Session.new shroudConfig = .ok shroudSession :=
    Session.new_eq_ok.mpr ⟨by decide +kernel, _, by decide +kernel, rfl⟩
  exact ⟨hnew, counters_account_for_calls hnew rfl rfl _, by decide +kernel⟩

end Shaderwright
