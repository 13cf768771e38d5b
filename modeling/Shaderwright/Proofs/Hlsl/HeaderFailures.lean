import Mathlib.Tactic.Common
import Shaderwright.Proofs.Hlsl.Counting
import Shaderwright.Proofs.Hlsl.HeaderHistory
import Shaderwright.Proofs.Hlsl.HeaderIdempotence

/-!
What becomes of a compile whose headers cannot be brought up to date. It succeeds with the code that
it has without any headers and names no header, and the target header stays as it was. A common
header that is there is never written, however many shaders are compiled.
-/

namespace Shaderwright.Hlsl

open Shaderwright.Text Shaderwright.Document

variable {p : HeaderPlace} {shader : String} {bs : List Binding} {t : FileTree}

/-! ### What stands in the way -/

def HeaderPlace.ensured (p : HeaderPlace) (t : FileTree) : FileTree.Change Bool :=
  t.ensure p.commonPath commonHeaderText

/-- The target header is there, but its markers are not. -/
def HeaderPlace.Corrupt (p : HeaderPlace) (t : FileTree) : Prop :=
  ∃ text e, t.read p.targetPath = .ok text ∧ parse headerSections text = .error e

/-- The target header cannot be read, or it cannot be written once the shader is recorded. -/
inductive HeaderPlace.Stuck (p : HeaderPlace) (shader : String) (bs : List Binding) (t : FileTree) :
    Prop
  | read {e : FileError} :
    (t.readOr p.targetPath (targetHeaderText p.target p.common)).1 = .error e → p.Stuck shader bs t
  | write {text : String} {t' : FileTree} {doc doc' : Document} {replaced : Bool} {e : FileError} :
    t.readOr p.targetPath (targetHeaderText p.target p.common) = (.ok text, t') →
    parse headerSections text = .ok doc → recordShader shader bs doc = .ok (replaced, doc') →
    t'.write p.targetPath doc'.text = .error e → p.Stuck shader bs t

/-- A header cannot be created, read or written. -/
def HeaderPlace.Blocked (p : HeaderPlace) (shader : String) (bs : List Binding) (t : FileTree) :
    Prop :=
  (∃ e, (p.ensured t).1 = .error e) ∨ p.Stuck shader bs (p.ensured t).2

/-! ### Recording a shader -/

/-- A header that can be read takes up any shader that has a name. -/
lemma exists_recordShader {text : String} {doc : Document}
    (h : parse headerSections text = .ok doc) (hs : shader ≠ "") (bs : List Binding) :
    ∃ r, recordShader shader bs doc = .ok r := by
  obtain ⟨tables, rows, hblocks, htables, hrows⟩ := blocks_of_laid (laid_of_ofLines h).1
  obtain ⟨replaced, hrecord⟩ := recordShader_blocks tables rows htables hrows doc.rest hs bs
  rw [← hblocks] at hrecord
  exact ⟨_, hrecord⟩

/-- A locked header stands in the way of every shader, even if it can be read. -/
lemma blocked_of_locked {text : String} {doc : Document} (hdir : p.dir ≠ "")
    (hread : t.read p.targetPath = .ok text) (hlocked : ¬ t.Unlocked p.targetPath)
    (hparse : parse headerSections text = .ok doc) (hs : shader ≠ "") (bs : List Binding) :
    p.Blocked shader bs t := by
  -- making sure of the common header changes neither the text nor the lock
  have hread' : (p.ensured t).2.read p.targetPath = .ok text :=
    FileTree.read_ensure_of_clean hread (Path.clean_join hdir _) (Path.clean_join hdir _)
  have hlocked' : ¬ (p.ensured t).2.Unlocked p.targetPath := by
    rwa [FileTree.Unlocked, HeaderPlace.ensured, FileTree.locked_ensure]
  obtain ⟨⟨replaced, doc'⟩, hrecord⟩ := exists_recordShader hparse hs bs
  have hor : (p.ensured t).2.readOr p.targetPath (targetHeaderText p.target p.common) =
      (.ok text, (p.ensured t).2) := by
    simp [FileTree.readOr, hread']
  exact .inr (.write hor hparse hrecord (FileTree.write_of_locked hread' hlocked' doc'.text))

/-- What fails without a file error fails because the header is corrupt: a fresh one is not. -/
lemma recordMerge_error_iff (hs : shader ≠ "") (bs : List Binding) (t : FileTree) :
    (∃ e, (recordMerge p shader bs t).error = some e) ↔ p.Corrupt t ∨ p.Stuck shader bs t := by
  constructor
  · rintro ⟨e, he⟩
    unfold recordMerge FileTree.merge at he
    rcases hr : t.readOr p.targetPath (targetHeaderText p.target p.common) with ⟨e' | text, t'⟩
    · exact .inr (.read (congrArg Prod.fst hr))
    rcases hparse : parse headerSections text with e' | doc
    · rcases readOr_eq_ok hr with hread | ⟨-, rfl⟩
      · exact .inl ⟨text, e', hread, hparse⟩
      · obtain ⟨doc, hdoc⟩ := exists_parse_headerDocument p []
        rw [headerDocument_nil_text, hparse] at hdoc
        cases hdoc
    obtain ⟨⟨replaced, doc'⟩, hrecord⟩ := exists_recordShader hparse hs bs
    rcases hw : t'.write p.targetPath doc'.text with e' | t''
    · exact .inr (.write hr hparse hrecord hw)
    · simp [hr, hparse, hrecord, hw] at he
  · unfold recordMerge FileTree.merge
    rintro (⟨text, e, hread, hparse⟩ | @⟨e, hr⟩ | ⟨hr, hparse, hrecord, hw⟩)
    · simp [FileTree.readOr, hread, hparse]
    · rcases hstart : t.readOr p.targetPath (targetHeaderText p.target p.common)
        with ⟨e' | text, t'⟩
      · simp
      · rw [hstart] at hr
        cases hr
    · simp [hr, hparse, hrecord, hw]

lemma mergeHeaders_fails_iff (hs : shader ≠ "") (w : World) :
    (∃ e, (mergeHeaders p shader bs w).1 = .error e) ↔
      p.Corrupt (p.ensured w.files).2 ∨ p.Blocked shader bs w.files := by
  have heq := congrArg Prod.fst (mergeHeaders_eq p shader bs w)
  dsimp only at heq
  rw [heq, HeaderPlace.Blocked, HeaderPlace.ensured]
  rcases w.files.ensure p.commonPath commonHeaderText with ⟨e | created, t⟩
  · simp
  · have hmerge := recordMerge_error_iff (p := p) hs bs t
    rcases herr : (recordMerge p shader bs t).error with _ | e <;> simpa [herr] using hmerge

/-- Recording a shader that fails leaves the target header as it was. -/
lemma keeps_mergeHeaders_of_error (hdir : p.dir ≠ "") (hne : p.commonPath ≠ p.targetPath)
    {w : World} {e : String × HeaderError} (h : (mergeHeaders p shader bs w).1 = .error e) :
    FileTree.Keeps p.targetPath w.files (mergeHeaders p shader bs w).2.files := by
  have hclean : Path.clean p.commonPath ≠ Path.clean p.targetPath := by
    rwa [HeaderPlace.commonPath, HeaderPlace.targetPath, Path.clean_join hdir, Path.clean_join hdir]
  have hensured := FileTree.keeps_ensure_of_clean_ne w.files commonHeaderText hclean
  have heq := mergeHeaders_eq p shader bs w
  generalize w.files.ensure p.commonPath commonHeaderText = ensured at hensured heq
  obtain ⟨e' | created, t⟩ := ensured
  · have hfiles : (mergeHeaders p shader bs w).2.files = t := congrArg Prod.snd heq
    rw [hfiles]
    exact hensured
  · dsimp only at heq
    rcases herr : (recordMerge p shader bs t).error with _ | e'
    · rw [herr, Prod.mk.injEq, h] at heq
      cases heq.1
    · rw [(Prod.mk.inj heq).2]
      exact hensured.trans (FileTree.keeps_merge_of_error herr _)

/-! ### One compile -/

lemma eq_targetPath {w : World} {path : String} (h : (mergeHeaders p shader bs w).1 = .ok path) :
    path = p.targetPath := by
  have heq := congrArg Prod.fst (mergeHeaders_eq p shader bs w)
  dsimp only at heq
  rw [h] at heq
  split at heq
  · cases heq
  · dsimp only at heq
    split at heq
    · cases heq
    · exact Except.ok.inj heq

lemma recordHeaders_eq_empty {o : Options} (hdir : o.headerDir ≠ "") (shader : String)
    (bs : List Binding) (w : World) :
    (recordHeaders o shader bs w).1 = "" ↔
      ∃ e, (mergeHeaders (headerPlace o) shader bs w).1 = .error e := by
  have htarget : (headerPlace o).targetPath ≠ "" := Path.join_ne_empty hdir _
  have hok : ∀ path, (mergeHeaders (headerPlace o) shader bs w).1 = .ok path →
      path = (headerPlace o).targetPath := fun _ => eq_targetPath
  simp only [recordHeaders, if_neg hdir, Build.bind_apply]
  generalize mergeHeaders (headerPlace o) shader bs w = merged at hok ⊢
  obtain ⟨⟨path, e⟩ | path, v⟩ := merged
  · simp
  · simp [hok path rfl, htarget]

/-- A compile names no header exactly if its shader could not be recorded. -/
lemma headerPath_eq_empty {o : Options} (hdir : o.headerDir ≠ "") {s : Shader} {w w' : World}
    {out : Output} (h : compile o (some s) w = (.ok out, w')) :
    out.headerPath = "" ↔
      (headerPlace o).Corrupt ((headerPlace o).ensured w.files).2 ∨
        (headerPlace o).Blocked s.name out.bindings w.files := by
  obtain ⟨code, v, ht, hv, hfinish⟩ := compile_eq_ok h
  have hout : out = (finish o s.name code v).1 := (congrArg Prod.fst hfinish).symm
  have hpath : out.headerPath = (recordHeaders o s.name out.bindings v).1 := by
    rw [hout]
    rfl
  rw [hpath, recordHeaders_eq_empty hdir, mergeHeaders_fails_iff (translate_eq_ok.mp ht).1, hv]

/-- A corrupt header is not mended by making sure of the common one. -/
lemma HeaderPlace.Corrupt.ensured (h : p.Corrupt t) (hdir : p.dir ≠ "") :
    p.Corrupt (p.ensured t).2 := by
  obtain ⟨text, e, hread, hparse⟩ := h
  exact ⟨text, e, FileTree.read_ensure_of_clean hread (Path.clean_join hdir _)
    (Path.clean_join hdir _), hparse⟩

/-- A compile that names no header leaves the target header as it was. -/
lemma keeps_compile_of_no_header {o : Options}
    (hne : (headerPlace o).commonPath ≠ (headerPlace o).targetPath) {s : Shader} {w w' : World}
    {out : Output} (h : compile o (some s) w = (.ok out, w')) (hpath : out.headerPath = "") :
    FileTree.Keeps (headerPlace o).targetPath w.files w'.files := by
  by_cases hdir : o.headerDir = ""
  · rw [compile_files_of_no_dir hdir h]
    exact .refl _ _
  · have hname := (translate_eq_ok.mp (translate_of_compile h)).1
    obtain ⟨e, he⟩ := (mergeHeaders_fails_iff hname w).mpr ((headerPath_eq_empty hdir h).mp hpath)
    rw [compile_files hdir h]
    exact keeps_mergeHeaders_of_error hdir hne he

lemma headerPath_of_no_dir {o : Options} (hdir : o.headerDir = "") {s : Option Shader}
    {w w' : World} {out : Output} (h : compile o s w = (.ok out, w')) : out.headerPath = "" := by
  obtain ⟨code, v, -, -, hfinish⟩ := compile_eq_ok h
  have hout : out = (finish o ((s.map Shader.name).getD "") code v).1 :=
    (congrArg Prod.fst hfinish).symm
  rw [hout]
  simp [finish, recordHeaders, hdir]

/-- The code does not depend on where the headers are kept. -/
lemma exists_compile_of_no_dir {o : Options} {s : Option Shader} {w w₀ : World} {out₀ : Output}
    (h : compile { o with headerDir := "" } s w = (.ok out₀, w₀)) :
    ∃ out w', compile o s w = (.ok out, w') ∧ out.toCode = out₀.toCode := by
  -- neither the text nor the budget looks at the directory
  have hverdict : verdict o s = verdict { o with headerDir := "" } s := rfl
  rw [← compile_toCode o s w, ← compile_toCode _ s w, h] at hverdict
  rcases hcompile : compile o s w with ⟨e | out, w'⟩
  · rw [hcompile] at hverdict
    cases hverdict
  · rw [hcompile] at hverdict
    exact ⟨out, w', rfl, Except.ok.inj hverdict⟩

/-! ### A whole build -/

/-- The world after a sequence of compiles, those that fail among them. -/
def compileAll (o : Options) (w : World) (ss : List (Option Shader)) : World :=
  ss.foldl (fun w s => (compile o s w).2) w

/-- A compile does not write a common header that is there. -/
lemma read_common_compile {o : Options}
    (hne : (headerPlace o).commonPath ≠ (headerPlace o).targetPath) (s : Option Shader) {w : World}
    {text : String} (hr : w.files.read (headerPlace o).commonPath = .ok text) :
    (compile o s w).2.files.read (headerPlace o).commonPath = .ok text := by
  rcases h : compile o s w with ⟨e | out, w'⟩
  · rwa [world_of_compile_error h]
  · by_cases hdir : o.headerDir = ""
    · rwa [compile_files_of_no_dir hdir h]
    · cases s with
      | none => cases translate_of_compile h
      | some s => exact read_compile h hr (Path.clean_join hdir _) fun _ => hne.symm

lemma read_common_compileAll {o : Options}
    (hne : (headerPlace o).commonPath ≠ (headerPlace o).targetPath) (ss : List (Option Shader))
    {w : World} {text : String} (hr : w.files.read (headerPlace o).commonPath = .ok text) :
    (compileAll o w ss).files.read (headerPlace o).commonPath = .ok text := by
  induction ss generalizing w with
  | nil => exact hr
  | cons s ss ih => exact ih (read_common_compile hne s hr)

/-- A compile whose header is corrupt or blocked has the code that it has without headers, names no
header and leaves the target header alone, and nothing else keeps a header from being named. Over
any sequence of compiles a common header that is there keeps its text. -/
theorem compile_without_header {o : Options}
    (hne : (headerPlace o).commonPath ≠ (headerPlace o).targetPath) :
    (∀ (s : Shader) (w w₀ : World) (out₀ : Output),
      compile { o with headerDir := "" } (some s) w = (.ok out₀, w₀) →
      ∃ out w', compile o (some s) w = (.ok out, w') ∧ out.toCode = out₀.toCode ∧
        ((headerPlace o).Corrupt w.files ∨
            (headerPlace o).Blocked s.name out.bindings w.files →
          out.headerPath = "" ∧
            FileTree.Keeps (headerPlace o).targetPath w.files w'.files) ∧
        (o.headerDir ≠ "" → out.headerPath = "" →
          (headerPlace o).Corrupt ((headerPlace o).ensured w.files).2 ∨
            (headerPlace o).Blocked s.name out.bindings w.files)) ∧
    ∀ (ss : List (Option Shader)) (w : World) (text : String),
      w.files.read (headerPlace o).commonPath = .ok text →
      (compileAll o w ss).files.read (headerPlace o).commonPath = .ok text := by
  refine ⟨fun s w w₀ out₀ h₀ => ?_, fun ss w text hr => read_common_compileAll hne ss hr⟩
  obtain ⟨out, w', h, hcode⟩ := exists_compile_of_no_dir h₀
  refine ⟨out, w', h, hcode, fun hway => ?_, fun hdir => (headerPath_eq_empty hdir h).mp⟩
  have hpath : out.headerPath = "" := by
    by_cases hdir : o.headerDir = ""
    · exact headerPath_of_no_dir hdir h
    · rw [headerPath_eq_empty hdir h]
      exact hway.imp_left fun hcorrupt => hcorrupt.ensured hdir
  exact ⟨hpath, keeps_compile_of_no_header hne h hpath⟩

/-- Files with a target header that lost its markers and a common header of one's own. -/
def garbled : FileTree where
  entries := [(["EffectsResources.h"], .file "lost"), (["ShaderResourceTypes.h"], .file "mine")]

/-- Files with a fresh target header that is locked. -/
def lockedFiles : FileTree where
  entries := [(["EffectsResources.h"], .file (targetHeaderText "Effects" "Common.h"))]
  locked := [["EffectsResources.h"]]

/-- A shader is compiled beside a garbled header, and more shaders are compiled after it. Another
one is compiled beside a header that is as it should be but cannot be written. -/
theorem compile_without_header_garbled :
    (∃ out w', compile { headerDir := "." } (some (glow 0)) { files := garbled } = (.ok out, w') ∧
      out.bindings = [⟨"tint", .const128, 0, 1⟩] ∧ out.headerPath = "" ∧
      w'.files.read "EffectsResources.h" = .ok "lost" ∧
      (compileAll { headerDir := "." } w' [some blur, none, some (glow 1)]).files.read
        "ShaderResourceTypes.h" = .ok "mine") ∧
    ∃ out w', compile { headerDir := "." } (some (glow 0)) { files := lockedFiles } =
        (.ok out, w') ∧
      out.bindings = [⟨"tint", .const128, 0, 1⟩] ∧ out.headerPath = "" ∧
      w'.files.read "EffectsResources.h" = .ok (targetHeaderText "Effects" "Common.h") := by
  have hne : (headerPlace { headerDir := "." }).commonPath ≠
      (headerPlace { headerDir := "." }).targetPath := by decide +kernel
  obtain ⟨hone, hall⟩ := compile_without_header hne
  have hcompiles := compile_of_translate {} (glow 0) [⟨"tint", .const128, 0, 1⟩]
    (by decide +kernel) (by decide +kernel)
  constructor
  · obtain ⟨out₀, w₀, h₀, hbindings⟩ := hcompiles { files := garbled }
    obtain ⟨out, w', h, hcode, hway, -⟩ := hone (glow 0) { files := garbled } w₀ out₀ h₀
    have htarget : garbled.read "EffectsResources.h" = .ok "lost" := by decide +kernel
    have hcommon : garbled.read "ShaderResourceTypes.h" = .ok "mine" := by decide +kernel
    obtain ⟨hpath, hkeeps⟩ := hway (.inl ⟨"lost", _, htarget, rfl⟩)
    have hafter := hall [some (glow 0), some blur, none, some (glow 1)] { files := garbled } "mine"
      hcommon
    rw [compileAll, List.foldl_cons, h] at hafter
    refine ⟨out, w', h, ?_, hpath, hkeeps.read htarget, hafter⟩
    rw [hcode, hbindings]
  · obtain ⟨out₀, w₀, h₀, hbindings⟩ := hcompiles { files := lockedFiles }
    obtain ⟨out, w', h, hcode, hway, -⟩ := hone (glow 0) { files := lockedFiles } w₀ out₀ h₀
    have hread : lockedFiles.read "EffectsResources.h" =
        .ok (targetHeaderText "Effects" "Common.h") := by decide +kernel
    obtain ⟨doc, hparse⟩ := exists_parse_headerDocument ⟨".", "Effects", "Common.h"⟩ []
    rw [headerDocument_nil_text] at hparse
    obtain ⟨hpath, hkeeps⟩ := hway (.inr (blocked_of_locked (by decide) hread
      (not_not.mpr (by decide +kernel)) hparse (by decide) _))
    exact ⟨out, w', h, by rw [hcode, hbindings], hpath, hkeeps.read hread⟩

end Shaderwright.Hlsl
