import Mathlib.Tactic.Common
import Shaderwright.Proofs.Hlsl.Compile
import Shaderwright.Proofs.Hlsl.HeaderDocument
import Shaderwright.Proofs.Hlsl.HeaderFiles

/-!
The target header over a whole build. As long as the files can be read and written, the header
after any sequence of compiles holds one table and one row for each shader, in the order of the
first compiles and with the bindings of the latest one; all that stands around them is what the
skeleton of the header has there.
-/

namespace Shaderwright.Hlsl

open Shaderwright.Text Shaderwright.Document

/-! ### One compile -/

variable {p : HeaderPlace} {shader : String} {bs : List Binding}

lemma recordHeaders_files {o : Options} (hdir : o.headerDir ≠ "") (shader : String)
    (bs : List Binding) (w : World) :
    (recordHeaders o shader bs w).2.files =
      (mergeHeaders (headerPlace o) shader bs w).2.files := by
  simp only [recordHeaders, if_neg hdir, Build.bind_apply]
  rcases mergeHeaders (headerPlace o) shader bs w with ⟨⟨path, e⟩ | path, v⟩ <;> simp

/-- A successful compile changes the files only by recording its shader. -/
lemma compile_files {o : Options} (hdir : o.headerDir ≠ "") {s : Shader} {w w' : World}
    {out : Output} (h : compile o (some s) w = (.ok out, w')) :
    w'.files = (mergeHeaders (headerPlace o) s.name out.bindings w).2.files := by
  obtain ⟨code, v, -, hv, hfinish⟩ := compile_eq_ok h
  have hout : out = (finish o s.name code v).1 := (congrArg Prod.fst hfinish).symm
  have hw' : w' = (finish o s.name code v).2 := (congrArg Prod.snd hfinish).symm
  have hmerge := congrArg Prod.snd (mergeHeaders_eq (headerPlace o) s.name code.bindings v)
  rw [hv, ← congrArg Prod.snd (mergeHeaders_eq (headerPlace o) s.name code.bindings w)] at hmerge
  rw [hw', hout]
  simp only [finish, Build.bind_apply, Build.pure_apply, Build.count_files,
    Build.forM_count_files, recordHeaders_files hdir]
  exact hmerge

lemma compile_files_of_no_dir {o : Options} (hdir : o.headerDir = "") {s : Option Shader}
    {w w' : World} {out : Output} (h : compile o s w = (.ok out, w')) : w'.files = w.files := by
  obtain ⟨code, v, -, hv, hfinish⟩ := compile_eq_ok h
  have hw' : w' = (finish o ((s.map Shader.name).getD "") code v).2 :=
    (congrArg Prod.snd hfinish).symm
  rw [hw', ← hv]
  simp only [finish, recordHeaders, if_pos hdir, Build.bind_apply, Build.pure_apply,
    Build.count_files, Build.forM_count_files]

/-- Of the files that a compile finds, it changes only the target header. -/
lemma read_compile {o : Options} {s : Shader} {w w' : World} {out : Output}
    (h : compile o (some s) w = (.ok out, w')) {other text : String}
    (hr : w.files.read other = .ok text) (hclean : Path.clean other = other)
    (htarget : o.headerDir ≠ "" → (headerPlace o).targetPath ≠ other) :
    w'.files.read other = .ok text := by
  by_cases hdir : o.headerDir = ""
  · rwa [compile_files_of_no_dir hdir h]
  · rw [compile_files hdir h]
    exact read_mergeHeaders hdir s.name out.bindings hr hclean (htarget hdir)

/-! ### The header from compile to compile -/

/-- The target header has a place of its own, and its name does not break the lines. -/
structure HeaderPlace.Separate (p : HeaderPlace) : Prop where
  dir_ne : p.dir ≠ ""
  target_line : IsLine p.target
  paths_ne : p.commonPath ≠ p.targetPath

/-- The files hold these records: there is no file yet, or the target header is the document of
the records. -/
def HeaderHolds (p : HeaderPlace) (rs : Records) (t : FileTree) : Prop :=
  (rs = [] ∧ ∀ q text, t.get? q ≠ some (.file text)) ∨
    t.read p.targetPath = .ok (headerDocument p rs).text

/-- The common header is written beside the target header. -/
lemma HeaderPlace.Separate.place_ne (hp : p.Separate) {t t' : FileTree} {q : Place}
    (hc : t.place p.commonPath = .ok q) : t'.place p.targetPath ≠ .ok q := by
  intro ht
  exact hp.paths_ne (FileTree.join_eq_of_place hp.dir_ne hc ht)

lemma read_ensure (hp : p.Separate) {t t' : FileTree} {created : Bool} {text text' : String}
    (h : t.ensure p.commonPath text' = (.ok created, t'))
    (hr : t.read p.targetPath = .ok text) : t'.read p.targetPath = .ok text := by
  rcases ensure_cases h with rfl | ⟨t₁, hgrows, hw⟩
  · exact hr
  · exact FileTree.read_write_of_ne hw (hgrows.read hr) fun q hq => hp.place_ne hq

lemma read_ensure_of_no_files (hp : p.Separate) {t t' : FileTree} {created : Bool} {text' : String}
    (h : t.ensure p.commonPath text' = (.ok created, t'))
    (hnone : ∀ q text, t.get? q ≠ some (.file text)) (text : String) :
    t'.read p.targetPath ≠ .ok text := by
  intro hr
  obtain ⟨q, hq, hg⟩ := FileTree.read_eq_ok.mp hr
  rcases ensure_cases h with rfl | ⟨t₁, hgrows, hw⟩
  · exact hnone q text hg
  · -- the one file there is now is the common header
    obtain ⟨c, hc, -, rfl⟩ := FileTree.write_eq_ok hw
    have hqc : q ≠ c := fun e => hp.place_ne hc (e ▸ hq)
    rw [FileTree.get?_put, if_neg hqc] at hg
    split at hg
    · simp at hg
    · exact hnone q text (hgrows.files hg)

/-- One recorded shader takes the header from its records to the next ones. -/
lemma mergeHeaders_holds (hp : p.Separate) {rs : Records} (hrs : ∀ r ∈ rs, PlainName r.1)
    (hs : shader ≠ "") {w : World} (hwork : FilesWork p shader bs w)
    (h : HeaderHolds p rs w.files) :
    (mergeHeaders p shader bs w).2.files.read p.targetPath =
      .ok (headerDocument p (rs.put shader bs)).text := by
  obtain ⟨created, t, hens, hio, hfiles⟩ := mergeHeaders_files hwork
  obtain ⟨text, t', hreadOr, hread⟩ := readOr_of_merge hio
  have htext : text = (headerDocument p rs).text := by
    rcases h with ⟨rfl, hnone⟩ | hold
    · rcases hread with hread | ⟨-, rfl⟩
      · exact absurd hread (read_ensure_of_no_files hp hens hnone text)
      · exact (headerDocument_nil_text p).symm
    · have hnow := read_ensure hp hens hold
      rcases hread with hread | ⟨hnone, -⟩
      · rw [hread] at hnow
        simpa using hnow
      · exact absurd hnow (hnone _)
  obtain ⟨replaced, hrecord⟩ := recordShader_headerDocument p rs hs bs
  rw [hfiles]
  exact read_merge hreadOr (htext ▸ parse_headerDocument hp.target_line hrs) hrecord hio

/-! ### A whole build -/

/-- A sequence of successful compiles during which the files work, with the world behind it. -/
inductive CompileRun (o : Options) (start : World) : List (Shader × Output) → World → Prop
  | nil : CompileRun o start [] start
  | snoc {cs : List (Shader × Output)} {w w' : World} {s : Shader} {out : Output} :
    CompileRun o start cs w → compile o (some s) w = (.ok out, w') →
    FilesWork (headerPlace o) s.name out.bindings w → CompileRun o start (cs ++ [(s, out)]) w'

/-- A run goes on with any shader that is translated within the budget, as long as the headers
can be written. -/
lemma CompileRun.extend {o : Options} {start w : World} {cs : List (Shader × Output)}
    (hrun : CompileRun o start cs w) (hdir : o.headerDir ≠ "")
    (hready : (headerPlace o).Ready w.files) (s : Shader) (bs : List Binding)
    (ht : (translate o (some s)).map Code.bindings = .ok bs)
    (hb : overflow? bs o.slotBudget = none) :
    ∃ out w', CompileRun o start (cs ++ [(s, out)]) w' ∧ out.bindings = bs ∧
      (headerPlace o).Ready w'.files := by
  obtain ⟨out, w', hcompile, rfl⟩ := compile_of_translate o s bs ht hb w
  obtain ⟨hwork, hready'⟩ := mergeHeaders_ready hready s.name out.bindings
  refine ⟨out, w', hrun.snoc hcompile hwork, rfl, ?_⟩
  rwa [compile_files hdir hcompile]

def recordOf (c : Shader × Output) : String × List Binding := (c.1.name, c.2.bindings)

lemma plainName_recordsOf {cs : List (String × List Binding)} (h : ∀ c ∈ cs, PlainName c.1) :
    ∀ r ∈ recordsOf cs, PlainName r.1 := by
  intro r hr
  have hname : r.1 ∈ (cs.map Prod.fst).eraseDups :=
    names_recordsOf cs ▸ List.mem_map_of_mem hr
  obtain ⟨c, hc, hcr⟩ := List.mem_map.mp (List.mem_eraseDups.mp hname)
  exact hcr ▸ h c hc

/-- After every compile the target header is the document of the records so far. -/
lemma CompileRun.holds {o : Options} (hp : (headerPlace o).Separate) {start w : World}
    (hstart : start.files.entries = []) {cs : List (Shader × Output)} (h : CompileRun o start cs w)
    (hnames : ∀ c ∈ cs, PlainName c.1.name) :
    (cs = [] ∧ w = start) ∨ w.files.read (headerPlace o).targetPath =
      .ok (headerDocument (headerPlace o) (recordsOf (cs.map recordOf))).text := by
  induction h with
  | nil => exact .inl ⟨rfl, rfl⟩
  | @snoc cs w w' s out _ hcompile hwork ih =>
    right
    have hold := ih fun c hc => hnames c (List.mem_append_left _ hc)
    have hs : PlainName s.name := hnames (s, out) (by simp)
    have hrs : ∀ r ∈ recordsOf (cs.map recordOf), PlainName r.1 := by
      apply plainName_recordsOf
      intro c hc
      obtain ⟨c', hc', rfl⟩ := List.mem_map.mp hc
      exact hnames c' (List.mem_append_left _ hc')
    have hholds : HeaderHolds (headerPlace o) (recordsOf (cs.map recordOf)) w.files := by
      rcases hold with ⟨rfl, rfl⟩ | hold
      · left
        refine ⟨rfl, fun q text => ?_⟩
        rw [FileTree.get?, hstart]
        split <;> simp
      · exact .inr hold
    rw [compile_files hp.dir_ne hcompile, List.map_append, List.map_singleton, recordsOf_concat]
    exact mergeHeaders_holds hp hrs hs.ne_empty hwork hholds

/-- The record of a shader is what its latest compile had to record. -/
lemma find?_latest (before : List (Shader × Output)) {after : List (Shader × Output)}
    {c : Shader × Output} (hafter : ∀ c' ∈ after, c'.1.name ≠ c.1.name) :
    (recordsOf ((before ++ c :: after).map recordOf)).find? (fun r => r.1 = c.1.name) =
      some (recordOf c) := by
  have hnone : (after.map recordOf).reverse.find? (fun r => r.1 = c.1.name) = none := by
    rw [List.find?_eq_none]
    intro r hr
    obtain ⟨c', hc', rfl⟩ := List.mem_map.mp (List.mem_reverse.mp hr)
    rw [decide_eq_true_eq]
    exact hafter c' hc'
  rw [find?_recordsOf, List.map_append, List.map_cons, List.reverse_append, List.reverse_cons,
    List.append_assoc, List.find?_append, hnone]
  simp [recordOf]

/-- After any sequence of compiles the target header is read as a document whose keys are the
shaders in the order of their first compiles, whose entries come from the latest compile of each,
and which has the lines of the skeleton around them. -/
theorem header_after_compiles {o : Options} (hp : (headerPlace o).Separate) {start w : World}
    (hstart : start.files.entries = []) {cs : List (Shader × Output)} (hne : cs ≠ [])
    (hnames : ∀ c ∈ cs, PlainName c.1.name) (hrun : CompileRun o start cs w) :
    ∃ doc skeleton,
      w.files.read (headerPlace o).targetPath = .ok doc.text ∧
      parse headerSections doc.text = .ok doc ∧
      doc.keys "collections" = .ok (cs.map fun c => c.1.name).eraseDups ∧
      doc.keys "registry" = .ok (cs.map fun c => c.1.name).eraseDups ∧
      (∀ before s out after, cs = before ++ (s, out) :: after →
        (∀ c ∈ after, c.1.name ≠ s.name) →
        doc.entry? "collections" s.name = some ⟨s.name, tableLines s.name out.bindings⟩ ∧
        doc.entry? "registry" s.name =
          some ⟨s.name, [registryLine s.name out.bindings.length]⟩) ∧
      parse headerSections (targetHeaderText o.target o.commonHeader) = .ok skeleton ∧
      doc.outside = skeleton.outside := by
  have hplain : ∀ r ∈ recordsOf (cs.map recordOf), PlainName r.1 := by
    apply plainName_recordsOf
    intro c hc
    obtain ⟨c', hc', rfl⟩ := List.mem_map.mp hc
    exact hnames c' hc'
  have hread := (hrun.holds hp hstart hnames).resolve_left fun h => hne h.1
  have hnamesEq : (recordsOf (cs.map recordOf)).map Prod.fst =
      (cs.map fun c => c.1.name).eraseDups := by
    rw [names_recordsOf, List.map_map]
    rfl
  obtain ⟨htables, hrows⟩ := keys_headerDocument (headerPlace o) hplain
  rw [hnamesEq] at htables hrows
  have hskeleton : parse headerSections (targetHeaderText o.target o.commonHeader) =
      .ok (headerDocument (headerPlace o) []) := by
    have hempty : ∀ r ∈ ([] : Records), PlainName r.1 := by simp
    have hparse := parse_headerDocument hp.target_line hempty
    rwa [headerDocument_nil_text] at hparse
  refine ⟨_, _, hread, parse_headerDocument hp.target_line hplain, htables, hrows, ?_, hskeleton,
    outside_headerDocument _ _ _⟩
  rintro before s out after rfl hafter
  obtain ⟨htable, hrow⟩ := entryOf_headerDocument (headerPlace o)
    (recordsOf ((before ++ (s, out) :: after).map recordOf)) s.name
  have hlatest := find?_latest before (c := (s, out)) hafter
  rw [htable, hrow, hlatest]
  exact ⟨rfl, rfl⟩

def glow (slot : Int64) : Shader where
  name := "Glow"
  decls := [.var { var := { name := "tint", type := .vec4, qualifier := .param, slot := slot } }]

def blur : Shader where
  name := "Blur"
  decls := [.var { var := { name := "image", type := .sampler2D, qualifier := .param, slot := 1 } }]

/-- The first of two shaders is compiled again behind the second, with another slot. -/
theorem header_after_glow_blur_glow :
    ∃ (cs : List (Shader × Output)) (w : World) (doc : Document),
      CompileRun { headerDir := "." } {} cs w ∧
      cs.map recordOf = [("Glow", [⟨"tint", .const128, 0, 1⟩]),
        ("Blur", [⟨"image", .texture, 1, 1⟩, ⟨"image_sampler", .sampler, 1, 1⟩]),
        ("Glow", [⟨"tint", .const128, 3, 1⟩])] ∧
      w.files.read "EffectsResources.h" = .ok doc.text ∧
      doc.keys "collections" = .ok ["Glow", "Blur"] ∧
      doc.entry? "collections" "Glow" =
        some ⟨"Glow", tableLines "Glow" [⟨"tint", .const128, 3, 1⟩]⟩ := by
  have hdir : (headerPlace { headerDir := "." }).dir ≠ "" := by decide
  have hsep : (headerPlace { headerDir := "." }).Separate := ⟨hdir, by decide, by decide +kernel⟩
  have hready : (headerPlace { headerDir := "." }).Ready ({} : World).files := by
    refine ⟨⟨by decide +kernel, ⟨["ShaderResourceTypes.h"], ?_, ?_⟩, List.not_mem_nil⟩,
      ⟨by decide +kernel, ⟨["EffectsResources.h"], ?_, ?_⟩, List.not_mem_nil⟩⟩ <;>
      decide +kernel
  obtain ⟨out₁, w₁, hrun₁, hb₁, hready₁⟩ := CompileRun.nil.extend hdir hready (glow 0)
    [⟨"tint", .const128, 0, 1⟩] (by decide +kernel) (by decide +kernel)
  obtain ⟨out₂, w₂, hrun₂, hb₂, hready₂⟩ := hrun₁.extend hdir hready₁ blur
    [⟨"image", .texture, 1, 1⟩, ⟨"image_sampler", .sampler, 1, 1⟩]
    (by decide +kernel) (by decide +kernel)
  obtain ⟨out₃, w₃, hrun₃, hb₃, -⟩ := hrun₂.extend hdir hready₂ (glow 3)
    [⟨"tint", .const128, 3, 1⟩] (by decide +kernel) (by decide +kernel)
  have hglow : PlainName "Glow" := .of_all (by decide) (by decide +kernel) (by decide +kernel)
  have hblur : PlainName "Blur" := .of_all (by decide) (by decide +kernel) (by decide +kernel)
  have hnames : ∀ c ∈ [(glow 0, out₁), (blur, out₂), (glow 3, out₃)], PlainName c.1.name := by
    simp [glow, blur, hglow, hblur]
  obtain ⟨doc, -, hread, -, hkeys, -, hlatest, -, -⟩ :=
    header_after_compiles hsep rfl (by simp) hnames hrun₃
  refine ⟨_, w₃, doc, hrun₃, ?_, hread, hkeys, ?_⟩
  · simp [recordOf, hb₁, hb₂, hb₃, glow, blur]
  · have htable := (hlatest [(glow 0, out₁), (blur, out₂)] (glow 3) out₃ [] rfl (by simp)).1
    rwa [hb₃] at htable

end Shaderwright.Hlsl
