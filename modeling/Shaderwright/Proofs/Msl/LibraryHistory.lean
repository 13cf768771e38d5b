import Mathlib.Data.List.Induction
import Mathlib.Data.List.Nodup
import Mathlib.Tactic.Common
import Shaderwright.Proofs.Document.Edits
import Shaderwright.Proofs.Lists
import Shaderwright.Proofs.Msl.Compile
import Shaderwright.Proofs.Text.Quoted

/-!
The headers of a library over a whole build. After any sequence of compiles, for whichever
platforms, the metadata header of a platform has one entry for each shader that was compiled for
it, from the latest compile and in the order of the first ones, and its dispatch function tests
each of these shaders once.
-/

namespace Shaderwright.Msl

open Shaderwright.Text Shaderwright.Document

/-! ### The dispatch function -/

def dispatchTest (shader : String) : String :=
  "    if (std::strcmp(shader, " ++ quote shader ++ ") == 0) return " ++ lookupName shader ++
    "(name);\n"

lemma dispatchTest_injective : Function.Injective dispatchTest := by
  intro s t h
  unfold dispatchTest at h
  generalize "    if (std::strcmp(shader, " = opening at h
  simp only [String.append_assoc, String.append_right_inj] at h
  exact (quote_append_inj h).1

lemma dispatchCases_eq (shaders : List String) :
    dispatchCases shaders = String.join (shaders.map dispatchTest) := by
  induction shaders with
  | nil => rfl
  | cons s shaders ih =>
    rw [List.map_cons, String.join_cons, ← ih]
    rfl

lemma dispatchText_eq (shaders : List String) :
    dispatchText shaders =
      "inline int ShaderUniformID(const char* shader, const char* name) \x7b\n" ++
        String.join (shaders.map dispatchTest) ++ "    return -1;\n\x7d\n" := by
  have hclose : "    return -1;\n\x7d" ++ "\n" = "    return -1;\n\x7d\n" := by decide
  have hlast : ∀ a b c : String, a ++ b ++ c = a ++ (b ++ c) := fun _ _ _ => String.append_assoc
  unfold dispatchText dispatchBody
  rw [dispatchCases_eq, hlast _ _ "\n", hclose]

lemma count_dispatchTest {shaders : List String} (h : shaders.Nodup) (t : String) :
    (shaders.map dispatchTest).count (dispatchTest t) = if t ∈ shaders then 1 else 0 := by
  rw [(h.map dispatchTest_injective).count]
  simp only [List.mem_map_of_injective dispatchTest_injective]

/-! ### A metadata header as a document -/

def metadataFront (v : Variant) (common : String) : List String := [
  "// Generated by shadergen. Do not edit.", "// Shader uniform metadata (" ++ v.text ++ ").",
  "#pragma once", "", "#include \"" ++ common ++ "\"", "#include <cstring>", ""]

/-- The metadata header with these contents of its two sections. -/
def metadataDocument (v : Variant) (common : String) (shaders dispatch : List DocumentEntry) :
    Document where
  blocks := [
    ⟨metadataFront v common ++ [metadataOpening], metadataSection, shaders⟩,
    ⟨[metadataClosing, "", dispatchOpening], dispatchSection, dispatch⟩]
  rest := [dispatchClosing, ""]

lemma not_isMarker_metadataFront (v : Variant) (common : String) :
    ∀ l ∈ metadataFront v common, isMarker metadataOpening l = false := by
  intro l hl
  simp only [metadataFront, List.mem_cons, List.not_mem_nil, or_false] at hl
  rcases hl with rfl | rfl | rfl | rfl | rfl | rfl | rfl
  · decide
  · cases v <;> decide
  · decide
  · decide
  · by_contra hm
    obtain ⟨tail, htail⟩ := isPrefix_of_isMarker (by simpa using hm)
    simp [metadataOpening, isBlank] at htail
  · decide
  · decide

lemma metadataDocument_nil_text (v : Variant) (common : String) :
    (metadataDocument v common [] []).text = metadataHeaderText v common := rfl

lemma parse_metadataHeaderText (v : Variant) {common : String} (h : IsLine common) :
    parse metadataSections (metadataHeaderText v common) =
      .ok (metadataDocument v common [] []) := by
  have hlaid : Laid metadataSections (metadataDocument v common [] []).blocks
      (metadataDocument v common [] []).rest :=
    ⟨rfl, ⟨_, _, rfl, not_isMarker_metadataFront v common, by decide⟩, by simp, rfl,
      ⟨_, _, rfl, by decide⟩, rfl, ⟨[metadataClosing, ""], _, rfl, by decide, by decide⟩, by simp,
      rfl, ⟨_, _, rfl, by decide⟩, trivial⟩
  rw [← metadataDocument_nil_text]
  refine parse_text hlaid (by simp [Document.lines, metadataDocument]) ?_
  have hv : IsLine v.text := by cases v <;> decide
  simp only [Document.lines, Block.lines, metadataDocument, metadataFront, List.flatMap_cons,
    List.flatMap_nil, List.cons_append, List.nil_append, List.append_nil, List.forall_mem_cons,
    isLine_append, hv, h]
  decide

/-- Recording a shader replaces its entry or adds one, and writes the dispatch function anew. -/
lemma recordIn_metadataDocument (v : Variant) (common : String)
    (shaders dispatch : List DocumentEntry) {shader : String} (h : shader ≠ "")
    (us : List Uniform) :
    Library.recordIn (metadataDocument v common shaders dispatch) shader us =
      .ok (metadataDocument v common (upserted shader (Library.entryLines shader us) shaders)
        (entriesOf dispatchSection.key (Text.lines (dispatchBody
          (((upserted shader (Library.entryLines shader us) shaders).map
            DocumentEntry.key).filter (· ≠ "")))))) := by
  simp [Library.recordIn, metadataDocument, upsert, keys, Document.set, block?, updateLast,
    upserted, h, metadataSection, dispatchSection, Bind.bind, Except.bind]

/-! ### What is recorded -/

/-- What a compile has to record. -/
structure Recording where
  shader : String
  variant : Variant
  uniforms : List Uniform

def recordingsFor (v : Variant) (rs : List Recording) : List Recording :=
  rs.filter fun r => r.variant = v

lemma recordingsFor_concat (v : Variant) (rs : List Recording) (r : Recording) :
    recordingsFor v (rs ++ [r]) =
      if v = r.variant then recordingsFor v rs ++ [r] else recordingsFor v rs := by
  by_cases h : v = r.variant
  · simp [recordingsFor, h]
  · have h' : r.variant ≠ v := fun e => h e.symm
    simp [recordingsFor, h, h']

def entriesAfter (rs : List Recording) : List DocumentEntry :=
  rs.foldl (fun es r => upserted r.shader (Library.entryLines r.shader r.uniforms) es) []

lemma entriesAfter_concat (rs : List Recording) (r : Recording) :
    entriesAfter (rs ++ [r]) =
      upserted r.shader (Library.entryLines r.shader r.uniforms) (entriesAfter rs) := by
  simp [entriesAfter]

/-- The entries are those of the recorded shaders, in the order of their first recordings. -/
lemma keys_entriesAfter (rs : List Recording) :
    (entriesAfter rs).map DocumentEntry.key = (rs.map Recording.shader).eraseDups := by
  induction rs using List.reverseRecOn with
  | nil => rfl
  | append_singleton rs r ih =>
    rw [entriesAfter_concat, keys_upserted, ih, List.map_append, List.map_singleton,
      eraseDups_concat]
    simp only [List.mem_eraseDups]

lemma filter_keys_entriesAfter {rs : List Recording} (h : ∀ r ∈ rs, r.shader ≠ "") :
    ((entriesAfter rs).map DocumentEntry.key).filter (· ≠ "") =
      (rs.map Recording.shader).eraseDups := by
  rw [keys_entriesAfter, List.filter_eq_self]
  intro s hs
  obtain ⟨r, hr, rfl⟩ := List.mem_map.mp (List.mem_eraseDups.mp hs)
  simpa using h r hr

/-- The entry of a shader is that of its latest recording. -/
lemma find?_entriesAfter (before : List Recording) (r : Recording) {after : List Recording}
    (h : ∀ r' ∈ after, r'.shader ≠ r.shader) :
    (entriesAfter (before ++ r :: after)).find? (fun e => e.key = r.shader) =
      some ⟨r.shader, Library.entryLines r.shader r.uniforms⟩ := by
  induction after using List.reverseRecOn with
  | nil => rw [entriesAfter_concat, find?_upserted, if_pos rfl]
  | append_singleton after r' ih =>
    have hr' : r'.shader ≠ r.shader := h r' (by simp)
    have hafter := ih fun r'' hr'' => h r'' (List.mem_append_left _ hr'')
    rw [← List.cons_append, ← List.append_assoc, entriesAfter_concat, find?_upserted, if_neg hr',
      hafter]

/-- The metadata header of a platform after these recordings for it. -/
def documentAfter (v : Variant) (common : String) (rs : List Recording) : Document :=
  metadataDocument v common (entriesAfter rs) (entriesOf dispatchSection.key
    (Text.lines (dispatchBody (rs.map Recording.shader).eraseDups)))

/-! ### The library from recording to recording -/

lemma commonHeaderText_ne_empty : commonHeaderText ≠ "" := by decide

/-- The library is what these recordings make of an empty one. -/
structure Library.Holds (common : String) (rs : List Recording) (l : Library) : Prop where
  named : ∀ r ∈ rs, r.shader ≠ ""
  commonHeader : l.commonHeader = common
  seeded : l.common = if rs = [] then "" else commonHeaderText
  shaders : l.shaders = (rs.map Recording.shader).eraseDups
  documents : ∀ v, l.document? v =
    if recordingsFor v rs = [] then none else some (documentAfter v common (recordingsFor v rs))

namespace Library

lemma document?_setDocument (l : Library) (v u : Variant) (doc : Document) :
    (l.setDocument v doc).document? u = if u = v then some doc else l.document? u := by
  unfold document? setDocument
  by_cases h : u = v
  · simp [h]
  · simp only [List.lookup_cons, beq_eq_false_iff_ne.mpr h, if_neg h]
    exact lookup_filter_ne h l.documents

lemma holds_new (common : String) (headers : Option (List (Variant × String))) :
    (Library.new common headers).Holds (Library.new common headers).commonHeader [] :=
  ⟨by simp, rfl, rfl, rfl, fun _ => rfl⟩

variable {common : String} {rs : List Recording} {l : Library}

/-- A header that was begun is there, and one that was not starts from its skeleton. -/
lemma Holds.openDocument (h : l.Holds common rs) (hcommon : IsLine common) (v : Variant) :
    ∃ dispatch, l.openDocument v =
      .ok (metadataDocument v common (entriesAfter (recordingsFor v rs)) dispatch) := by
  unfold Library.openDocument
  rw [h.documents v, h.commonHeader]
  by_cases hnone : recordingsFor v rs = []
  · refine ⟨[], ?_⟩
    rw [if_pos hnone, hnone]
    exact parse_metadataHeaderText v hcommon
  · rw [if_neg hnone]
    exact ⟨_, rfl⟩

lemma record_eq_ok {shader : String} {v : Variant} {us : List Uniform} {doc doc' : Document}
    (hopen : l.openDocument v = .ok doc) (hrecord : recordIn doc shader us = .ok doc') :
    l.record shader v us = (.ok (), { l.setDocument v doc' with
      common := if l.common = "" then commonHeaderText else l.common
      shaders := if shader ∈ l.shaders then l.shaders else l.shaders ++ [shader] }) := by
  have hseeded : ∀ text, Library.openDocument { l with common := text } v = .ok doc :=
    fun _ => hopen
  unfold Library.record
  by_cases hempty : l.common = "" <;> by_cases hmem : shader ∈ l.shaders <;>
    simp [hempty, hmem, hseeded, hrecord, setDocument]

/-- A recording never fails, and the library holds it with all earlier ones. -/
lemma Holds.record (h : l.Holds common rs) (hcommon : IsLine common) (r : Recording)
    (hr : r.shader ≠ "") :
    (l.record r.shader r.variant r.uniforms).1 = .ok () ∧
      (l.record r.shader r.variant r.uniforms).2.Holds common (rs ++ [r]) := by
  obtain ⟨dispatch, hopen⟩ := h.openDocument hcommon r.variant
  have hrecord := recordIn_metadataDocument r.variant common
    (entriesAfter (recordingsFor r.variant rs)) dispatch hr r.uniforms
  have hnamed : ∀ r' ∈ rs ++ [r], r'.shader ≠ "" := by simpa [or_imp, forall_and, hr] using h.named
  rw [record_eq_ok hopen hrecord]
  refine ⟨rfl, hnamed, h.commonHeader, ?_, ?_, ?_⟩
  · by_cases hnone : rs = [] <;> simp [h.seeded, hnone, commonHeaderText_ne_empty]
  · simp only [h.shaders, List.mem_eraseDups, List.map_append, List.map_singleton,
      eraseDups_concat]
  · intro v
    have hfor : ∀ r' ∈ recordingsFor r.variant rs ++ [r], r'.shader ≠ "" := by
      intro r' hr'
      rcases List.mem_append.mp hr' with hr' | hr'
      · exact h.named r' (List.mem_of_mem_filter hr')
      · exact List.mem_singleton.mp hr' ▸ hr
    rw [← entriesAfter_concat, filter_keys_entriesAfter hfor, ← documentAfter,
      recordingsFor_concat]
    refine (document?_setDocument l r.variant v _).trans ?_
    by_cases hv : v = r.variant
    · simp [hv]
    · rw [if_neg hv, if_neg hv, h.documents v]

end Library

/-! ### A whole build -/

/-- A sequence of successful compiles into a library, with the library behind it. -/
inductive LibraryRun (start : Library) : List (Shader × Output) → Library → Prop
  | nil : LibraryRun start [] start
  | snoc {cs : List (Shader × Output)} {l l' : Library} {o : Options} {s : Shader} {w : World}
    {out : Output} : LibraryRun start cs l →
    (compile o (some l) (some s) w).1 = (.ok out, some l') → LibraryRun start (cs ++ [(s, out)]) l'

def recordingOf (c : Shader × Output) : Recording := ⟨c.1.name, c.2.variant, c.2.uniforms⟩

/-- The library holds what the compiles had to record. -/
lemma LibraryRun.holds {start l : Library} {cs : List (Shader × Output)}
    (hrun : LibraryRun start cs l) (hline : IsLine start.commonHeader)
    (hstart : start.Holds start.commonHeader []) :
    l.Holds start.commonHeader (cs.map recordingOf) := by
  induction hrun with
  | nil => exact hstart
  | @snoc cs l l' o s w out _ hcompile ih =>
    have hout := congrArg Prod.fst hcompile
    obtain ⟨text, own, ht, -⟩ := translate_of_compile hout
    have hname : s.name ≠ "" := (translate_eq_ok.mp ht).1
    have hl' : l' = (l.record s.name out.variant out.uniforms).2 := by
      have hlibrary := compile_library hout
      rw [hcompile] at hlibrary
      exact Option.some.inj hlibrary
    rw [hl', List.map_append, List.map_singleton]
    exact (ih.record hline (recordingOf (s, out)) hname).2

/-- A run goes on with any shader that can be translated. -/
lemma LibraryRun.extend {start l : Library} {cs : List (Shader × Output)}
    (hrun : LibraryRun start cs l) (hline : IsLine start.commonHeader)
    (hstart : start.Holds start.commonHeader []) (o : Options) (s : Shader) (us : List Uniform)
    (ht : (translate start.commonHeader (some s)).map (fun r => r.2.uniforms) = .ok us) :
    ∃ out l', LibraryRun start (cs ++ [(s, out)]) l' ∧ out.uniforms = us ∧
      out.variant = Variant.ofPath o.outputPath o.iosMarker := by
  have hcommon : l.commonHeader = start.commonHeader := (hrun.holds hline hstart).commonHeader
  obtain ⟨out, hout, hus, hvariant⟩ := compile_of_translate (some l) o s us
    (by rw [commonHeaderOf, Option.map_some, Option.getD_some, hcommon]; exact ht) {}
  exact ⟨out, _, hrun.snoc (Prod.ext hout (compile_library hout)), hus, hvariant⟩

/-- The shaders compiled for a platform, in the order of their first compiles. -/
def shadersFor (v : Variant) (cs : List (Shader × Output)) : List String :=
  ((cs.filter fun c => c.2.variant = v).map fun c => c.1.name).eraseDups

/-- The metadata header of a platform tells of the compiles for it: of each shader the latest one,
in the order of the first ones, and the dispatch function has one test for each. -/
structure MetadataOf (v : Variant) (cs : List (Shader × Output)) (doc : Document) : Prop where
  keys : doc.keys "metadata" = .ok (shadersFor v cs)
  latest : ∀ before s out after, cs = before ++ (s, out) :: after → out.variant = v →
    (∀ c ∈ after, c.2.variant = v → c.1.name ≠ s.name) →
    doc.entry? "metadata" s.name = some ⟨s.name, (metadataMark ++ s.name) ::
      (Text.lines (structText s.name out.uniforms) ++ Text.lines (enumText s.name out.uniforms) ++
        Text.lines (lookupText s.name out.uniforms))⟩
  dispatch : ∃ body, doc.inside? "dispatch" = some body ∧
    body ++ [""] = Text.lines (dispatchText (shadersFor v cs))
  tests : dispatchText (shadersFor v cs) =
      "inline int ShaderUniformID(const char* shader, const char* name) \x7b\n" ++
        String.join ((shadersFor v cs).map dispatchTest) ++ "    return -1;\n\x7d\n" ∧
    ∀ t, ((shadersFor v cs).map dispatchTest).count (dispatchTest t) =
      if t ∈ shadersFor v cs then 1 else 0

lemma shadersFor_eq (v : Variant) (cs : List (Shader × Output)) :
    shadersFor v cs =
      ((recordingsFor v (cs.map recordingOf)).map Recording.shader).eraseDups := by
  rw [shadersFor, recordingsFor, List.filter_map, List.map_map]
  rfl

lemma keys_metadataDocument (v : Variant) (common : String)
    (shaders dispatch : List DocumentEntry) :
    (metadataDocument v common shaders dispatch).keys "metadata" =
      .ok ((shaders.map DocumentEntry.key).filter (· ≠ "")) := by
  simp [keys, block?, metadataDocument, metadataSection, dispatchSection]

lemma entryOf_metadataDocument (v : Variant) (common : String)
    (shaders dispatch : List DocumentEntry) (s : String) :
    Document.entry? (metadataDocument v common shaders dispatch) "metadata" s =
      shaders.find? fun e => e.key = s := by
  unfold Document.entry?
  simp [block?, metadataDocument, metadataSection, dispatchSection]

lemma inside_metadataDocument (v : Variant) (common : String)
    (shaders dispatch : List DocumentEntry) :
    (metadataDocument v common shaders dispatch).inside? "dispatch" =
      some (dispatch.flatMap DocumentEntry.lines) := by
  simp [inside?, block?, metadataDocument, dispatchSection]

lemma metadataOf_documentAfter (v : Variant) (common : String) {cs : List (Shader × Output)}
    (hnamed : ∀ r ∈ cs.map recordingOf, r.shader ≠ "") :
    MetadataOf v cs (documentAfter v common (recordingsFor v (cs.map recordingOf))) where
  keys := by
    rw [documentAfter, keys_metadataDocument, shadersFor_eq]
    exact congrArg _ (filter_keys_entriesAfter fun r hr => hnamed r (List.mem_of_mem_filter hr))
  latest := by
    rintro before s out after rfl hv hafter
    have hsplit : recordingsFor v ((before ++ (s, out) :: after).map recordingOf) =
        recordingsFor v (before.map recordingOf) ++
          recordingOf (s, out) :: recordingsFor v (after.map recordingOf) := by
      simp [recordingsFor, recordingOf, hv]
    have hlater : ∀ r ∈ recordingsFor v (after.map recordingOf),
        r.shader ≠ (recordingOf (s, out)).shader := by
      intro r hr
      obtain ⟨hmem, hvr⟩ := List.mem_filter.mp hr
      obtain ⟨c, hc, rfl⟩ := List.mem_map.mp hmem
      exact hafter c hc (of_decide_eq_true hvr)
    rw [documentAfter, entryOf_metadataDocument, hsplit]
    refine (find?_entriesAfter _ (recordingOf (s, out)) hlater).trans ?_
    simp [recordingOf, Library.entryLines]
  dispatch := by
    refine ⟨_, inside_metadataDocument _ _ _ _, ?_⟩
    rw [lines_entriesOf, ← shadersFor_eq, dispatchText, lines_append_newline]
  tests := ⟨dispatchText_eq _, count_dispatchTest (nodup_eraseDups _)⟩

/-- After any sequence of compiles into a new library, the library names the shaders in the order
of their first compiles, the common header has its text from the first one on, a platform that
nothing was compiled for has no metadata header, every other platform has one that tells of the
compiles for it, and a further shader can always be recorded. -/
theorem library_after_compiles {common : String} (hcommon : IsLine common)
    {headers : Option (List (Variant × String))} {cs : List (Shader × Output)} {l : Library}
    (hrun : LibraryRun (Library.new common headers) cs l) :
    l.shaders = (cs.map fun c => c.1.name).eraseDups ∧
      l.common = (if cs = [] then "" else commonHeaderText) ∧
      (∀ v, (∀ c ∈ cs, c.2.variant ≠ v) → l.metadata v = "") ∧
      (∀ v, (∃ c ∈ cs, c.2.variant = v) →
        ∃ doc, l.document? v = some doc ∧ l.metadata v = doc.text ∧ MetadataOf v cs doc) ∧
      ∀ shader v us, shader ≠ "" → (l.record shader v us).1 = .ok () := by
  have hline : IsLine (Library.new common headers).commonHeader := by
    unfold Library.new
    dsimp only
    split
    · decide
    · exact hcommon
  have hholds := hrun.holds hline (Library.holds_new common headers)
  have hempty : ∀ v, recordingsFor v (cs.map recordingOf) = [] ↔ ∀ c ∈ cs, c.2.variant ≠ v := by
    intro v
    simp only [recordingsFor, recordingOf, List.filter_eq_nil_iff, List.forall_mem_map,
      decide_eq_true_eq, ne_eq]
  refine ⟨?_, ?_, ?_, ?_, ?_⟩
  · rw [hholds.shaders, List.map_map]
    rfl
  · simpa using hholds.seeded
  · intro v hnone
    rw [Library.metadata, hholds.documents, if_pos ((hempty v).mpr hnone)]
  · rintro v ⟨c, hc, hv⟩
    have hdoc := hholds.documents v
    rw [if_neg fun hnone => (hempty v).mp hnone c hc hv] at hdoc
    refine ⟨_, hdoc, ?_, metadataOf_documentAfter v _ hholds.named⟩
    rw [Library.metadata, hdoc]
  · intro shader v us hshader
    exact (hholds.record hline ⟨shader, v, us⟩ hshader).1

def shimmer (type : ShaderType) : Shader where
  name := "Shimmer"
  decls := [.var { var := { name := "speed", type := type, qualifier := .param } }]

def haze : Shader where
  name := "Haze"
  decls := [.var { var := { name := "noise", type := .sampler2D, qualifier := .param } }]

/-- One shader is compiled for each platform, and then the first once more with another uniform. -/
theorem library_after_shimmer_haze_shimmer :
    ∃ (cs : List (Shader × Output)) (l : Library) (mac ios : Document),
      LibraryRun (Library.new "Common.h" none) cs l ∧
      cs.map recordingOf = [⟨"Shimmer", .macOS, [⟨"speed", "float speed;", 0, 1⟩]⟩,
        ⟨"Haze", .iOS, [⟨"noise", "texture2d<float> noise;", 0, 1⟩]⟩,
        ⟨"Shimmer", .macOS, [⟨"speed", "float2 speed;", 0, 1⟩]⟩] ∧
      l.shaders = ["Shimmer", "Haze"] ∧ l.common = commonHeaderText ∧
      l.document? .macOS = some mac ∧ l.document? .iOS = some ios ∧
      mac.keys "metadata" = .ok ["Shimmer"] ∧ ios.keys "metadata" = .ok ["Haze"] ∧
      mac.entry? "metadata" "Shimmer" =
        some ⟨"Shimmer", Library.entryLines "Shimmer" [⟨"speed", "float2 speed;", 0, 1⟩]⟩ ∧
      (∃ body, mac.inside? "dispatch" = some body ∧
        body ++ [""] = Text.lines (dispatchText ["Shimmer"])) ∧
      ∀ us, (l.record "Haze" .macOS us).1 = .ok () := by
  have hline : IsLine (Library.new "Common.h" none).commonHeader := by decide
  have hnew := Library.holds_new "Common.h" none
  obtain ⟨out₁, l₁, hrun₁, hu₁, hv₁⟩ := LibraryRun.nil.extend hline hnew {} (shimmer .float)
    [⟨"speed", "float speed;", 0, 1⟩] (by decide +kernel)
  obtain ⟨out₂, l₂, hrun₂, hu₂, hv₂⟩ := hrun₁.extend hline hnew
    { outputPath := "build/iOS/haze.metal" } haze
    [⟨"noise", "texture2d<float> noise;", 0, 1⟩] (by decide +kernel)
  obtain ⟨out₃, l₃, hrun₃, hu₃, hv₃⟩ := hrun₂.extend hline hnew {} (shimmer .vec2)
    [⟨"speed", "float2 speed;", 0, 1⟩] (by decide +kernel)
  replace hv₁ : out₁.variant = .macOS := hv₁.trans (by decide)
  replace hv₂ : out₂.variant = .iOS := hv₂.trans (by decide +kernel)
  replace hv₃ : out₃.variant = .macOS := hv₃.trans (by decide)
  obtain ⟨hshaders, hcommon, -, hdocuments, hrecord⟩ :=
    library_after_compiles (by decide) hrun₃
  obtain ⟨mac, hmac, -, hmacOf⟩ := hdocuments .macOS ⟨(shimmer .float, out₁), by simp, hv₁⟩
  obtain ⟨ios, hios, -, hiosOf⟩ := hdocuments .iOS ⟨(haze, out₂), by simp, hv₂⟩
  have hmacShaders : shadersFor .macOS
      [(shimmer .float, out₁), (haze, out₂), (shimmer .vec2, out₃)] = ["Shimmer"] := by
    simp [shadersFor, hv₁, hv₂, hv₃, shimmer, List.eraseDups_cons]
  have hiosShaders : shadersFor .iOS
      [(shimmer .float, out₁), (haze, out₂), (shimmer .vec2, out₃)] = ["Haze"] := by
    simp [shadersFor, hv₁, hv₂, hv₃, haze, List.eraseDups_cons]
  have hlatest := hmacOf.latest [(shimmer .float, out₁), (haze, out₂)] (shimmer .vec2) out₃ [] rfl
    hv₃ (by simp)
  refine ⟨_, l₃, mac, ios, hrun₃, ?_, hshaders, hcommon, hmac, hios,
    hmacShaders ▸ hmacOf.keys, hiosShaders ▸ hiosOf.keys, ?_, ?_,
    fun us => hrecord "Haze" .macOS us (by decide)⟩
  · simp [recordingOf, hu₁, hu₂, hu₃, hv₁, hv₂, hv₃, shimmer, haze]
  · rw [hu₃] at hlatest
    exact hlatest.trans (by simp [shimmer, Library.entryLines])
  · have hdispatch := hmacOf.dispatch
    rwa [List.nil_append, List.singleton_append, List.cons_append, List.singleton_append,
      hmacShaders] at hdispatch

end Shaderwright.Msl
