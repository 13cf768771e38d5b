import Mathlib.Tactic.Common
import Shaderwright.Proofs.Files.Descent
import Shaderwright.Proofs.Files.Keeping
import Shaderwright.Proofs.SessionCounters

/-!
What a flush leaves in the files. The headers of a library are written one after another under names
that come from the configuration. No two of them have the same text, so all of them are read back if
and only if their paths are distinct.
-/

namespace Shaderwright

open Shaderwright.Path

/-! ### Files stored one after another -/

namespace FileTree

variable {t : FileTree}

lemma read_storeAll_of_ne {other text : String} {xs : List (String × String)}
    (hr : t.read other = .ok text) (hne : ∀ x ∈ xs, clean x.1 ≠ clean other) :
    (t.storeAll xs).2.read other = .ok text := by
  induction xs generalizing t with
  | nil => exact hr
  | cons x xs ih =>
    rw [List.forall_mem_cons] at hne
    rw [storeAll]
    dsimp only
    exact ih (read_store_of_ne hr hne.1) hne.2

lemma read_storeAll {xs : List (String × String)} (hok : (t.storeAll xs).1 = [])
    (hpaths : (xs.map fun x => clean x.1).Nodup) :
    ∀ x ∈ xs, (t.storeAll xs).2.read x.1 = .ok x.2 := by
  induction xs generalizing t with
  | nil => simp
  | cons x xs ih =>
    rw [List.map_cons, List.nodup_cons] at hpaths
    rw [storeAll] at hok ⊢
    dsimp only at hok ⊢
    rcases hs : t.store x.1 x.2 with ⟨e | _, t'⟩
    · simp [hs, errorOf?] at hok
    · rw [hs] at hok
      rw [List.forall_mem_cons]
      refine ⟨read_storeAll_of_ne (read_store hs) ?_, ih hok hpaths.2⟩
      -- the files that follow have other paths
      intro y hy he
      exact hpaths.1 (he ▸ List.mem_map.mpr ⟨y, hy, rfl⟩)

/-- Different texts under clean paths are all read back if and only if the paths are distinct. -/
lemma read_storeAll_iff {xs : List (String × String)} (hok : (t.storeAll xs).1 = [])
    (hclean : ∀ x ∈ xs, clean x.1 = x.1) (htexts : (xs.map Prod.snd).Nodup) :
    (∀ x ∈ xs, (t.storeAll xs).2.read x.1 = .ok x.2) ↔ (xs.map Prod.fst).Nodup := by
  constructor
  · intro hread
    refine List.Nodup.map_on (fun x hx y hy he => ?_) htexts.of_map
    have hsame := hread x hx
    rw [he, hread y hy] at hsame
    exact Prod.ext he (Except.ok.inj hsame).symm
  · intro hpaths
    refine read_storeAll hok ?_
    rwa [List.map_congr_left hclean]

end FileTree

/-! ### The texts of the headers -/

namespace Msl

open Shaderwright.Text Shaderwright.Document

def titleLines (v : Variant) : List String :=
  ["// Generated by shadergen. Do not edit.", "// Shader uniform metadata (" ++ v.text ++ ")."]

/-- The document starts with the title of a metadata header for this platform. -/
def Titled (v : Variant) (doc : Document) : Prop :=
  ∃ front fronts, doc.blocks.map Block.before = (titleLines v ++ front) :: fronts

lemma isLine_titleLines (v : Variant) : ∀ l ∈ titleLines v, IsLine l := by
  cases v <;> decide

lemma Titled.take_lines {v : Variant} {doc : Document} (h : Titled v doc) :
    (Text.lines doc.text).take 2 = titleLines v := by
  obtain ⟨front, fronts, hfront⟩ := h
  obtain ⟨b, blocks, hblocks, hb, -⟩ := List.map_eq_cons_iff.mp hfront
  obtain ⟨rest, hrest⟩ : ∃ rest, doc.lines = titleLines v ++ rest := by
    simp only [Document.lines, hblocks, List.flatMap_cons, Block.lines, hb, List.append_assoc]
    exact ⟨_, rfl⟩
  rw [Document.text, hrest, lines_unlines_flatMap (by simp [titleLines]), List.flatMap_append,
    flatMap_lines (isLine_titleLines v)]
  rfl

/-- The title tells the headers of the platforms from each other and from the common header. -/
lemma Titled.text_ne_common {v : Variant} {doc : Document} (h : Titled v doc) :
    commonHeaderText ≠ doc.text := by
  intro he
  have htitle := h.take_lines
  rw [← he, commonHeaderText, lines_unlines_flatMap (by simp), List.flatMap_cons,
    List.flatMap_cons, lines_of_isLine (by decide), lines_of_isLine (by decide)] at htitle
  have hsecond : "#pragma once" = "// Shader uniform metadata (" ++ v.text ++ ")." :=
    (List.cons.inj (List.cons.inj htitle).2).1
  revert hsecond
  cases v <;> decide

lemma Titled.eq_of_text {v v' : Variant} {doc doc' : Document} (h : Titled v doc)
    (h' : Titled v' doc') (he : doc.text = doc'.text) : v = v' := by
  have htitle := h.take_lines
  rw [he, h'.take_lines] at htitle
  revert htitle
  cases v <;> cases v' <;> decide

lemma titled_of_parse {v : Variant} {common : String} {doc : Document}
    (h : parse metadataSections (metadataHeaderText v common) = .ok doc) : Titled v doc := by
  obtain ⟨hlaid, hlines⟩ := laid_of_ofLines h
  obtain ⟨others, hothers⟩ : ∃ others,
      metadataHeaderText v common = unlines (titleLines v ++ others) := ⟨_, rfl⟩
  rw [hothers, lines_unlines_flatMap (by simp [titleLines]), List.flatMap_append,
    flatMap_lines (isLine_titleLines v)] at hlines
  obtain ⟨blocks, behind⟩ := doc
  cases blocks with
  | nil => exact hlaid.elim
  | cons b blocks =>
    obtain ⟨-, ⟨before, opening, hb, -, hopening⟩, -⟩ := hlaid
    have hsplit : before ++ opening :: (b.entries.flatMap DocumentEntry.lines ++
        (blocks.flatMap Block.lines ++ behind)) = titleLines v ++ others.flatMap Text.lines := by
      rw [← hlines]
      simp [Document.lines, Block.lines, hb]
    have htitle : ∀ l ∈ titleLines v, isMarker metadataOpening l = false := by
      cases v <;> decide
    obtain ⟨front, hfront, hopens⟩ | ⟨front, hfront, -⟩ := List.append_eq_append_iff.mp hsplit
    · cases front with
      | nil => exact ⟨[opening], blocks.map Block.before, by simp [hb, hfront]⟩
      | cons l front =>
        -- the marker would stand inside the title
        obtain ⟨rfl, -⟩ := List.cons.inj hopens
        have hl := htitle opening (by simp [hfront])
        exact absurd hopening (by simp [metadataSection, hl])
    · exact ⟨front ++ [opening], blocks.map Block.before, by simp [hb, hfront]⟩

end Msl

/-! ### The headers of a library -/

def MslSettings.metadataName (m : MslSettings) : Msl.Variant → String
  | .macOS => m.metadataHeaders.macOS
  | .iOS => m.metadataHeaders.iOS

/-- Where the headers go once shaders were recorded for these platforms. -/
def MslSettings.headerPaths (m : MslSettings) (vs : List Msl.Variant) : List String :=
  (m.commonHeader :: (Msl.Variant.all.filter (· ∈ vs)).map m.metadataName).map (join m.headerDir)

namespace Msl

lemma Variant.mem_filter_all {v : Variant} {vs : List Variant} :
    v ∈ all.filter (· ∈ vs) ↔ v ∈ vs := by
  cases v <;> simp [all]

/-- A library with these settings in which shaders were recorded for these platforms. -/
structure Library.Stocked (m : MslSettings) (vs : List Variant) (l : Library) : Prop where
  commonHeader : l.commonHeader = m.commonHeader
  metadataHeaders : l.metadataHeaders = m.metadataNames
  common : l.common = if vs = [] then "" else commonHeaderText
  begun : ∀ v, v ∈ vs ↔ ∃ doc, l.document? v = some doc
  documents : ∀ v doc, l.document? v = some doc → Sectioned doc ∧ Titled v doc

namespace Library.Stocked

variable {m : MslSettings} {vs : List Variant} {l : Library}

lemma ready (h : l.Stocked m vs) : l.Ready where
  sections v doc hdoc := (h.documents v doc hdoc).1
  named v := by
    rw [h.metadataHeaders]
    cases v <;> exact ⟨_, rfl⟩

lemma openDocument (h : l.Stocked m vs) (v : Variant) :
    ∃ doc, l.openDocument v = .ok doc ∧ Sectioned doc ∧ Titled v doc := by
  obtain ⟨doc, hopen, hdoc⟩ := h.ready.openDocument v
  refine ⟨doc, hopen, hdoc, ?_⟩
  unfold Library.openDocument at hopen
  rcases hfound : l.document? v with _ | found
  · rw [hfound] at hopen
    exact titled_of_parse hopen
  · rw [hfound] at hopen
    cases hopen
    exact (h.documents v doc hfound).2

lemma record (h : l.Stocked m vs) {shader : String} (hshader : shader ≠ "") (v : Variant)
    (us : List Uniform) : (l.record shader v us).2.Stocked m (vs ++ [v]) := by
  obtain ⟨doc, hopen, hdoc, htitled⟩ := h.openDocument v
  obtain ⟨doc', hrecord, hdoc', hbefore⟩ := exists_recordIn hdoc hshader us
  have htitled' : Titled v doc' := by rwa [Titled, hbefore]
  rw [record_eq_ok hopen hrecord]
  refine ⟨h.commonHeader, h.metadataHeaders, ?_, fun u => ?_, fun u d hd => ?_⟩
  · by_cases hnone : vs = [] <;> simp [h.common, hnone, commonHeaderText_ne_empty]
  · have hfound := document?_setDocument l v u doc'
    by_cases hu : u = v
    · rw [if_pos hu] at hfound
      exact iff_of_true (by simp [hu]) ⟨doc', hfound⟩
    · rw [if_neg hu] at hfound
      simp only [List.mem_append, List.mem_singleton, hu, or_false, h.begun, ← hfound]
      rfl
  · have hd' := (document?_setDocument l v u doc').symm.trans hd
    split at hd'
    · rename_i hu
      cases hd'
      exact hu ▸ ⟨hdoc', htitled'⟩
    · exact h.documents u d hd'

lemma variantHeader? (h : l.Stocked m vs) (v : Variant) :
    l.variantHeader? m.headerDir v =
      if v ∈ vs then some (join m.headerDir (m.metadataName v), l.metadata v) else none := by
  have hname : l.metadataHeaders.lookup v = some (m.metadataName v) := by
    rw [h.metadataHeaders]
    cases v <;> rfl
  unfold Library.variantHeader? Library.metadata
  rw [hname]
  by_cases hv : v ∈ vs
  · obtain ⟨doc, hdoc⟩ := (h.begun v).mp hv
    rw [if_pos hv, hdoc]
  · have hnone : l.document? v = none := by
      simpa [h.begun, ← Option.eq_none_iff_forall_ne_some] using hv
    rw [if_neg hv, hnone]

/-- The common header and the header of every platform that received a shader. -/
lemma headers (h : l.Stocked m vs) (hvs : vs ≠ []) :
    l.headers m.headerDir = (join m.headerDir m.commonHeader, l.common) ::
      (Variant.all.filter (· ∈ vs)).map
        fun v => (join m.headerDir (m.metadataName v), l.metadata v) := by
  have hcommon : l.common ≠ "" := by
    rw [h.common, if_neg hvs]
    exact commonHeaderText_ne_empty
  rw [Library.headers, if_neg hcommon, funext h.variantHeader?, h.commonHeader]
  by_cases hmac : Variant.macOS ∈ vs <;> by_cases hios : Variant.iOS ∈ vs <;>
    simp [Variant.all, hmac, hios]

lemma headers_paths (h : l.Stocked m vs) (hvs : vs ≠ []) :
    (l.headers m.headerDir).map Prod.fst = m.headerPaths vs := by
  simp [h.headers hvs, MslSettings.headerPaths, Function.comp_def]

/-- The headers go to the paths of the settings, however many of them there are yet. -/
lemma mem_headerPaths (h : l.Stocked m vs) {header : String × String}
    (hheader : header ∈ l.headers m.headerDir) : header.1 ∈ m.headerPaths Variant.all := by
  have hsub : ∀ vs, m.headerPaths vs ⊆ m.headerPaths Variant.all := by
    intro vs
    have hall : Variant.all.filter (· ∈ Variant.all) = Variant.all := by decide
    rw [MslSettings.headerPaths, MslSettings.headerPaths, hall]
    exact ((List.filter_sublist.map m.metadataName).cons_cons m.commonHeader).map _ |>.subset
  by_cases hvs : vs = []
  · have hnone : l.headers m.headerDir = [] := by
      rw [Library.headers, h.common, if_pos hvs, if_pos rfl, funext h.variantHeader?]
      simp [hvs]
    rw [hnone] at hheader
    cases hheader
  · refine hsub vs ?_
    rw [← h.headers_paths hvs]
    exact List.mem_map_of_mem hheader

lemma metadata_eq (h : l.Stocked m vs) {v : Variant} (hv : v ∈ vs) :
    ∃ doc, Titled v doc ∧ l.metadata v = doc.text := by
  obtain ⟨doc, hdoc⟩ := (h.begun v).mp hv
  exact ⟨doc, (h.documents v doc hdoc).2, by rw [Library.metadata, hdoc]⟩

lemma nodup_texts (h : l.Stocked m vs) (hvs : vs ≠ []) :
    ((l.headers m.headerDir).map Prod.snd).Nodup := by
  rw [h.headers hvs, List.map_cons, List.map_map, List.nodup_cons]
  constructor
  · intro hmem
    obtain ⟨v, hv, he⟩ := List.mem_map.mp hmem
    obtain ⟨doc, htitled, hdoc⟩ := h.metadata_eq (Variant.mem_filter_all.mp hv)
    rw [h.common, if_neg hvs] at he
    exact htitled.text_ne_common (he.symm.trans hdoc)
  · refine List.Nodup.map_on (fun v hv u hu he => ?_) (.filter _ (by decide))
    obtain ⟨doc, htitled, hdoc⟩ := h.metadata_eq (Variant.mem_filter_all.mp hv)
    obtain ⟨doc', htitled', hdoc'⟩ := h.metadata_eq (Variant.mem_filter_all.mp hu)
    exact htitled.eq_of_text htitled' (hdoc.symm.trans (he.trans hdoc'))

end Library.Stocked

end Msl

lemma MslSettings.stocked_library {m : MslSettings} (h : m.commonHeader ≠ "") :
    m.library.Stocked m [] where
  commonHeader := by simp [MslSettings.library, Msl.Library.new, h]
  metadataHeaders := rfl
  common := rfl
  begun v := by simp [MslSettings.library, Msl.Library.new, Msl.Library.document?]
  documents v doc h := by cases h

/-- Every header can be read from the file that its name gives it. -/
structure Msl.Library.ReadBack (m : MslSettings) (vs : List Msl.Variant) (l : Msl.Library)
    (t : FileTree) : Prop where
  common : t.read (join m.headerDir m.commonHeader) = .ok l.common
  metadata : ∀ v ∈ vs, t.read (join m.headerDir (m.metadataName v)) = .ok (l.metadata v)

namespace Msl.Library.Stocked

variable {m : MslSettings} {vs : List Msl.Variant} {l : Msl.Library}

lemma readBack_iff (h : l.Stocked m vs) (hvs : vs ≠ []) {t : FileTree} :
    l.ReadBack m vs t ↔ ∀ x ∈ l.headers m.headerDir, t.read x.1 = .ok x.2 := by
  rw [h.headers hvs, List.forall_mem_cons]
  constructor
  · rintro ⟨hcommon, hmetadata⟩
    refine ⟨hcommon, fun x hx => ?_⟩
    obtain ⟨v, hv, rfl⟩ := List.mem_map.mp hx
    exact hmetadata v (Variant.mem_filter_all.mp hv)
  · rintro ⟨hcommon, hmetadata⟩
    exact ⟨hcommon, fun v hv =>
      hmetadata _ (List.mem_map.mpr ⟨v, Variant.mem_filter_all.mpr hv, rfl⟩)⟩

/-- What is read back when all headers of a library were written. -/
lemma readBack_storeAll_iff (h : l.Stocked m vs) (hvs : vs ≠ []) (hdir : m.headerDir ≠ "")
    {t : FileTree} (hok : (t.storeAll (l.headers m.headerDir)).1 = []) :
    l.ReadBack m vs (t.storeAll (l.headers m.headerDir)).2 ↔ (m.headerPaths vs).Nodup := by
  have hclean : ∀ x ∈ l.headers m.headerDir, clean x.1 = x.1 := by
    intro x hx
    rw [h.headers hvs, List.mem_cons, List.mem_map] at hx
    obtain rfl | ⟨v, -, rfl⟩ := hx <;> exact clean_join hdir _
  rw [h.readBack_iff hvs, FileTree.read_storeAll_iff hok hclean (h.nodup_texts hvs),
    h.headers_paths hvs]

end Msl.Library.Stocked

/-! ### Sessions -/

/-- The session that calls leave behind. -/
def Session.last (s : Session) : List (FileTree × Call) → Build Session
  | [] => return s
  | (files, c) :: rest => do
    Build.setFiles files
    let (_, next) ← s.call c
    next.last rest

def platforms (xs : List Served) : List Msl.Variant := (mslOutputs xs).map Msl.Output.variant

lemma platforms_cons (x : Served) (xs : List Served) :
    platforms (x :: xs) = (x.answer.mslOutput?.map Msl.Output.variant).toList ++ platforms xs := by
  rcases h : x.answer.mslOutput? with _ | out <;> simp [platforms, mslOutputs, h]

/-- A session with this configuration that has recorded shaders for these platforms. -/
structure Session.Stocked (c : Config) (vs : List Msl.Variant) (s : Session) : Prop where
  config : s.config = c
  library : s.library.Stocked c.msl vs

namespace Session.Stocked

variable {c : Config} {vs : List Msl.Variant} {s : Session}

lemma compileMsl (h : s.Stocked c vs) (shader : Option Shader) (outputPath : String) (w : World) :
    (s.compileMsl shader outputPath w).1.2.Stocked c
      (vs ++ ((s.compileMsl shader outputPath w).1.1.toOption.map Msl.Output.variant).toList) := by
  unfold Session.compileMsl
  rw [Build.bind_apply]
  rcases hr : Msl.compile ⟨outputPath, s.config.msl.iosMarker⟩ (some s.library) shader w with
    ⟨⟨e | out, library⟩, w'⟩
  · obtain ⟨rfl, rfl⟩ := Msl.compile_of_error hr
    simpa [Except.toOption] using h
  · rcases shader with _ | shader
    · cases hr
    · have hout : (Msl.compile ⟨outputPath, s.config.msl.iosMarker⟩ (some s.library)
          (some shader) w).1.1 = .ok out := by rw [hr]
      have hlibrary := Msl.compile_library hout
      rw [hr] at hlibrary
      obtain ⟨text, own, ht, -⟩ := Msl.translate_of_compile hout
      have hname := (Msl.translate_eq_ok.mp ht).1
      obtain rfl := hlibrary
      exact ⟨h.config, h.library.record hname out.variant out.uniforms⟩

/-- Only a shader that is compiled to MSL changes the library. -/
lemma call (h : s.Stocked c vs) (k : Call) (w : World) :
    (s.call k w).1.2.Stocked c
      (vs ++ ((s.call k w).1.1.mslOutput?.map Msl.Output.variant).toList) := by
  cases k with
  | hlsl shader => simpa [Session.call, Answer.mslOutput?] using h
  | msl shader outputPath => exact h.compileMsl shader outputPath w
  | flush => simpa [Session.call, Answer.mslOutput?] using h

lemma last (h : s.Stocked c vs) (calls : List (FileTree × Call)) (w : World) :
    (s.last calls w).1.Stocked c (vs ++ platforms (s.run calls w).1) := by
  induction calls generalizing s vs w with
  | nil => simpa [Session.last, Session.run, platforms, mslOutputs] using h
  | cons call calls ih =>
    obtain ⟨files, k⟩ := call
    have hnext := ih (h.call k { w with files }) (s.call k { w with files }).2
    rwa [List.append_assoc,
      ← platforms_cons ⟨s, files, (s.call k { w with files }).1.1⟩] at hnext

end Session.Stocked

lemma bind_eq_ok {ε α β : Type} {m : Except ε α} {k : α → Except ε β} {b : β} :
    m >>= k = .ok b ↔ ∃ a, m = .ok a ∧ k a = .ok b := by
  rcases m with e | a <;> simp [bind, Except.bind]

lemma MslSettings.of_validate {m : MslSettings} (h : m.validate = .ok ()) :
    m.commonHeader ≠ "" ∧ m.metadataHeaders.macOS ≠ m.metadataHeaders.iOS := by
  unfold MslSettings.validate at h
  dsimp only at h
  split at h
  · cases h
  · rename_i hcommon
    split at h
    · cases h
    · split at h
      · cases h
      · rename_i hequal
        exact ⟨hcommon, hequal⟩

/-- Of the names of the headers, a valid configuration only tells those of the metadata apart. -/
lemma Session.settings_of_new {c : Config} {s : Session} (h : Session.new c = .ok s) :
    c.msl.commonHeader ≠ "" ∧ c.msl.metadataHeaders.macOS ≠ c.msl.metadataHeaders.iOS := by
  obtain ⟨hvalid, -⟩ := Session.new_eq_ok.mp h
  obtain ⟨_, -, hsettings⟩ := bind_eq_ok.mp hvalid
  obtain ⟨_, -, hmsl⟩ := bind_eq_ok.mp hsettings
  exact MslSettings.of_validate hmsl

lemma Session.stocked_of_new {c : Config} {s : Session} (h : Session.new c = .ok s) :
    s.Stocked c [] := by
  have hcommon := (Session.settings_of_new h).1
  obtain ⟨-, o, -, rfl⟩ := Session.new_eq_ok.mp h
  exact ⟨rfl, MslSettings.stocked_library hcommon⟩

lemma Session.Stocked.writes_flush {c : Config} {vs : List Msl.Variant} {s : Session}
    (h : s.Stocked c vs) (hdir : c.msl.headerDir ≠ "") :
    Msl.Writes s.flush (s.library.headers c.msl.headerDir) := by
  obtain ⟨rfl⟩ := h.config
  unfold Session.flush
  rw [if_neg hdir]
  exact .flush h.library.ready s.config.msl.headerDir

/-- A flush changes no file but the headers. -/
lemma Session.Stocked.read_flush {c : Config} {vs : List Msl.Variant} {s : Session}
    (h : s.Stocked c vs) {w : World} {other text : String} (hr : w.files.read other = .ok text)
    (hclean : clean other = other)
    (hother : c.msl.headerDir ≠ "" → other ∉ c.msl.headerPaths Msl.Variant.all) :
    (s.flush w).2.files.read other = .ok text := by
  by_cases hdir : c.msl.headerDir = ""
  · unfold Session.flush
    rw [if_pos (by rw [h.config, hdir])]
    exact hr
  · rw [(h.writes_flush hdir).files]
    refine FileTree.read_storeAll_of_ne hr fun header hheader he => hother hdir ?_
    have hpath := h.library.mem_headerPaths hheader
    obtain ⟨name, -, hname⟩ := List.mem_map.mp hpath
    rw [← hname, clean_join hdir, hname, hclean] at he
    exact he ▸ hpath

lemma Session.Stocked.readBack_flush_iff {c : Config} {vs : List Msl.Variant} {s : Session}
    (h : s.Stocked c vs) (hvs : vs ≠ []) (hdir : c.msl.headerDir ≠ "") {w : World}
    (hflush : (s.flush w).1 = []) :
    s.library.ReadBack c.msl vs (s.flush w).2.files ↔ (c.msl.headerPaths vs).Nodup := by
  have hwrites := h.writes_flush hdir
  rw [hwrites.errors, List.map_eq_nil_iff] at hflush
  rw [hwrites.files]
  exact h.library.readBack_storeAll_iff hvs hdir hflush

/-- Plain names that differ give distinct paths. -/
lemma MslSettings.nodup_headerPaths {m : MslSettings} (hdir : m.headerDir ≠ "")
    (hplain : ∀ name ∈ [m.commonHeader, m.metadataHeaders.macOS, m.metadataHeaders.iOS],
      Descends name)
    (hnames : [m.commonHeader, m.metadataHeaders.macOS, m.metadataHeaders.iOS].Nodup)
    (vs : List Msl.Variant) : (m.headerPaths vs).Nodup := by
  have hsub : (m.commonHeader :: (Msl.Variant.all.filter (· ∈ vs)).map m.metadataName).Sublist
      [m.commonHeader, m.metadataHeaders.macOS, m.metadataHeaders.iOS] :=
    (List.filter_sublist.map m.metadataName).cons_cons _
  refine List.Nodup.map_on (fun a ha b hb he => ?_) (hnames.sublist hsub)
  exact (join_inj hdir (hplain a (hsub.subset ha)) (hplain b (hsub.subset hb))).mp he

/-- A flush without errors loses nothing if and only if the headers have distinct paths, whatever
calls went before it and whatever the files were. Names without slashes lead to distinct paths if
the common header is not named like one of the others. -/
theorem flush_readBack_iff {c : Config} {s s' : Session} (hs : Session.new c = .ok s)
    (hdir : c.msl.headerDir ≠ "") {calls : List (FileTree × Call)} {w w' : World}
    {vs : List Msl.Variant} (hvs : platforms (s.run calls w).1 = vs) (hsome : vs ≠ [])
    (hlast : (s.last calls w).1 = s') (hflush : (s'.flush w').1 = []) :
    (s'.library.ReadBack c.msl vs (s'.flush w').2.files ↔ (c.msl.headerPaths vs).Nodup) ∧
      ((∀ name ∈ [c.msl.commonHeader, c.msl.metadataHeaders.macOS, c.msl.metadataHeaders.iOS],
        Descends name) → c.msl.commonHeader ≠ c.msl.metadataHeaders.macOS →
        c.msl.commonHeader ≠ c.msl.metadataHeaders.iOS → (c.msl.headerPaths vs).Nodup) := by
  have hstocked := (Session.stocked_of_new hs).last calls w
  rw [List.nil_append, hvs, hlast] at hstocked
  refine ⟨hstocked.readBack_flush_iff hsome hdir hflush, fun hplain hmac hios => ?_⟩
  have hmetadata := (Session.settings_of_new hs).2
  exact MslSettings.nodup_headerPaths hdir hplain (by simp [hmac, hios, hmetadata]) vs

/-- Compile one shader for each of these output paths. -/
def compileFor (shader : Shader) (paths : List String) : List (FileTree × Call) :=
  paths.map fun path => ({}, .msl (some shader) path)

lemma Session.Stocked.variant_compileMsl {c : Config} {vs : List Msl.Variant} {s : Session}
    (h : s.Stocked c vs) {shader : Shader}
    (ht : (Msl.translate c.msl.commonHeader (some shader)).isOk = true) (path : String)
    (w : World) : (s.compileMsl (some shader) path w).1.1.toOption.map Msl.Output.variant =
      some (Msl.Variant.ofPath path c.msl.iosMarker) := by
  have hcommon : Msl.commonHeaderOf (some s.library) = c.msl.commonHeader := h.library.commonHeader
  rw [← hcommon] at ht
  obtain ⟨out, hout⟩ := Msl.exists_compile ⟨path, s.config.msl.iosMarker⟩ w ht
  obtain ⟨text, own, -, rfl⟩ := Msl.translate_of_compile hout
  unfold Session.compileMsl
  rw [Build.bind_apply]
  generalize Msl.compile ⟨path, s.config.msl.iosMarker⟩ (some s.library) (some shader) w = r
    at hout ⊢
  obtain ⟨⟨_, library⟩, w'⟩ := r
  cases hout
  rw [← h.config]
  rfl

/-- A shader that can be translated is compiled for every path. -/
lemma Session.Stocked.platforms_run {c : Config} {vs : List Msl.Variant} {s : Session}
    (h : s.Stocked c vs) {shader : Shader}
    (ht : (Msl.translate c.msl.commonHeader (some shader)).isOk = true) (paths : List String)
    (w : World) : platforms (s.run (compileFor shader paths) w).1 =
      paths.map (Msl.Variant.ofPath · c.msl.iosMarker) := by
  induction paths generalizing s vs w with
  | nil => rfl
  | cons path paths ih =>
    have hnext := h.call (.msl (some shader) path) { w with files := {} }
    have hvariant := h.variant_compileMsl ht path { w with files := {} }
    rw [List.map_cons, ← ih hnext (s.call (.msl (some shader) path) { w with files := {} }).2]
    refine (platforms_cons ⟨s, {}, _⟩ _).trans ?_
    exact congrArg (fun v => Option.toList v ++ _) hvariant

def bothPaths : List String := ["shroud", "iOS/shroud"]

def Session.afterBoth (s : Session) : Session := (s.last (compileFor shroud bothPaths) {}).1

lemma Session.stocked_afterBoth {c : Config} {s : Session} (hs : Session.new c = .ok s)
    (hvs : platforms (s.run (compileFor shroud bothPaths) {}).1 = [.macOS, .iOS]) :
    s.afterBoth.Stocked c [.macOS, .iOS] := by
  have hstocked := (Session.stocked_of_new hs).last (compileFor shroud bothPaths) {}
  rwa [List.nil_append, hvs] at hstocked

theorem flush_readBack_shroud :
    Session.new shroudConfig = .ok shroudSession ∧
      platforms (shroudSession.run (compileFor shroud bothPaths) {}).1 = [.macOS, .iOS] ∧
      (shroudSession.afterBoth.flush {}).1 = [] ∧
      shroudSession.afterBoth.library.ReadBack shroudConfig.msl [.macOS, .iOS]
        (shroudSession.afterBoth.flush {}).2.files := by
  have hnew : Session.new shroudConfig = .ok shroudSession :=
    Session.new_eq_ok.mpr ⟨by decide +kernel, _, by decide +kernel, rfl⟩
  have hvs : platforms (shroudSession.run (compileFor shroud bothPaths) {}).1 =
      [.macOS, .iOS] := by
    rw [(Session.stocked_of_new hnew).platforms_run (by decide +kernel)]
    decide +kernel
  have hstocked := Session.stocked_afterBoth hnew hvs
  have hflush : (shroudSession.afterBoth.flush {}).1 = [] := by
    rw [(hstocked.writes_flush (by decide)).errors, hstocked.library.headers (by simp)]
    decide +kernel
  have hlast : (shroudSession.last (compileFor shroud bothPaths) {}).1 =
      shroudSession.afterBoth := by rw [Session.afterBoth]
  obtain ⟨hiff, -⟩ := flush_readBack_iff hnew (by decide) hvs (by simp) hlast hflush
  exact ⟨hnew, hvs, hflush, hiff.mpr (by decide +kernel)⟩

/-- The names of the metadata headers differ, and lead to one file. -/
def twinConfig : Config where
  logLevel := "warn"
  hlsl := Config.standard.hlsl
  msl := { Config.standard.msl with headerDir := "gen", metadataHeaders := ⟨"Twin.h", "./Twin.h"⟩ }

def twinSession : Session := ⟨twinConfig, {}, twinConfig.msl.library⟩

/-- The header for one platform takes the place of the other, and no error tells. -/
theorem flush_overwrites_twin :
    Session.new twinConfig = .ok twinSession ∧
      platforms (twinSession.run (compileFor shroud bothPaths) {}).1 = [.macOS, .iOS] ∧
      (twinSession.afterBoth.flush {}).1 = [] ∧
      ¬ twinSession.afterBoth.library.ReadBack twinConfig.msl [.macOS, .iOS]
        (twinSession.afterBoth.flush {}).2.files := by
  have hnew : Session.new twinConfig = .ok twinSession :=
    Session.new_eq_ok.mpr ⟨by decide +kernel, _, by decide +kernel, rfl⟩
  have hvs : platforms (twinSession.run (compileFor shroud bothPaths) {}).1 =
      [.macOS, .iOS] := by
    rw [(Session.stocked_of_new hnew).platforms_run (by decide +kernel)]
    decide +kernel
  have hstocked := Session.stocked_afterBoth hnew hvs
  have hflush : (twinSession.afterBoth.flush {}).1 = [] := by
    rw [(hstocked.writes_flush (by decide)).errors, hstocked.library.headers (by simp)]
    decide +kernel
  refine ⟨hnew, hvs, hflush, fun hread => ?_⟩
  have hpaths := (hstocked.readBack_flush_iff (by simp) (by decide) hflush).mp hread
  exact absurd hpaths (by decide +kernel)

end Shaderwright
