import Mathlib.Tactic.Common
import Shaderwright.Hlsl.Header
import Shaderwright.Proofs.Build.Step
import Shaderwright.Proofs.Files.Keeping

/-!
What recording a shader does to the files: the common header is there afterwards, and the target
header holds the changed document. Where the directory of the headers exists, no file error
comes up, and it stays so.
-/

namespace Shaderwright.Hlsl

open Shaderwright.Text Shaderwright.Document

/-! ### Merging a change into a file -/

/-- A change of a document that meets no file error ends up in the file. -/
lemma read_merge {α : Type} {t t' : FileTree} {path skeleton text : String}
    {sections : List Section} {change : Document → Except DocumentError (α × Document)}
    {doc doc' : Document} {report : α} (hr : t.readOr path skeleton = (.ok text, t'))
    (hp : parse sections text = .ok doc) (hc : change doc = .ok (report, doc'))
    (hio : ∀ e, (t.merge path skeleton sections change).error ≠ some (.file e)) :
    (t.merge path skeleton sections change).files.read path = .ok doc'.text := by
  unfold FileTree.merge at hio ⊢
  simp only [hr, hp, hc] at hio ⊢
  rcases hw : t'.write path doc'.text with e | t''
  · exact absurd (by simp [hw]) (hio e)
  · exact FileTree.read_write hw

lemma readOr_eq_ok {t t' : FileTree} {path skeleton text : String}
    (h : t.readOr path skeleton = (.ok text, t')) :
    t.read path = .ok text ∨ (∀ text', t.read path ≠ .ok text') ∧ text = skeleton := by
  unfold FileTree.readOr at h
  rcases hread : t.read path with e | text'
  · right
    refine ⟨by simp, ?_⟩
    rw [hread] at h
    simp only at h
    split at h
    · rcases hm : t.makeDirectories (Path.dir path) with ⟨e | u, t''⟩
      · simp [hm, Except.map] at h
      · simp [hm, Except.map] at h
        exact h.1.symm
    · simp at h
  · rw [hread] at h
    simp at h
    simp [h.1]

lemma readOr_of_merge {α : Type} {t : FileTree} {path skeleton : String} {sections : List Section}
    {change : Document → Except DocumentError (α × Document)}
    (hio : ∀ e, (t.merge path skeleton sections change).error ≠ some (.file e)) :
    ∃ text t', t.readOr path skeleton = (.ok text, t') ∧
      (t.read path = .ok text ∨ (∀ text', t.read path ≠ .ok text') ∧ text = skeleton) := by
  rcases hr : t.readOr path skeleton with ⟨e | text, t'⟩
  · exact absurd (by simp [FileTree.merge, hr]) (hio e)
  · exact ⟨text, t', rfl, readOr_eq_ok hr⟩

/-- Making sure of a file either leaves everything or makes directories and writes it. -/
lemma ensure_cases {t t' : FileTree} {path text : String} {created : Bool}
    (h : t.ensure path text = (.ok created, t')) :
    t' = t ∨ ∃ t₁, FileTree.Grows t t₁ ∧ t₁.write path text = .ok t' := by
  unfold FileTree.ensure at h
  split at h
  · left
    simp at h
    exact h.2.symm
  · split at h
    · right
      obtain ⟨t₁, hgrows, ⟨e, hstore⟩ | ⟨t₂, hw, hstore⟩⟩ := FileTree.store_cases t path text
      · simp [hstore, Except.map] at h
      · simp [hstore, Except.map] at h
        exact ⟨t₁, hgrows, h.2 ▸ hw⟩
    · simp at h

/-! ### One compile -/

variable {p : HeaderPlace} {shader : String} {bs : List Binding}

/-- The change that recording a shader makes to a target header. -/
def recordMerge (p : HeaderPlace) (shader : String) (bs : List Binding) (t : FileTree) :
    Merge Bool :=
  t.merge p.targetPath (targetHeaderText p.target p.common) headerSections (recordShader shader bs)

/-- The headers depend on the files alone, and so does the answer. -/
lemma mergeHeaders_eq (p : HeaderPlace) (shader : String) (bs : List Binding) (w : World) :
    ((mergeHeaders p shader bs w).1, (mergeHeaders p shader bs w).2.files) =
      match w.files.ensure p.commonPath commonHeaderText with
      | (.error e, t) => (.error (p.commonPath, .file e), t)
      | (.ok _, t) =>
        (match (recordMerge p shader bs t).error with
          | some e => .error (p.targetPath, e)
          | none => .ok p.targetPath, (recordMerge p shader bs t).files) := by
  unfold mergeHeaders recordMerge
  obtain ⟨r, t, hens⟩ : ∃ r t, w.files.ensure p.commonPath commonHeaderText = (r, t) := ⟨_, _, rfl⟩
  simp only [Build.bind_apply, Build.get_apply, Build.setFiles_apply, hens]
  cases r with
  | error e => rfl
  | ok created =>
    dsimp only
    generalize t.merge p.targetPath (targetHeaderText p.target p.common) headerSections
      (recordShader shader bs) = m
    obtain ⟨files, report, error⟩ := m
    cases created <;> by_cases hr : report = some true <;> cases error <;> simp [hr]

/-- Nothing but document errors stands in the way of recording a shader. -/
def FilesWork (p : HeaderPlace) (shader : String) (bs : List Binding) (w : World) : Prop :=
  ∀ path e, (mergeHeaders p shader bs w).1 ≠ .error (path, .file e)

/-- What recording a shader does to the files when these work. -/
lemma mergeHeaders_files {w : World} (h : FilesWork p shader bs w) :
    ∃ created t, w.files.ensure p.commonPath commonHeaderText = (.ok created, t) ∧
      (∀ e, (recordMerge p shader bs t).error ≠ some (.file e)) ∧
      (mergeHeaders p shader bs w).2.files = (recordMerge p shader bs t).files := by
  have heq := mergeHeaders_eq p shader bs w
  rcases hens : w.files.ensure p.commonPath commonHeaderText with ⟨e | created, t⟩
  · rw [hens] at heq
    exact absurd (congrArg Prod.fst heq) (h p.commonPath e)
  · rw [hens] at heq
    refine ⟨created, t, rfl, ?_, congrArg Prod.snd heq⟩
    intro e he
    have hres := congrArg Prod.fst heq
    simp only [he] at hres
    exact h p.targetPath e hres

/-- Recording a shader changes no file but the target header. -/
lemma read_mergeHeaders (hdir : p.dir ≠ "") (shader : String) (bs : List Binding) {w : World}
    {other text : String} (hr : w.files.read other = .ok text) (hclean : Path.clean other = other)
    (htarget : p.targetPath ≠ other) :
    (mergeHeaders p shader bs w).2.files.read other = .ok text := by
  have hfiles := congrArg Prod.snd (mergeHeaders_eq p shader bs w)
  have hensured : (w.files.ensure p.commonPath commonHeaderText).2.read other = .ok text :=
    FileTree.read_ensure_of_clean hr (Path.clean_join hdir _) hclean
  dsimp only at hfiles
  rw [hfiles]
  generalize w.files.ensure p.commonPath commonHeaderText = ensured at hensured ⊢
  obtain ⟨e | created, t⟩ := ensured
  · exact hensured
  · have hne : Path.clean p.targetPath ≠ Path.clean other := by
      rwa [HeaderPlace.targetPath, Path.clean_join hdir, hclean]
    exact FileTree.read_merge_of_ne hensured hne

/-! ### Where the files work -/

/-- A file can be written here: its directory is there, it is no directory itself, and it is not
locked. -/
structure Writable (t : FileTree) (path : String) : Prop where
  dir : t.entry (Path.dir path) = .ok .directory
  place : ∃ q, t.place path = .ok q ∧ t.get? q ≠ some .directory
  unlocked : t.Unlocked path

lemma Writable.makeDirectories {t : FileTree} {path : String} (h : Writable t path) :
    t.makeDirectories (Path.dir path) = (.ok (), t) := by
  rw [FileTree.makeDirectories, FileTree.makeDirectoriesUpTo, h.dir]

lemma Writable.entry {t : FileTree} {path : String} (h : Writable t path) :
    (∃ text, t.entry path = .ok (.file text)) ∨ t.entry path = .error .notFound := by
  obtain ⟨q, hq, hdir⟩ := h.place
  unfold FileTree.entry
  rcases hg : t.get? q with _ | text | _
  · right
    simp [hq, hg, Bind.bind, Except.bind]
  · left
    exact ⟨text, by simp [hq, hg, Bind.bind, Except.bind]⟩
  · exact absurd hg hdir

lemma Writable.write {t : FileTree} {path : String} (h : Writable t path) (text : String) :
    ∃ t', t.write path text = .ok t' := by
  obtain ⟨q, hq, hdir⟩ := h.place
  exact ⟨_, FileTree.write_of_unlocked h.unlocked hq hdir text⟩

lemma entry_eq_directory {t : FileTree} {path : String} :
    t.entry path = .ok .directory ↔
      ∃ q, t.place path = .ok q ∧ t.get? q = some .directory := by
  unfold FileTree.entry
  rcases hp : t.place path with why | q
  · simp [Bind.bind, Except.bind]
  · rcases hg : t.get? q with _ | _ | _ <;> simp [Bind.bind, Except.bind, hg]

lemma Writable.of_write {t t' : FileTree} {path other text : String} (h : Writable t path)
    (hw : t.write other text = .ok t') : Writable t' path := by
  have hopen := h.unlocked.of_write hw
  obtain ⟨p, hp, hdir, rfl⟩ := FileTree.write_eq_ok hw
  have hkeeps : ∀ q, t.get? q = some .directory →
      (t.put p (.file text)).get? q = some .directory :=
    fun q hq => FileTree.get?_directory_put hdir hq
  obtain ⟨d, hd, hgd⟩ := entry_eq_directory.mp h.dir
  obtain ⟨q, hq, hqdir⟩ := h.place
  refine ⟨entry_eq_directory.mpr ⟨d, FileTree.place_mono hkeeps hd, hkeeps d hgd⟩,
    ⟨q, FileTree.place_mono hkeeps hq, ?_⟩, hopen⟩
  rw [FileTree.get?_put, FileTree.alwaysThere_eq_false hqdir]
  simp only [Bool.false_eq_true, if_false]
  split
  · simp
  · exact hqdir

lemma ensure_of_writable {t : FileTree} {path : String} (h : Writable t path) (text : String) :
    ∃ created t', t.ensure path text = (.ok created, t') ∧
      (t' = t ∨ t.write path text = .ok t') := by
  unfold FileTree.ensure FileTree.stat
  rcases h.entry with ⟨found, hfound⟩ | hnone
  · exact ⟨false, t, by simp [hfound, Except.mapError], .inl rfl⟩
  · obtain ⟨t', hw⟩ := h.write text
    have hstore : t.store path text = (.ok (), t') := by
      unfold FileTree.store
      simp only [h.makeDirectories, hw]
    refine ⟨true, t', ?_, .inr hw⟩
    simp only [hnone, Except.mapError, hstore]
    rfl

lemma merge_of_writable {α : Type} {t : FileTree} {path : String} (h : Writable t path)
    (skeleton : String) (sections : List Section)
    (change : Document → Except DocumentError (α × Document)) :
    (∀ e, (t.merge path skeleton sections change).error ≠ some (.file e)) ∧
      ((t.merge path skeleton sections change).files = t ∨
        ∃ text, t.write path text = .ok (t.merge path skeleton sections change).files) := by
  obtain ⟨text, htext⟩ : ∃ text, t.readOr path skeleton = (.ok text, t) := by
    unfold FileTree.readOr FileTree.read
    rcases h.entry with ⟨found, hfound⟩ | hnone
    · exact ⟨found, by simp [hfound]⟩
    · exact ⟨skeleton, by simp [hnone, h.makeDirectories, Except.map]⟩
  unfold FileTree.merge
  simp only [htext]
  rcases parse sections text with e | doc
  · simp
  · rcases hc : change doc with e | ⟨report, doc'⟩
    · simp [hc]
    · obtain ⟨t', hw⟩ := h.write doc'.text
      simp only [hc, hw]
      exact ⟨by simp, .inr ⟨_, hw⟩⟩

def HeaderPlace.Ready (p : HeaderPlace) (t : FileTree) : Prop :=
  Writable t p.commonPath ∧ Writable t p.targetPath

/-- Where both headers can be written, a shader is recorded without a file error, and both can
still be written then. -/
lemma mergeHeaders_ready {w : World} (h : p.Ready w.files) (shader : String) (bs : List Binding) :
    FilesWork p shader bs w ∧ p.Ready (mergeHeaders p shader bs w).2.files := by
  obtain ⟨created, t, hens, ht⟩ := ensure_of_writable h.1 commonHeaderText
  have hready : p.Ready t := by
    rcases ht with rfl | hw
    · exact h
    · exact ⟨h.1.of_write hw, h.2.of_write hw⟩
  obtain ⟨hio, hfiles⟩ := merge_of_writable hready.2 (targetHeaderText p.target p.common)
    headerSections (recordShader shader bs)
  have heq := mergeHeaders_eq p shader bs w
  simp only [hens] at heq
  constructor
  · intro path e he
    have hfst := congrArg Prod.fst heq
    simp only [he] at hfst
    rcases herr : (recordMerge p shader bs t).error with _ | e'
    · simp [herr] at hfst
    · simp only [herr, Except.error.injEq, Prod.mk.injEq] at hfst
      exact hio e (hfst.2 ▸ herr)
  · have hsnd : (mergeHeaders p shader bs w).2.files = (recordMerge p shader bs t).files :=
      congrArg Prod.snd heq
    rw [hsnd, recordMerge]
    rcases hfiles with hsame | ⟨text, hw⟩
    · rwa [hsame]
    · exact ⟨hready.1.of_write hw, hready.2.of_write hw⟩

end Shaderwright.Hlsl
