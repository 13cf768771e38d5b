import Mathlib.Tactic.Common
import Shaderwright.Document.File
import Shaderwright.Proofs.Files.Change

/-!
What a change of one file keeps of the others. A file is told from others by its clean path: it
stays readable while files under other clean paths are stored or merged, and a file that is only
made sure of is never lost, not even under its own path. A merge that fails changes no file at all.
-/

namespace Shaderwright.FileTree

open Shaderwright.Path

variable {t t' : FileTree} {path other text text' : String}

lemma read_write_of_clean_ne (h : t.write path text = .ok t') (hr : t.read other = .ok text')
    (hne : clean path ≠ clean other) : t'.read other = .ok text' :=
  read_write_of_ne h hr fun _ hq hq' => hne (clean_eq_of_place hq hq')

/-! ### Storing a file -/

/-- Storing a file makes directories, and then writes it or fails. -/
lemma store_cases (t : FileTree) (path text : String) :
    ∃ t₁, Grows t t₁ ∧ ((∃ e, t.store path text = (.error e, t₁)) ∨
      ∃ t₂, t₁.write path text = .ok t₂ ∧ t.store path text = (.ok (), t₂)) := by
  have hgrows := grows_makeDirectories t (dir path)
  unfold store
  rcases hm : t.makeDirectories (dir path) with ⟨e | _, t₁⟩
  · rw [hm] at hgrows
    exact ⟨t₁, hgrows, .inl ⟨e, rfl⟩⟩
  · rw [hm] at hgrows
    rcases hw : t₁.write path text with e | t₂
    · exact ⟨t₁, hgrows, .inl ⟨e, by simp [hw]⟩⟩
    · exact ⟨t₁, hgrows, .inr ⟨t₂, hw, by simp [hw]⟩⟩

lemma read_store (h : t.store path text = (.ok (), t')) : t'.read path = .ok text := by
  obtain ⟨t₁, -, ⟨e, he⟩ | ⟨t₂, hw, hok⟩⟩ := store_cases t path text
  · rw [h] at he
    cases he
  · rw [h] at hok
    cases hok
    exact read_write hw

/-- Storing a file keeps the files under other paths, whether it succeeds or not. -/
lemma read_store_of_ne (hr : t.read other = .ok text') (hne : clean path ≠ clean other) :
    (t.store path text).2.read other = .ok text' := by
  obtain ⟨t₁, hgrows, ⟨e, he⟩ | ⟨t₂, hw, hok⟩⟩ := store_cases t path text
  · rw [he]
    exact hgrows.read hr
  · rw [hok]
    exact read_write_of_clean_ne hw (hgrows.read hr) hne

/-! ### Making sure of a file -/

lemma stat_of_read (h : t.read path = .ok text) : t.stat path = .ok (.file text) := by
  obtain ⟨p, hp, hg⟩ := read_eq_ok.mp h
  simp [stat, entry, hp, hg, bind, Except.bind, Except.mapError]

lemma read_ensure_of_clean (hr : t.read other = .ok text') (hpath : clean path = path)
    (hother : clean other = other) : (t.ensure path text).2.read other = .ok text' := by
  by_cases hne : path = other
  · subst hne
    simp only [ensure, stat_of_read hr]
    exact hr
  · have hstored : (t.store path text).2.read other = .ok text' :=
      read_store_of_ne hr (by rwa [hpath, hother])
    unfold ensure
    generalize t.store path text = stored at hstored ⊢
    split
    · exact hr
    · split
      · exact hstored
      · exact hr

lemma locked_ensure (t : FileTree) (path text : String) :
    (t.ensure path text).2.locked = t.locked := by
  unfold ensure
  split
  · rfl
  · split
    · obtain ⟨t₁, hgrows, ⟨e, hstore⟩ | ⟨t₂, hw, hstore⟩⟩ := store_cases t path text
      · rw [hstore]
        exact hgrows.locked
      · rw [hstore]
        exact (locked_write hw).trans hgrows.locked
    · rfl

/-! ### Merging a change into a file -/

lemma grows_readOr (t : FileTree) (path skeleton : String) :
    Grows t (t.readOr path skeleton).2 := by
  have hmade := grows_makeDirectories t (dir path)
  unfold readOr
  generalize t.makeDirectories (dir path) = made at hmade ⊢
  split
  · exact .refl t
  · split
    · exact hmade
    · exact .refl t

lemma Unlocked.merge {α : Type} (h : t.Unlocked other) (path skeleton : String)
    (sections : List Section) (change : Document → Except DocumentError (α × Document)) :
    (t.merge path skeleton sections change).files.Unlocked other := by
  have hopen : (t.readOr path skeleton).2.Unlocked other := by
    rwa [Unlocked, (grows_readOr t path skeleton).locked]
  unfold FileTree.merge
  generalize t.readOr path skeleton = start at hopen ⊢
  obtain ⟨e | found, t₁⟩ := start
  · exact hopen
  · dsimp only at hopen ⊢
    split
    · exact hopen
    · split
      · exact hopen
      · split
        · exact hopen
        · rename_i hw
          exact hopen.of_write hw

lemma read_merge_of_ne {α : Type} {skeleton : String} {sections : List Section}
    {change : Document → Except DocumentError (α × Document)} (hr : t.read other = .ok text')
    (hne : clean path ≠ clean other) :
    (t.merge path skeleton sections change).files.read other = .ok text' := by
  have hread := (grows_readOr t path skeleton).read hr
  unfold merge
  generalize t.readOr path skeleton = start at hread ⊢
  obtain ⟨e | found, t₁⟩ := start
  · exact hread
  · dsimp only at hread ⊢
    split
    · exact hread
    · split
      · exact hread
      · split
        · exact hread
        · rename_i hw
          exact read_write_of_clean_ne hw hread hne

/-! ### The text at a path -/

/-- The text of the file at the place that a path leads to, whether or not it can be reached. -/
def textAt (t : FileTree) (path : String) : Option String :=
  match t.get? (destination path) with
  | some (.file text) => some text
  | _ => none

lemma textAt_eq_some : t.textAt path = some text ↔
    t.get? (destination path) = some (.file text) := by
  unfold textAt
  split <;> simp_all

/-- The file at a path stays as it is: its text is the same, and it can be read as before. -/
structure Keeps (path : String) (t t' : FileTree) : Prop where
  text : t'.textAt path = t.textAt path
  read : ∀ {text}, t.read path = .ok text → t'.read path = .ok text

lemma Keeps.refl (path : String) (t : FileTree) : Keeps path t t := ⟨rfl, id⟩

lemma Keeps.trans {t'' : FileTree} (h : Keeps path t t') (h' : Keeps path t' t'') :
    Keeps path t t'' :=
  ⟨h'.text.trans h.text, fun hr => h'.read (h.read hr)⟩

lemma Grows.keeps_file (h : Grows t t') (path : String) : Keeps path t t' where
  text := by
    ext text
    rw [textAt_eq_some, textAt_eq_some]
    exact ⟨h.files, h.keeps⟩
  read := h.read

lemma keeps_write_of_clean_ne (h : t.write path text = .ok t') (hne : clean path ≠ clean other) :
    Keeps other t t' where
  text := by
    obtain ⟨p, hp, hdir, rfl⟩ := write_eq_ok h
    have hplace : destination other ≠ p := by
      rw [place_eq_ok hp]
      intro heq
      exact hne (by rw [← ofPlace_destination path, ← heq, ofPlace_destination])
    unfold textAt
    rw [get?_put, if_neg hplace]
    split_ifs with hthere
    · simp [get?, hthere]
    · rfl
  read := fun hr => read_write_of_clean_ne h hr hne

lemma keeps_ensure_of_clean_ne (t : FileTree) (text : String) (hne : clean path ≠ clean other) :
    Keeps other t (t.ensure path text).2 := by
  unfold ensure
  split
  · exact .refl other t
  · split
    · obtain ⟨t₁, hgrows, ⟨e, hstore⟩ | ⟨t₂, hw, hstore⟩⟩ := store_cases t path text
      · rw [hstore]
        exact hgrows.keeps_file other
      · rw [hstore]
        exact (hgrows.keeps_file other).trans (keeps_write_of_clean_ne hw hne)
    · exact .refl other t

/-- A merge that fails changes no file. -/
lemma keeps_merge_of_error {α : Type} {skeleton : String} {sections : List Section}
    {change : Document → Except DocumentError (α × Document)} {e : HeaderError}
    (h : (t.merge path skeleton sections change).error = some e) (other : String) :
    Keeps other t (t.merge path skeleton sections change).files := by
  have hkeeps := (grows_readOr t path skeleton).keeps_file other
  unfold merge at h ⊢
  generalize t.readOr path skeleton = start at h hkeeps ⊢
  obtain ⟨e' | found, t₁⟩ := start
  · exact hkeeps
  · dsimp only at h hkeeps ⊢
    split
    · exact hkeeps
    · split
      · exact hkeeps
      · split
        · exact hkeeps
        · -- the changed document was written
          simp_all

end Shaderwright.FileTree
