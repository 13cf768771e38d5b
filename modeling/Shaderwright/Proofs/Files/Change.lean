import Mathlib.Tactic.Common
import Shaderwright.Document.File
import Shaderwright.Proofs.Files.Place
import Shaderwright.Proofs.Lists

/-!
What a change keeps of the files. Making directories loses nothing and adds only directories;
writing a file is read back from its path and changes no other place. No change locks a place or
unlocks one.
-/

namespace Shaderwright.FileTree

open Shaderwright.Path

lemma get?_put (t : FileTree) (p q : Place) (e : Entry) :
    (t.put p e).get? q =
      if alwaysThere q then some .directory else if q = p then some e else t.get? q := by
  unfold get? put
  by_cases hq : alwaysThere q
  · simp [hq]
  · simp only [hq, Bool.false_eq_true, if_false, List.lookup_cons]
    by_cases hqp : q = p
    · simp [hqp]
    · simp only [beq_eq_false_iff_ne.mpr hqp, if_neg hqp]
      exact lookup_filter_ne hqp t.entries

lemma alwaysThere_eq_false {t : FileTree} {p : Place} (h : t.get? p ≠ some .directory) :
    alwaysThere p = false := by
  by_contra ha
  exact h (by simp [get?, ha])

/-! ### Making directories -/

/-- Nothing is lost from one tree to the other, and only directories are new. -/
structure Grows (t t' : FileTree) : Prop where
  keeps : ∀ {p e}, t.get? p = some e → t'.get? p = some e
  files : ∀ {p text}, t'.get? p = some (.file text) → t.get? p = some (.file text)
  locked : t'.locked = t.locked

lemma Grows.refl (t : FileTree) : Grows t t := ⟨id, id, rfl⟩

lemma Grows.trans {t t' t'' : FileTree} (h : Grows t t') (h' : Grows t' t'') : Grows t t'' :=
  ⟨fun hp => h'.keeps (h.keeps hp), fun hp => h.files (h'.files hp), h'.locked.trans h.locked⟩

lemma grows_makeDirectory {t t' : FileTree} {path : String} (h : t.makeDirectory path = .ok t') :
    Grows t t' := by
  unfold makeDirectory at h
  rcases hp : t.place (withoutClosing path) with why | p
  · rw [hp] at h
    simp [bind, Except.bind] at h
  · rw [hp] at h
    change (if (t.get? p).isSome then Except.error FileFault.alreadyThere
      else if p ∈ t.locked then .error .denied else .ok (t.put p .directory)) = .ok t' at h
    split_ifs at h with hthere hlocked
    · obtain rfl : t.put p .directory = t' := by simpa using h
      refine ⟨?_, ?_, rfl⟩
      · intro q e hq
        rw [get?_put]
        have hqp : q ≠ p := by
          rintro rfl
          simp [hq] at hthere
        rw [if_neg hqp]
        split
        · rename_i halways
          simpa [get?, halways] using hq
        · exact hq
      · intro q text hq
        rw [get?_put] at hq
        split_ifs at hq <;> simp_all

lemma grows_makeDirectoriesUpTo (fuel : Nat) (t : FileTree) (path : String) :
    Grows t (makeDirectoriesUpTo fuel t path).2 := by
  induction fuel generalizing t path with
  | zero => exact .refl t
  | succ fuel ih =>
    rw [makeDirectoriesUpTo]
    split
    · exact .refl t
    · exact .refl t
    · rcases above? path with _ | parent
      · simp only
        split
        · exact .refl t
        · exact grows_makeDirectory (by assumption)
        · split <;> exact .refl t
      · -- what leads to the directory is made first
        have habove := ih t parent
        simp only
        split
        · exact habove
        · exact habove.trans (grows_makeDirectory (by assumption))
        · split <;> exact habove

lemma grows_makeDirectories (t : FileTree) (path : String) :
    Grows t (t.makeDirectories path).2 :=
  grows_makeDirectoriesUpTo _ t path

/-! ### Following a path -/

/-- A path leads to the same place when there are more directories. -/
lemma follow_mono {t t' : FileTree}
    (h : ∀ p, t.get? p = some .directory → t'.get? p = some .directory) {p q : Place}
    {cs : List String} (hf : t.follow p cs = .ok q) : t'.follow p cs = .ok q := by
  induction cs generalizing p with
  | nil => exact hf
  | cons c rest ih =>
    rw [follow] at hf ⊢
    rcases hp : t.get? p with _ | _ | _
    · simp [hp] at hf
    · simp [hp] at hf
    · rw [hp] at hf
      rw [h p hp]
      simp only at hf ⊢
      split_ifs at hf ⊢ with h1 h2 h3
      · exact ih hf
      · exact ih hf
      · exact ih hf

lemma place_mono {t t' : FileTree}
    (h : ∀ p, t.get? p = some .directory → t'.get? p = some .directory) {path : String}
    {q : Place} (hp : t.place path = .ok q) : t'.place path = .ok q := by
  unfold place at hp ⊢
  split_ifs at hp ⊢ with h1 h2 h3 h4
  · exact follow_mono h hp
  · exact follow_mono h hp

/-! ### Reading and writing -/

lemma read_eq_ok {t : FileTree} {path text : String} :
    t.read path = .ok text ↔ ∃ p, t.place path = .ok p ∧ t.get? p = some (.file text) := by
  unfold read entry
  rcases hp : t.place path with why | p
  · simp [bind, Except.bind]
  · rcases hg : t.get? p with _ | _ | _ <;> simp [bind, Except.bind, hg]

lemma write_eq_ok {t t' : FileTree} {path text : String} (h : t.write path text = .ok t') :
    ∃ p, t.place path = .ok p ∧ t.get? p ≠ some .directory ∧ t' = t.put p (.file text) := by
  unfold write at h
  rcases hp : t.place path with why | p
  · simp [hp] at h
  · rw [hp] at h
    simp only at h
    split at h
    · simp at h
    · rename_i hdir
      split_ifs at h
      exact ⟨p, rfl, fun hg => hdir hg, by simpa using h.symm⟩

def Unlocked (t : FileTree) (path : String) : Prop := destination path ∉ t.locked

lemma write_of_unlocked {t : FileTree} {path : String} (h : t.Unlocked path) {p : Place}
    (hp : t.place path = .ok p) (hdir : t.get? p ≠ some .directory) (text : String) :
    t.write path text = .ok (t.put p (.file text)) := by
  have hlocked : p ∉ t.locked := place_eq_ok hp ▸ h
  unfold write
  rcases hg : t.get? p with _ | _ | _
  · simp [hp, hg, hlocked]
  · simp [hp, hg, hlocked]
  · exact absurd hg hdir

/-- A locked file can be read, but not written. -/
lemma write_of_locked {t : FileTree} {path text : String} (h : t.read path = .ok text)
    (hlocked : ¬ t.Unlocked path) (text' : String) :
    t.write path text' = .error ⟨.access, path, .denied⟩ := by
  obtain ⟨p, hp, hg⟩ := read_eq_ok.mp h
  have hmem : p ∈ t.locked := place_eq_ok hp ▸ not_not.mp hlocked
  simp [write, hp, hg, hmem]

/-- A file that can be read can be written, unless it is locked. -/
lemma write_of_read {t : FileTree} {path text : String} (h : t.read path = .ok text)
    (hopen : t.Unlocked path) (text' : String) : ∃ t', t.write path text' = .ok t' := by
  obtain ⟨p, hp, hg⟩ := read_eq_ok.mp h
  exact ⟨_, write_of_unlocked hopen hp (by simp [hg]) text'⟩

lemma locked_write {t t' : FileTree} {path text : String} (h : t.write path text = .ok t') :
    t'.locked = t.locked := by
  obtain ⟨p, -, -, rfl⟩ := write_eq_ok h
  rfl

lemma Unlocked.of_write {t t' : FileTree} {path other text : String} (h : t.Unlocked path)
    (hw : t.write other text = .ok t') : t'.Unlocked path := by
  rwa [Unlocked, locked_write hw]

lemma get?_directory_put {t : FileTree} {p : Place} {text : String}
    (hp : t.get? p ≠ some .directory) {q : Place} (hq : t.get? q = some .directory) :
    (t.put p (.file text)).get? q = some .directory := by
  rw [get?_put]
  have hqp : q ≠ p := fun e => hp (e ▸ hq)
  rw [if_neg hqp, hq]
  split <;> rfl

lemma read_write {t t' : FileTree} {path text : String} (h : t.write path text = .ok t') :
    t'.read path = .ok text := by
  obtain ⟨p, hp, hdir, rfl⟩ := write_eq_ok h
  refine read_eq_ok.mpr ⟨p, place_mono (fun q hq => get?_directory_put hdir hq) hp, ?_⟩
  rw [get?_put]
  simp [alwaysThere_eq_false hdir]

lemma read_write_of_ne {t t' : FileTree} {path other text text' : String}
    (h : t.write path text = .ok t') (hr : t.read other = .ok text')
    (hne : ∀ q, t.place path = .ok q → t.place other ≠ .ok q) : t'.read other = .ok text' := by
  obtain ⟨p, hp, hdir, rfl⟩ := write_eq_ok h
  obtain ⟨q, hq, hg⟩ := read_eq_ok.mp hr
  refine read_eq_ok.mpr ⟨q, place_mono (fun r hr => get?_directory_put hdir hr) hq, ?_⟩
  have hqp : q ≠ p := fun e => hne p hp (e ▸ hq)
  have hfile : t.get? q ≠ some .directory := by simp [hg]
  rw [get?_put]
  simp [hqp, alwaysThere_eq_false hfile, hg]

lemma Grows.read {t t' : FileTree} (h : Grows t t') {path text : String}
    (hr : t.read path = .ok text) : t'.read path = .ok text := by
  obtain ⟨p, hp, hg⟩ := read_eq_ok.mp hr
  exact read_eq_ok.mpr ⟨p, place_mono (fun q hq => h.keeps hq) hp, h.keeps hg⟩

end Shaderwright.FileTree
