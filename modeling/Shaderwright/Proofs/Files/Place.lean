import Mathlib.Tactic.Common
import Shaderwright.Files.Tree
import Shaderwright.Proofs.Text.Lines

/-!
Where a path leads. There are no links in a tree, so a step up undoes the step down before it and
the place that a path leads to can be told from its text alone. A clean path can be read back off
that place, so two different clean paths never lead to the same one.
-/

namespace Shaderwright.Path

open Shaderwright.Text

/-- A component that goes one step down. -/
def Descends (c : String) : Prop := c ≠ "" ∧ c ≠ "." ∧ c ≠ ".." ∧ '/' ∉ c.toList

/-- Components that climb first and descend then; a path from the root does not climb. -/
def Clean (rooted : Bool) (cs : List String) : Prop :=
  ∃ k names, cs = List.replicate k ".." ++ names ∧ (∀ c ∈ names, Descends c) ∧ (rooted → k = 0)

/-! ### Reducing components -/

/-- One step back on the stack of reduced components, which is read from its top. -/
def takeBack (rooted : Bool) : List String → List String
  | [] => if rooted then [] else [".."]
  | d :: ds => if d = ".." then ".." :: d :: ds else ds

/-- What one component does to the stack. -/
def push (rooted : Bool) (done : List String) (c : String) : List String :=
  if c = "" || c = "." then done else if c = ".." then takeBack rooted done else c :: done

lemma reduce_cons (rooted : Bool) (done : List String) (c : String) (rest : List String) :
    reduce rooted done (c :: rest) = reduce rooted (push rooted done c) rest := by
  rw [push]
  cases done with
  | nil => cases rooted <;> simp only [reduce, takeBack] <;> split_ifs <;> rfl
  | cons d ds =>
    simp only [reduce, takeBack]
    split_ifs <;> rfl

lemma push_of_descends {c : String} (h : Descends c) (rooted : Bool) (done : List String) :
    push rooted done c = c :: done := by
  obtain ⟨h1, h2, h3, -⟩ := h
  simp [push, h1, h2, h3]

lemma clean_push {rooted : Bool} {done : List String} {c : String}
    (h : Clean rooted done.reverse) (hc : '/' ∉ c.toList) :
    Clean rooted (push rooted done c).reverse := by
  unfold push
  by_cases hskip : c = "" ∨ c = "."
  · rw [if_pos (by simpa using hskip)]
    exact h
  rw [if_neg (by simpa using hskip)]
  obtain ⟨k, names, hrev, hnames, hroot⟩ := h
  by_cases hup : c = ".."
  · rw [if_pos hup]
    rcases List.eq_nil_or_concat names with rfl | ⟨ns, n, rfl⟩
    · -- only climbing so far
      obtain rfl : done = List.replicate k ".." := by
        have := congrArg List.reverse hrev
        simpa using this
      cases k with
      | zero =>
        cases rooted
        · exact ⟨1, [], rfl, by simp, by simp⟩
        · exact ⟨0, [], rfl, by simp, by simp⟩
      | succ k =>
        refine ⟨k + 2, [], ?_, by simp, fun hr => absurd (hroot hr) (by omega)⟩
        rw [List.replicate_succ, takeBack, if_pos rfl, ← List.replicate_succ, ← List.replicate_succ]
        simp
    · -- the last step down is taken back
      obtain rfl : done = n :: (List.replicate k ".." ++ ns).reverse := by
        have := congrArg List.reverse hrev
        simpa using this
      have hn : n ≠ ".." := (hnames n (by simp)).2.2.1
      rw [takeBack, if_neg hn]
      exact ⟨k, ns, by simp, fun d hd => hnames d (by simp [hd]), hroot⟩
  · rw [if_neg hup]
    refine ⟨k, names ++ [c], by simp [hrev], ?_, hroot⟩
    intro d hd
    rcases List.mem_append.mp hd with hd | hd
    · exact hnames d hd
    · obtain rfl := List.mem_singleton.mp hd
      exact ⟨fun e => hskip (.inl e), fun e => hskip (.inr e), hup, hc⟩

lemma clean_reduce {rooted : Bool} {cs : List String} (hcs : ∀ c ∈ cs, '/' ∉ c.toList)
    {done : List String} (hdone : Clean rooted done.reverse) :
    Clean rooted (reduce rooted done cs) := by
  induction cs generalizing done with
  | nil => exact hdone
  | cons c rest ih =>
    rw [List.forall_mem_cons] at hcs
    rw [reduce_cons]
    exact ih hcs.2 (clean_push hdone hcs.1)

lemma reduce_of_descends {names : List String} (h : ∀ c ∈ names, Descends c) (rooted : Bool)
    (done : List String) : reduce rooted done names = done.reverse ++ names := by
  induction names generalizing done with
  | nil => simp [reduce]
  | cons c rest ih =>
    rw [List.forall_mem_cons] at h
    rw [reduce_cons, push_of_descends h.1, ih h.2, List.reverse_cons, List.append_assoc,
      List.singleton_append]

lemma reduce_of_clean {rooted : Bool} {cs : List String} (h : Clean rooted cs) :
    reduce rooted [] cs = cs := by
  obtain ⟨k, names, rfl, hnames, hk⟩ := h
  have hclimb : ∀ i, (rooted → k = 0) → reduce rooted (List.replicate i "..")
      (List.replicate k ".." ++ names) = List.replicate (i + k) ".." ++ names := by
    clear hk
    intro i hk
    induction k generalizing i with
    | zero => simp [reduce_of_descends hnames]
    | succ k ih =>
      have hfree : rooted = false := by
        cases rooted
        · rfl
        · exact absurd (hk rfl) (by omega)
      have hpush : push rooted (List.replicate i "..") ".." = List.replicate (i + 1) ".." := by
        cases i <;> simp [push, takeBack, hfree, List.replicate_succ]
      rw [List.replicate_succ, List.cons_append, reduce_cons, hpush, ih (i + 1) (by simp [hfree])]
      congr 2
      omega
  simpa using hclimb 0 hk

lemma Clean.slash_notMem {rooted : Bool} {cs : List String} (h : Clean rooted cs) :
    ∀ c ∈ cs, '/' ∉ c.toList := by
  obtain ⟨k, names, rfl, hnames, -⟩ := h
  intro c hc
  rcases List.mem_append.mp hc with hc | hc
  · rw [List.eq_of_mem_replicate hc]
    decide
  · exact (hnames c hc).2.2.2

lemma Clean.ne_empty {rooted : Bool} {cs : List String} (h : Clean rooted cs) :
    ∀ c ∈ cs, c ≠ "" := by
  obtain ⟨k, names, rfl, hnames, -⟩ := h
  intro c hc
  rcases List.mem_append.mp hc with hc | hc
  · rw [List.eq_of_mem_replicate hc]
    decide
  · exact (hnames c hc).1

/-! ### Texts of components -/

lemma joinWith_ne_empty {c : String} {rest : List String} (hc : c ≠ "") :
    joinWith "/" (c :: rest) ≠ "" := by
  cases rest with
  | nil => exact hc
  | cons d rest => simp [joinWith]

lemma components_joinWith {cs : List String} (h0 : cs ≠ []) (h : ∀ c ∈ cs, '/' ∉ c.toList) :
    components (joinWith "/" cs) = cs :=
  pieces_joinWith rfl h0 h

lemma components_slash_append (text : String) :
    components ("/" ++ text) = "" :: components text := by
  simp [components, pieces, splitOn]

lemma isRooted_joinWith {c : String} {rest : List String} (hc : c ≠ "") (hs : '/' ∉ c.toList) :
    isRooted (joinWith "/" (c :: rest)) = false := by
  have hhead : ∃ tail, (joinWith "/" (c :: rest)).toList = c.toList ++ tail := by
    cases rest with
    | nil => exact ⟨[], by simp [joinWith]⟩
    | cons d rest =>
      exact ⟨_, by simp only [joinWith, String.toList_append, List.append_assoc]; rfl⟩
  obtain ⟨tail, htail⟩ := hhead
  rcases hcs : c.toList with _ | ⟨a, as⟩
  · exact absurd (String.toList_injective (hcs.trans String.toList_empty.symm)) hc
  · rw [hcs] at hs
    simp only [isRooted, htail, hcs, List.cons_append, List.head?_cons]
    simpa using fun e => hs (by simp [e])

/-! ### The place that a path leads to -/

def origin (rooted : Bool) : Place := if rooted then ["/"] else []

/-- The place that a path leads to, if it leads anywhere. -/
def destination (path : String) : Place :=
  origin (isRooted path) ++ reduce (isRooted path) [] (components path)

lemma clean_reduce_components (path : String) :
    Clean (isRooted path) (reduce (isRooted path) [] (components path)) :=
  clean_reduce (fun _ hc => notMem_of_mem_pieces hc) ⟨0, [], by simp, by simp, by simp⟩

/-- The clean path to a place. -/
def ofPlace : Place → String
  | [] => "."
  | c :: rest => if c = "/" then "/" ++ joinWith "/" rest else joinWith "/" (c :: rest)

lemma ofPlace_destination (path : String) : ofPlace (destination path) = clean path := by
  have hclean := clean_reduce_components path
  simp only [destination, clean]
  generalize isRooted path = rooted at hclean ⊢
  generalize reduce rooted [] (components path) = cs at hclean ⊢
  cases rooted
  · rcases cs with _ | ⟨c, rest⟩
    · rfl
    · have hc : c ≠ "" := hclean.ne_empty c List.mem_cons_self
      have hslash : c ≠ "/" := by
        rintro rfl
        exact hclean.slash_notMem _ List.mem_cons_self (by decide)
      simp [origin, ofPlace, hslash, joinWith_ne_empty hc]
  · rfl

lemma destination_ofPlace {rooted : Bool} {cs : List String} (h : Clean rooted cs) :
    destination (ofPlace (origin rooted ++ cs)) = origin rooted ++ cs := by
  rcases cs with _ | ⟨c, rest⟩
  · cases rooted <;> decide
  have hc : c ≠ "" := h.ne_empty c List.mem_cons_self
  have hs : '/' ∉ c.toList := h.slash_notMem c List.mem_cons_self
  have hcomponents := components_joinWith (List.cons_ne_nil c rest) h.slash_notMem
  cases rooted
  · have hslash : c ≠ "/" := by
      rintro rfl
      exact hs (by decide)
    have htext : ofPlace (origin false ++ c :: rest) = joinWith "/" (c :: rest) := if_neg hslash
    rw [htext, destination, isRooted_joinWith hc hs, hcomponents, reduce_of_clean h]
  · have htext : ofPlace (origin true ++ c :: rest) = "/" ++ joinWith "/" (c :: rest) := rfl
    have hroot : isRooted ("/" ++ joinWith "/" (c :: rest)) = true := by simp [isRooted]
    have hskip : push true [] "" = [] := rfl
    rw [htext, destination, hroot, components_slash_append, reduce_cons, hskip, hcomponents,
      reduce_of_clean h]

lemma destination_clean (path : String) : destination (clean path) = destination path := by
  rw [← ofPlace_destination]
  exact destination_ofPlace (clean_reduce_components path)

lemma clean_clean (path : String) : clean (clean path) = clean path := by
  rw [← ofPlace_destination (clean path), destination_clean, ofPlace_destination]

lemma clean_join {dir : String} (hdir : dir ≠ "") (name : String) :
    clean (join dir name) = join dir name := by
  by_cases hn : name = "" <;> simp [join, hdir, hn, clean_clean]

end Shaderwright.Path

namespace Shaderwright.FileTree

open Shaderwright.Path Shaderwright.Text

variable {t : FileTree}

/-- The directory above a place is one component shorter, unless there is nothing to take back. -/
lemma parent_append {rooted : Bool} {done : List String} (h : Clean rooted done.reverse) :
    parent (origin rooted ++ done.reverse) = origin rooted ++ (takeBack rooted done).reverse := by
  cases done with
  | nil => cases rooted <;> decide
  | cons d ds =>
    have hslash : d ≠ "/" := by
      rintro rfl
      exact h.slash_notMem "/" (by simp) (by decide)
    rw [List.reverse_cons, ← List.append_assoc, parent, List.getLast?_concat]
    by_cases hup : d = ".."
    · simp [hup, takeBack]
    · have hroot : origin rooted ++ ds.reverse ++ [d] ≠ ["/"] := by
        intro he
        have hlast := congrArg List.getLast? he
        rw [List.getLast?_concat] at hlast
        exact hslash (by simpa using hlast)
      simp only [if_neg hup, if_neg hroot, List.dropLast_concat, takeBack]

/-- One step along a path. -/
lemma follow_push {rooted : Bool} {done : List String} (h : Clean rooted done.reverse) {c : String}
    {rest : List String} {q : Place}
    (hf : t.follow (origin rooted ++ done.reverse) (c :: rest) = .ok q) :
    t.follow (origin rooted ++ (push rooted done c).reverse) rest = .ok q := by
  rw [follow] at hf
  rw [push]
  split at hf
  · cases hf
  · cases hf
  · split_ifs at hf ⊢
    · exact hf
    · rwa [parent_append h] at hf
    · rwa [List.append_assoc, ← List.reverse_cons] at hf

lemma follow_eq_ok {rooted : Bool} {cs : List String} (hcs : ∀ c ∈ cs, '/' ∉ c.toList)
    {done : List String} (h : Clean rooted done.reverse) {q : Place}
    (hf : t.follow (origin rooted ++ done.reverse) cs = .ok q) :
    q = origin rooted ++ reduce rooted done cs := by
  induction cs generalizing done with
  | nil => simpa [follow, reduce] using hf.symm
  | cons c rest ih =>
    rw [List.forall_mem_cons] at hcs
    rw [reduce_cons]
    exact ih hcs.2 (clean_push h hcs.1) (follow_push h hf)

/-- A path that leads somewhere leads to its destination, whatever the files are. -/
lemma place_eq_ok {path : String} {q : Place} (h : t.place path = .ok q) :
    q = destination path := by
  have hfollow : t.follow (origin (isRooted path)) (components path) = .ok q := by
    unfold place at h
    split_ifs at h with h1 h2 h3 h4 <;> simpa [origin, h4] using h
  have hstart : Clean (isRooted path) [].reverse := ⟨0, [], by simp, by simp, by simp⟩
  have hslash : ∀ c ∈ components path, '/' ∉ c.toList := fun _ hc => notMem_of_mem_pieces hc
  exact follow_eq_ok hslash hstart (by simpa using hfollow)

lemma clean_eq_of_place {t t' : FileTree} {a b : String} {q : Place} (ha : t.place a = .ok q)
    (hb : t'.place b = .ok q) : clean a = clean b := by
  rw [← ofPlace_destination a, ← place_eq_ok ha, place_eq_ok hb, ofPlace_destination]

lemma join_eq_of_place {t t' : FileTree} {dir a b : String} (hdir : dir ≠ "") {q : Place}
    (ha : t.place (join dir a) = .ok q) (hb : t'.place (join dir b) = .ok q) :
    join dir a = join dir b := by
  rw [← clean_join hdir a, ← clean_join hdir b]
  exact clean_eq_of_place ha hb

end Shaderwright.FileTree
