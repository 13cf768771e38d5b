import Mathlib.Tactic.Common
import Shaderwright.Proofs.Files.Place

/-!
Paths below a directory. A name that on its own never climbs above its start leads to a place below
the directory that it is joined to, and two such names lead to the same place only if they take the
same steps down. What a name ends with, its last step ends with too.
-/

namespace Shaderwright.Path

open Shaderwright.Text

/-! ### Reducing behind a directory -/

lemma reduce_append (rooted : Bool) (done xs ys : List String) :
    reduce rooted done (xs ++ ys) = reduce rooted (reduce rooted done xs).reverse ys := by
  induction xs generalizing done with
  | nil => simp [reduce]
  | cons x xs ih => rw [List.cons_append, reduce_cons, reduce_cons, ih]

/-- A step up that found nothing to take back is never taken back itself. -/
lemma climb_mem_push {rooted : Bool} {done : List String} (h : ".." ∈ done) (c : String) :
    ".." ∈ push rooted done c := by
  unfold push
  split_ifs
  · exact h
  · cases done with
    | nil => cases h
    | cons d ds =>
      rw [takeBack]
      split
      · exact List.mem_cons_self
      · rename_i hd
        exact (List.mem_cons.mp h).resolve_left fun e => hd e.symm
  · exact List.mem_cons_of_mem _ h

lemma climb_mem_reduce {rooted : Bool} {done : List String} (h : ".." ∈ done) (cs : List String) :
    ".." ∈ reduce rooted done cs := by
  induction cs generalizing done with
  | nil => simpa [reduce] using h
  | cons c cs ih =>
    rw [reduce_cons]
    exact ih (climb_mem_push h c)

/-- Components that never climb above their start leave alone what stands in front of them. -/
lemma push_append {acc : List String} {c : String} (h : ".." ∉ push false acc c) (rooted : Bool)
    (done : List String) : push rooted (acc ++ done) c = push false acc c ++ done := by
  unfold push at h ⊢
  split_ifs at h ⊢
  · rfl
  · cases acc with
    | nil => simp [takeBack] at h
    | cons d ds =>
      rw [List.cons_append, takeBack, takeBack]
      split
      · rfl
      · rfl
  · rfl

lemma reduce_of_stays {cs acc : List String} (h : ".." ∉ reduce false acc cs) (rooted : Bool)
    (done : List String) :
    reduce rooted (acc ++ done) cs = done.reverse ++ reduce false acc cs := by
  induction cs generalizing acc with
  | nil => simp [reduce]
  | cons c cs ih =>
    rw [reduce_cons] at h ⊢
    have hpush : ".." ∉ push false acc c := fun hmem => h (climb_mem_reduce hmem cs)
    rw [push_append hpush, ih h, reduce_cons]

/-! ### Names in a directory -/

/-- The steps that a name takes from the directory that it is joined to. -/
def descent (name : String) : List String := reduce false [] (components name)

lemma descends_of_mem_descent {name : String} (h : ".." ∉ descent name) :
    ∀ c ∈ descent name, Descends c := by
  obtain ⟨k, names, heq, hnames, -⟩ : Clean false (descent name) :=
    clean_reduce (fun _ hc => notMem_of_mem_pieces hc) ⟨0, [], by simp, by simp, by simp⟩
  cases k with
  | zero => simpa [heq] using hnames
  | succ k => exact absurd (by simp [heq, List.replicate_succ]) h

lemma descent_of_descends {name : String} (h : Descends name) : descent name = [name] := by
  have hone : components name = [name] := by simp [components, pieces, splitOn_of_notMem h.2.2.2]
  rw [descent, hone, reduce_of_descends (by simpa using h)]
  rfl

lemma components_append (s t : String) :
    components (s ++ "/" ++ t) = components s ++ components t := by
  have hsplit := splitOn_append '/' s.toList t.toList
  simp [components, pieces, String.toList_append, hsplit]

lemma isRooted_append {s : String} (h : s ≠ "") (t : String) :
    isRooted (s ++ t) = isRooted s := by
  rcases hs : s.toList with _ | ⟨a, as⟩
  · exact absurd (String.toList_injective (hs.trans String.toList_empty.symm)) h
  · simp [isRooted, hs]

/-- Where a name leads that is joined to a directory. -/
lemma destination_join {dir name : String} (hdir : dir ≠ "") (hname : name ≠ "") :
    destination (join dir name) = origin (isRooted dir) ++
      reduce (isRooted dir) (reduce (isRooted dir) [] (components dir)).reverse
        (components name) := by
  have hjoin : join dir name = clean (dir ++ "/" ++ name) := by simp [join, hdir, hname, joinWith]
  rw [hjoin, destination_clean, destination, components_append, reduce_append, String.append_assoc,
    isRooted_append hdir]

lemma destination_join_of_stays {dir name : String} (hdir : dir ≠ "") (hname : name ≠ "")
    (h : ".." ∉ descent name) :
    destination (join dir name) = destination dir ++ descent name := by
  have hstays := reduce_of_stays h (isRooted dir)
    (reduce (isRooted dir) [] (components dir)).reverse
  rw [List.nil_append, List.reverse_reverse] at hstays
  rw [destination_join hdir hname, hstays, destination, descent, List.append_assoc]

lemma join_inj {dir a b : String} (hdir : dir ≠ "") (ha : Descends a) (hb : Descends b) :
    join dir a = join dir b ↔ a = b := by
  refine ⟨fun h => ?_, fun h => by rw [h]⟩
  have hplain : ∀ {c}, Descends c → destination (join dir c) = destination dir ++ [c] := by
    intro c hc
    have hone := descent_of_descends hc
    have hstays : ".." ∉ descent c := by
      rw [hone, List.mem_singleton]
      exact hc.2.2.1.symm
    rw [destination_join_of_stays hdir hc.1 hstays, hone]
  have heq := congrArg destination h
  rw [hplain ha, hplain hb] at heq
  simpa using heq

/-! ### Endings -/

lemma joinWith_concat (separator : String) (init : List String) (last ending : String) :
    joinWith separator (init ++ [last]) ++ ending =
      joinWith separator (init ++ [last ++ ending]) := by
  induction init with
  | nil => rfl
  | cons c init ih =>
    rw [List.cons_append, List.cons_append, joinWith_cons _ _ (by simp),
      joinWith_cons _ _ (by simp), String.append_assoc, ih]

lemma components_append_ending (name : String) {ending : String} (h : '/' ∉ ending.toList) :
    ∃ init last, components (name ++ ending) = init ++ [last ++ ending] := by
  have hne : components name ≠ [] := by simp [components, pieces, splitOn_ne_nil]
  obtain ⟨init, last, hsplit⟩ := List.eq_nil_or_concat (components name) |>.resolve_left hne
  rw [List.concat_eq_append] at hsplit
  have hslash : ∀ c ∈ init ++ [last], '/' ∉ c.toList := by
    rw [← hsplit]
    exact fun c hc => notMem_of_mem_pieces hc
  have hname : name = joinWith "/" (init ++ [last]) := by
    rw [← hsplit]
    exact (joinWith_pieces rfl name).symm
  refine ⟨init, last, ?_⟩
  rw [hname, joinWith_concat, components_joinWith (by simp)]
  intro c hc
  rcases List.mem_append.mp hc with hc | hc
  · exact hslash c (List.mem_append_left _ hc)
  · rw [List.mem_singleton.mp hc, String.toList_append, List.mem_append]
    exact not_or.mpr ⟨hslash last (by simp), h⟩

lemma descends_append_ending {c ending : String} (hc : '/' ∉ c.toList) (h : '/' ∉ ending.toList)
    (hlen : 2 < ending.length) : Descends (c ++ ending) := by
  have hlong : 2 < (c ++ ending).length := by
    rw [String.length_append]
    omega
  refine ⟨?_, ?_, ?_, by simpa using not_or.mpr ⟨hc, h⟩⟩ <;>
    · intro he
      rw [he] at hlong
      exact absurd hlong (by decide)

/-- A name with an ending leads down in its last step, from wherever it is followed. -/
lemma reduce_components_ending (rooted : Bool) (done : List String) (name : String)
    {ending : String} (h : '/' ∉ ending.toList) (hlen : 2 < ending.length) :
    ∃ front last, reduce rooted done (components (name ++ ending)) = front ++ [last ++ ending] := by
  obtain ⟨init, last, hcomponents⟩ := components_append_ending name h
  have hlast : '/' ∉ (last ++ ending).toList := by
    refine notMem_of_mem_pieces (s := name ++ ending) ?_
    show last ++ ending ∈ components (name ++ ending)
    simp [hcomponents]
  have hdescends : Descends (last ++ ending) := by
    rw [String.toList_append, List.mem_append, not_or] at hlast
    exact descends_append_ending hlast.1 h hlen
  refine ⟨reduce rooted done init, last, ?_⟩
  rw [hcomponents, reduce_append, reduce_of_descends (by simpa using hdescends),
    List.reverse_reverse]

lemma append_ending_ne_empty (name : String) {ending : String} (hlen : 2 < ending.length) :
    name ++ ending ≠ "" := by
  intro he
  have hlength := congrArg String.length he
  rw [String.length_append, String.length_empty] at hlength
  omega

lemma descent_ending_ne_nil (name : String) {ending : String} (h : '/' ∉ ending.toList)
    (hlen : 2 < ending.length) : descent (name ++ ending) ≠ [] := by
  obtain ⟨front, last, hdescent⟩ := reduce_components_ending false [] name h hlen
  rw [descent, hdescent]
  simp

lemma destination_join_ending {dir : String} (hdir : dir ≠ "") (name : String) {ending : String}
    (h : '/' ∉ ending.toList) (hlen : 2 < ending.length) :
    ∃ front last, destination (join dir (name ++ ending)) = front ++ [last ++ ending] := by
  obtain ⟨front, last, hsteps⟩ := reduce_components_ending (isRooted dir)
    (reduce (isRooted dir) [] (components dir)).reverse name h hlen
  refine ⟨origin (isRooted dir) ++ front, last, ?_⟩
  rw [destination_join hdir (append_ending_ne_empty name hlen), hsteps, List.append_assoc]

end Shaderwright.Path
