import Mathlib.Tactic.Common
import Shaderwright.Proofs.Msl.Substitution

/-!
Which patterns are admitted. The nesting is at most twice as deep as the longest name is long, and
few names make few parts, so all names of usual lengths are admitted in any order. Names that
extend each other by one character are nested as deep as names can be.
-/

namespace Shaderwright.Msl

namespace Pattern

/-! ### Depth -/

namespace Branch

lemma tallest_le_iff {bs : List Branch} {n : Nat} :
    tallest bs ≤ n ↔ ∀ b ∈ bs, b.height ≤ n := by
  induction bs with
  | nil => simp [tallest]
  | cons b bs ih => rw [tallest, Nat.max_le, ih, List.forall_mem_cons]

lemma tallest_onto (b : Branch) (bs : List Branch) :
    tallest (b.onto bs) = max b.height (tallest bs) := by
  fun_cases onto b bs with
  | case1 rest => simp only [tallest, height]; omega
  | case2 m n rest => simp only [tallest, height]; omega
  | case3 => rw [tallest]

@[simp] lemma tallest_tidy (bs : List Branch) : tallest (tidy bs) = tallest bs := by
  induction bs with
  | nil => rfl
  | cons b bs ih => rw [tidy, List.foldr_cons, tallest_onto, ← tidy, ih, tallest]

lemma tidy_of_blank {bs : List Branch} (h : ∀ b ∈ bs, b = blank) :
    tidy bs = [] ∨ tidy bs = [blank] := by
  induction bs with
  | nil => exact .inl rfl
  | cons b bs ih =>
    obtain ⟨rfl, hbs⟩ := List.forall_mem_cons.mp h
    rw [tidy, List.foldr_cons, ← tidy]
    rcases ih hbs with htidy | htidy <;> simp [htidy, onto]

end Branch

namespace Run

lemma branch_alike (start : Char) (tail other : List Char) (others : List (List Char)) :
    (alike start tail (other :: others)).branch =
      .group (sharedLength tail (other :: others) + 1)
        (Branch.tidy ((rest tail (other :: others)).map branch)) := by
  rw [branch, List.attach_map_val]

/-- Along the groups that a run is made of. -/
lemma inductOn {motive : Run → Prop} (blank : motive blank) (set : ∀ chars, motive (set chars))
    (single : ∀ start tail, motive (alike start tail []))
    (several : ∀ start tail other others, (∀ r ∈ rest tail (other :: others), motive r) →
      motive (alike start tail (other :: others))) (r : Run) : motive r := by
  induction r using branch.induct with
  | case1 => exact blank
  | case2 chars => exact set chars
  | case3 start => exact single start []
  | case4 start tail _ => exact single start tail
  | case5 start tail other others ih => exact several start tail other others fun r hr => ih ⟨r, hr⟩

/-- The names of a run are no longer than this. -/
def Within (n : Nat) : Run → Prop
  | blank => True
  | set _ => 1 ≤ n
  | alike _ tail others => ∀ t ∈ tail :: others, t.length + 1 ≤ n

variable {n : Nat} {r : Run} {rs : List Run}

lemma within_ofName {name : List Char} (h : name.length ≤ n) : (ofName name).Within n := by
  cases name with
  | nil => trivial
  | cons c tail => simpa [ofName, Within] using h

lemma within_onto (hr : r.Within n) (hrs : ∀ r ∈ rs, r.Within n) :
    ∀ r' ∈ r.onto rs, r'.Within n := by
  fun_cases onto r rs with
  | case1 chars chars' rest =>
    rw [List.forall_mem_cons] at hrs ⊢
    exact hrs
  | case2 c tail others tail' others' rest =>
    rw [List.forall_mem_cons] at hrs ⊢
    refine ⟨fun t ht => ?_, hrs.2⟩
    rw [← List.cons_append, List.mem_append] at ht
    exact ht.elim (hr t) (hrs.1 t)
  | case3 c tail others c' tail' others' rest => exact List.forall_mem_cons.mpr ⟨hr, hrs⟩
  | case4 => exact List.forall_mem_cons.mpr ⟨hr, hrs⟩

lemma within_join (h : ∀ r ∈ rs, r.Within n) : ∀ r ∈ join rs, r.Within n := by
  induction rs with
  | nil => exact h
  | cons r rs ih =>
    rw [List.forall_mem_cons] at h
    exact within_onto h.1 (ih h.2)

lemma within_rest {tail : List Char} {others : List (List Char)}
    (h : ∀ t ∈ tail :: others, t.length ≤ n) : ∀ r ∈ rest tail others, r.Within n := by
  refine within_join (List.forall_mem_map.mpr fun t ht => within_ofName ?_)
  have hlength := h t ht
  rw [List.length_drop]
  omega

lemma branch_of_within_zero (h : r.Within 0) : r.branch = .blank := by
  cases r with
  | blank => rw [branch]
  | set chars => simp [Within] at h
  | alike c tail others => exact absurd (h tail List.mem_cons_self) (Nat.not_succ_le_zero _)

/-- Each group takes at least one character of its names and adds at most two levels. -/
lemma height_branch_le (r : Run) : ∀ {n : Nat}, r.Within n → r.branch.height ≤ max 1 (2 * n) := by
  induction r using inductOn with
  | blank =>
    intro n _
    have hone : (branch blank).height = 1 := by simp [branch, Branch.height]
    omega
  | set chars =>
    intro n _
    have hone : (branch (set chars)).height = 1 := by simp [branch, Branch.height]
    omega
  | single start tail =>
    intro n _
    have hone : (branch (alike start tail [])).height = 1 := by
      cases tail <;> simp [branch, Branch.height]
    omega
  | several start tail other others ih =>
    intro n h
    have hrest : ∀ r ∈ rest tail (other :: others), r.Within (n - 1) :=
      within_rest fun t ht => by have := h t ht; omega
    have htallest : Branch.tallest ((rest tail (other :: others)).map branch) ≤
        max 1 (2 * (n - 1)) :=
      Branch.tallest_le_iff.mpr (List.forall_mem_map.mpr fun r hr => ih r hr (hrest r hr))
    have hpos : 1 ≤ n := Nat.le_trans (Nat.le_add_left ..) (h tail List.mem_cons_self)
    rw [branch_alike, Branch.height]
    rcases Nat.lt_or_ge 1 n with hn | hn
    · rw [Branch.tallest_tidy]
      split <;> omega
    · -- of names of one character nothing is left
      obtain rfl : n = 1 := by omega
      have hblank := Branch.tidy_of_blank
        (List.forall_mem_map.mpr fun r hr => branch_of_within_zero (hrest r hr))
      rcases hblank with hblank | hblank <;> simp [hblank, Branch.tallest, Branch.height]

lemma within_ofOutermost {name : List Char} (h : name.length ≤ n) :
    (ofOutermost name).Within n := by
  fun_cases ofOutermost name with
  | case1 c => exact h
  | case2 => exact within_ofName h

lemma within_settle (h : r.Within n) : r.settle.Within n := by
  fun_cases settle r with
  | case1 c chars hsame =>
    intro t ht
    obtain rfl := List.mem_singleton.mp ht
    exact h
  | case2 => exact h
  | case3 => exact h

end Run

lemma within_outermost {names : List (List Char)} {n : Nat} (h : ∀ m ∈ names, m.length ≤ n) :
    ∀ r ∈ outermost names, r.Within n := by
  refine Run.within_join (List.forall_mem_map.mpr fun r hr => Run.within_settle ?_)
  exact Run.within_join (List.forall_mem_map.mpr fun m hm => Run.within_ofOutermost (h m hm)) r hr

/-- A pattern is at most twice as deep as the longest name is long, and three levels more. -/
lemma depth_le {names : List (List Char)} {n : Nat} (h : ∀ m ∈ names, m.length ≤ n) :
    depth names ≤ max 4 (2 * n + 3) := by
  have htallest : Branch.tallest (branches names) ≤ max 1 (2 * n) := by
    rw [branches, Branch.tallest_tidy, Branch.tallest_le_iff]
    exact List.forall_mem_map.mpr fun r hr => r.height_branch_le (within_outermost h r hr)
  unfold depth
  dsimp only
  split <;> omega

/-! ### Characters -/

lemma spans_le (set rest : List Char) : spans set rest ≤ rest.length := by
  induction rest with
  | nil => exact Nat.le_refl _
  | cons c rest ih =>
    rw [spans, List.length_cons]
    split <;> omega

lemma Run.weight_settle_le (r : Run) : r.settle.weight ≤ r.weight := by
  fun_cases settle r with
  | case1 c chars hsame => simp [weight]
  | case2 => exact Nat.le_refl _
  | case3 => exact Nat.le_refl _

lemma weights_outermost_le (names : List (List Char)) :
    Run.weights (outermost names) ≤ names.flatten.length := by
  have hsettle : ∀ rs : List Run, Run.weights (rs.map Run.settle) ≤ Run.weights rs := by
    intro rs
    induction rs with
    | nil => exact Nat.le_refl _
    | cons r rs ih =>
      rw [List.map_cons, Run.weights_cons, Run.weights_cons]
      exact Nat.add_le_add r.weight_settle_le ih
  have hnames : Run.weights (names.map Run.ofOutermost) = names.flatten.length := by
    induction names with
    | nil => rfl
    | cons name names ih =>
      rw [List.map_cons, Run.weights_cons, ih, List.flatten_cons, List.length_append]
      congr 1
      fun_cases Run.ofOutermost name with
      | case1 c => rfl
      | case2 => exact Run.weight_ofName name
  rw [outermost, Run.weights_join, ← hnames, ← Run.weights_join (names.map Run.ofOutermost)]
  exact hsettle _

lemma charCount_le (names : List (List Char)) :
    charCount names ≤ 24 + 4 * names.flatten.length := by
  have hweights := weights_outermost_le names
  unfold charCount
  split
  · split
    · rename_i chars hset
      have hspans := spans_le chars chars
      rw [hset, Run.weights_cons, Run.weight] at hweights
      show 24 + _ + 2 * spans chars chars ≤ _
      omega
    · have hhead : (names.head?.map List.length).getD 0 ≤ names.flatten.length := by
        cases names <;> simp
      omega
  · omega

/-! ### Size -/

/-- Few parts were made, and so nothing was measured. -/
structure Pool.Calm (n : Nat) (p : Pool) : Prop where
  made : p.made ≤ n
  measuring : p.measuring = false
  exceeded : p.exceeded = false

namespace Pool.Calm

variable {p : Pool} {n m : Nat}

lemma mono (h : p.Calm n) (hn : n ≤ m) : p.Calm m :=
  { h with made := Nat.le_trans h.made hn }

lemma take (h : p.Calm n) : p.take.2.Calm (n + 1) := by
  unfold Pool.take
  split
  · exact { h with made := Nat.add_le_add_right h.made 1 }
  · exact { h with made := Nat.le_succ_of_le h.made }

lemma give (measured : Bool) (h : p.Calm n) : (p.give measured).Calm n := { h with }

lemma check (size : Nat) (h : p.Calm n) (hn : n < maxSize) : (p.check size).Calm n := by
  have hmade : ¬ maxSize ≤ p.made := by
    have := h.made
    omega
  exact ⟨h.made, by simp [Pool.check, h.measuring, hmade],
    by simp [Pool.check, h.measuring, h.exceeded, hmade]⟩

lemma add (h : p.Calm n) (hn : n + 1 < maxSize) : p.add.Calm (n + 1) := h.take.check 0 hn

lemma extend (h : p.Calm n) (hn : n + 1 < maxSize) : p.extend.Calm (n + 1) :=
  (h.take.give _).check 0 hn

lemma repeat_extend (h : p.Calm n) (hn : n + m < maxSize) :
    (Nat.repeat Pool.extend m p).Calm (n + m) := by
  induction m with
  | zero => exact h
  | succ m ih => exact (ih (by omega)).extend hn

lemma repeat_give (measured : Bool) (h : p.Calm n) :
    (Nat.repeat (Pool.give measured) m p).Calm n := by
  induction m with
  | zero => exact h
  | succ m ih => exact ih.give measured

lemma read (length : Nat) (h : p.Calm n) (hn : n + (length + 1) < maxSize) :
    (p.read length).Calm (n + (length + 1)) := by
  fun_cases Pool.read p length with
  | case1 => exact h.add hn
  | case2 => exact (h.add (by omega)).mono (by omega)
  | case3 length =>
    have hadd := (h.add (by omega)).add (by omega)
    have hread := hadd.repeat_extend (m := length) (by omega)
    exact ((hread.give _).check 0 (by omega)).mono (by omega)

lemma readBehind {names : List (List Char)} (before : List Char) (h : p.Calm n)
    (hn : n + (names.flatten.length + names.length) < maxSize) :
    (Pool.readBehind before names p).Calm (n + (names.flatten.length + names.length)) := by
  induction names generalizing before p n with
  | nil => exact h
  | cons name names ih =>
    have hlength : n + ((name :: names).flatten.length + (name :: names).length) =
        n + (name.length + 1) + (names.flatten.length + names.length) := by
      rw [List.flatten_cons, List.length_append, List.length_cons]
      omega
    rw [hlength] at hn ⊢
    have hread := h.read name.length (by omega)
    refine ih name ?_ hn
    split
    · exact hread.give _
    · exact hread

lemma readAll {names : List (List Char)} (h : p.Calm n)
    (hn : n + 1 + (names.flatten.length + names.length) < maxSize) :
    (Pool.readAll names p).Calm (n + 1 + (names.flatten.length + names.length)) := by
  fun_cases Pool.readAll names p with
  | case1 => exact h.mono (Nat.le_succ _)
  | case2 name =>
    simp only [List.flatten_singleton, List.length_singleton] at hn ⊢
    exact (h.read name.length (by omega)).mono (by omega)
  | case3 name names =>
    rw [List.flatten_cons, List.length_append, List.length_cons] at hn ⊢
    have hread := (h.read name.length (by omega)).add (by omega)
    exact (hread.readBehind name (by omega)).mono (by omega)

end Pool.Calm

mutual

/-- The groups of a branch, which take three parts each. -/
def Branch.groups : Branch → Nat
  | .group _ rest => 1 + Branch.groupsOf rest
  | _ => 0

def Branch.groupsOf : List Branch → Nat
  | [] => 0
  | b :: bs => b.groups + groupsOf bs

end

namespace Branch

lemma groupsOf_onto (b : Branch) (bs : List Branch) :
    groupsOf (b.onto bs) = b.groups + groupsOf bs := by
  fun_cases onto b bs with
  | case1 rest => simp [groupsOf, groups]
  | case2 m n rest => simp [groupsOf, groups]
  | case3 => rw [groupsOf]

lemma groupsOf_tidy (bs : List Branch) : groupsOf (tidy bs) = groupsOf bs := by
  induction bs with
  | nil => rfl
  | cons b bs ih => rw [tidy, List.foldr_cons, groupsOf_onto, ← tidy, ih, groupsOf]

lemma groupsOf_map_le {rs : List Run} (h : ∀ r ∈ rs, r.branch.groups ≤ r.weight) :
    groupsOf (rs.map Run.branch) ≤ Run.weights rs := by
  induction rs with
  | nil => exact Nat.le_refl _
  | cons r rs ih =>
    rw [List.forall_mem_cons] at h
    rw [List.map_cons, groupsOf, Run.weights_cons]
    exact Nat.add_le_add h.1 (ih h.2)

/-- Every group has a character of its own. -/
lemma groups_branch_le (r : Run) : r.branch.groups ≤ r.weight := by
  induction r using Run.inductOn with
  | blank => simp [Run.branch, groups]
  | set chars => simp [Run.branch, groups]
  | single start tail => cases tail <;> simp [Run.branch, groups]
  | several start tail other others ih =>
    have hrest := groupsOf_map_le ih
    have hlt := Run.weights_rest_lt start tail (other :: others)
    rw [Run.branch_alike, groups, groupsOf_tidy]
    omega

mutual

lemma calm_build {p : Pool} {n : Nat} (b : Branch) (h : p.Calm n)
    (hn : n + 3 * b.groups < maxSize) : (b.build p).pool.Calm (n + 3 * b.groups) := by
  cases b with
  | group lead rest =>
    rw [groups] at hn ⊢
    have hstart := (h.take.check (longest rest) (by omega)).take
    have hrest := (calm_buildAll rest hstart (by omega)).repeat_give (m := leftOver rest)
      (p.take.2.check (longest rest)).measuring
    rw [build]
    dsimp only
    refine Pool.Calm.mono (Pool.Calm.take (n := n + 2 + 3 * groupsOf rest) ?_) (by omega)
    split
    · exact hrest.give _
    · exact hrest
  | _ => simpa [build, groups] using h

lemma calm_buildAll {p : Pool} {n : Nat} (bs : List Branch) (h : p.Calm n)
    (hn : n + 3 * groupsOf bs < maxSize) : (buildAll bs p).2.Calm (n + 3 * groupsOf bs) := by
  cases bs with
  | nil => exact h
  | cons b bs =>
    rw [groupsOf] at hn ⊢
    have hb := calm_build b h (by omega)
    exact (calm_buildAll bs hb (by omega)).mono (by omega)

end

end Branch

lemma calm_buildNames (names : List (List Char)) {p : Pool} {n : Nat} (h : p.Calm n)
    (hn : n + 1 + 3 * names.flatten.length < maxSize) :
    (buildNames names p).2.Calm (n + 1 + 3 * names.flatten.length) := by
  have hgroups : Branch.groupsOf (branches names) ≤ names.flatten.length := by
    rw [branches, Branch.groupsOf_tidy]
    exact Nat.le_trans (Branch.groupsOf_map_le fun r _ => Branch.groups_branch_le r)
      (weights_outermost_le names)
  unfold buildNames
  split
  · exact h.mono (by omega)
  · dsimp only
    split
    · rename_i b hb
      rw [hb, Branch.groupsOf, Branch.groupsOf] at hgroups
      exact ((Branch.calm_build b h.take (by omega)).give _).mono (by omega)
    · exact (Branch.calm_buildAll _ h.take (by omega)).mono (by omega)

/-- Few names never make so many parts that sizes count. -/
lemma not_exceeded {names : List (List Char)}
    (h : 4 * names.flatten.length + names.length + 10 < maxSize) :
    (buildPattern names).exceeded = false := by
  have hread : (Pool.readAll names {}).Calm _ :=
    Pool.Calm.readAll (n := 6) ⟨Nat.le_refl _, rfl, rfl⟩ (by omega)
  have hnames := calm_buildNames names
    (hread.check ((names.map List.length).max?.getD 0) (by omega)) (by omega)
  have hwhole := (hnames.check (buildNames names
    ((Pool.readAll names {}).check ((names.map List.length).max?.getD 0))).1 (by omega)).add
      (by omega)
  exact (hwhole.take.check _ (by omega)).exceeded

lemma admits_eq_true {names : List (List Char)} :
    admits names = true ↔ depth names ≤ maxDepth ∧ charCount names ≤ maxChars ∧
      (buildPattern names).exceeded = false := by
  simp [admits, and_assoc]

/-- Few characters are admitted if they are not nested too deep. -/
lemma admits_iff_depth {names : List (List Char)}
    (h : names.flatten.length + names.length ≤ 800000) :
    admits names = true ↔ depth names ≤ maxDepth := by
  have hchars : charCount names ≤ maxChars := by
    have hle := charCount_le names
    unfold maxChars
    omega
  have hsize : (buildPattern names).exceeded = false :=
    not_exceeded (by unfold maxSize; omega)
  rw [admits_eq_true]
  exact ⟨And.left, fun hdepth => ⟨hdepth, hchars, hsize⟩⟩

/-- Names of usual lengths are admitted, however they follow each other. -/
lemma admits_of_length_le {names : List (List Char)} (hlength : ∀ n ∈ names, n.length ≤ 498)
    (htotal : names.flatten.length + names.length ≤ 800000) : admits names = true := by
  have hdepth := depth_le hlength
  rw [admits_iff_depth htotal]
  unfold maxDepth
  omega

/-! ### Names that extend each other -/

/-- A character repeated once, twice, and so on: each name starts with all names before it. -/
def tower (c : Char) : Nat → List (List Char)
  | 0 => []
  | n + 1 => ([] :: tower c n).map (c :: ·)

lemma join_alike (c : Char) (tail : List Char) (others : List (List Char)) :
    Run.join ((tail :: others).map fun t => Run.ofName (c :: t)) = [.alike c tail others] := by
  induction others generalizing tail with
  | nil => rfl
  | cons other others ih =>
    rw [List.map_cons, Run.join, List.foldr_cons, ← Run.join, ih]
    simp [Run.ofName, Run.onto]

lemma sharedLength_nil (others : List (List Char)) : sharedLength [] others = 0 := by
  have hnil : others.foldl common [] = [] := by
    induction others with
    | nil => rfl
    | cons other others ih => simpa [common] using ih
  rw [sharedLength, hnil, List.length_nil]

lemma rest_tower (c : Char) (n : Nat) :
    Run.rest [] (tower c (n + 1)) = [.blank, .alike c [] (tower c n)] := by
  have htower : Run.join ((tower c (n + 1)).map Run.ofName) = [.alike c [] (tower c n)] := by
    rw [tower, List.map_map]
    exact join_alike c [] (tower c n)
  rw [Run.rest, sharedLength_nil]
  simp only [List.drop_zero, List.map_cons]
  rw [Run.join, List.foldr_cons, ← Run.join, htower]
  rfl

/-- Each further name is a group more, and so two levels. -/
lemma height_tower (c : Char) (n : Nat) :
    (Run.alike c [] (tower c n)).branch.height = 2 * n + 1 := by
  induction n with
  | zero => simp [tower, Run.branch, Branch.height]
  | succ n ih =>
    have hbranch : (Run.alike c [] (tower c (n + 1))).branch =
        .group 1 [.blank, (Run.alike c [] (tower c n)).branch] := by
      have hgroup : (Run.alike c [] (tower c (n + 1))).branch = .group (sharedLength []
          (tower c (n + 1)) + 1) (Branch.tidy ((Run.rest [] (tower c (n + 1))).map Run.branch)) :=
        Run.branch_alike c [] _ _
      rw [hgroup, sharedLength_nil, rest_tower]
      cases n with
      | zero => simp [tower, Run.branch, Branch.tidy, Branch.onto]
      | succ n => simp [tower, Run.branch, Branch.tidy, Branch.onto]
    rw [hbranch, Branch.height, Branch.tallest, Branch.tallest, Branch.tallest, ih, Branch.height]
    · rw [if_neg (by simp)]
      omega
    · simp

/-- The shortest name is read for itself first, and then with the others. -/
lemma outermost_tower (c : Char) (n : Nat) :
    outermost (tower c (n + 2)) = [.alike c [] (tower c (n + 1))] := by
  have hothers : Run.join (((tower c (n + 1)).map (c :: ·)).map Run.ofOutermost) =
      [.alike c [c] ((tower c n).map (c :: ·))] := by
    rw [← join_alike, tower, List.map_map, List.map_map, ← List.map_cons, List.map_map]
    rfl
  have hfirst : Run.join ((tower c (n + 2)).map Run.ofOutermost) =
      [.set [c], .alike c [c] ((tower c n).map (c :: ·))] := by
    rw [tower, List.map_cons, List.map_cons, Run.join, List.foldr_cons, ← Run.join, hothers]
    rfl
  rw [outermost, hfirst]
  simp [Run.settle, Run.join, Run.onto, tower]

lemma depth_tower (c : Char) (n : Nat) : depth (tower c (n + 2)) = 2 * n + 5 := by
  have hbranches : branches (tower c (n + 2)) = [(Run.alike c [] (tower c (n + 1))).branch] := by
    rw [branches, outermost_tower]
    simp [Branch.tidy, Branch.onto]
  rw [depth, hbranches, Branch.tallest, Branch.tallest, height_tower, List.length_singleton,
    if_pos rfl]
  omega

@[simp] lemma length_tower (c : Char) (n : Nat) : (tower c n).length = n := by
  induction n with
  | zero => rfl
  | succ n ih => simp [tower, ih]

lemma length_flatten_tower_le (c : Char) {n : Nat} (h : n ≤ 500) :
    (tower c n).flatten.length ≤ 500 * n := by
  have hcons : ∀ names : List (List Char),
      (names.map (c :: ·)).flatten.length = names.flatten.length + names.length := by
    intro names
    induction names with
    | nil => rfl
    | cons name names ih => simp [ih]; omega
  induction n with
  | zero => exact Nat.le_refl _
  | succ n ih =>
    have hle := ih (by omega)
    rw [tower, hcons, List.flatten_cons, List.nil_append, List.length_cons, length_tower]
    omega

/-- Of names that extend each other by one character, 499 can be searched and no more. -/
lemma admits_tower (c : Char) (n : Nat) : admits (tower c n) = true ↔ n < 500 := by
  rcases Nat.lt_or_ge n 500 with hn | hn
  · have hlength := length_flatten_tower_le c (Nat.le_of_lt hn)
    rw [admits_iff_depth (by rw [length_tower]; omega)]
    refine iff_of_true ?_ hn
    match n with
    | 0 | 1 => exact Nat.le_trans (depth_le (n := 1) (by simp [tower])) (by decide)
    | n + 2 => rw [depth_tower, maxDepth]; omega
  · obtain ⟨n, rfl⟩ := Nat.exists_eq_add_of_le' (Nat.le_trans (by decide : 2 ≤ 500) hn)
    refine iff_of_false (fun h => ?_) (Nat.not_lt.mpr hn)
    have hdepth := (admits_eq_true.mp h).1
    rw [depth_tower, maxDepth] at hdepth
    omega

lemma mem_tower {c : Char} {n : Nat} {name : List Char} (h : name ∈ tower c n) :
    name ≠ [] ∧ ∀ d ∈ name, d = c := by
  induction n generalizing name with
  | zero => simp [tower] at h
  | succ n ih =>
    obtain ⟨tail, htail, rfl⟩ := List.mem_map.mp h
    refine ⟨List.cons_ne_nil _ _, List.forall_mem_cons.mpr ⟨rfl, ?_⟩⟩
    rcases List.mem_cons.mp htail with rfl | htail
    · simp
    · exact (ih htail).2

end Pattern

def towerNames (n : Nat) : List String := (Pattern.tower 'f' n).map String.ofList

lemma searchable_towerNames (n : Nat) : searchable (towerNames n) = true ↔ n < 500 := by
  have hnames : (towerNames n).map String.toList = Pattern.tower 'f' n := by
    rw [towerNames, List.map_map]
    exact List.map_id'' (fun _ => String.toList_ofList) _
  rw [searchable, hnames, Pattern.admits_tower]

lemma mem_towerNames {n : Nat} {name : String} (h : name ∈ towerNames n) :
    name.toList ≠ [] ∧ ∀ c ∈ name.toList, c = 'f' := by
  obtain ⟨chars, hchars, rfl⟩ := List.mem_map.mp h
  rw [String.toList_ofList]
  exact Pattern.mem_tower hchars

lemma isWord_of_mem_towerNames {n : Nat} {name : String} (h : name ∈ towerNames n) :
    IsWord name.toList := by
  obtain ⟨hne, hchars⟩ := mem_towerNames h
  refine ⟨hne, fun c hc => ?_⟩
  rw [hchars c hc]
  decide

/-- Helpers can be searched if there are not too many and their names are not too long. -/
lemma searchable_of_length_le {helpers : List String} (hcount : helpers.length ≤ 1000)
    (hlength : ∀ n ∈ helpers, n.toList.length ≤ 498) : searchable helpers = true := by
  have hlengths : ∀ names : List (List Char), (∀ n ∈ names, n.length ≤ 498) →
      names.flatten.length ≤ 498 * names.length := by
    intro names h
    induction names with
    | nil => exact Nat.le_refl _
    | cons name names ih =>
      rw [List.forall_mem_cons] at h
      rw [List.flatten_cons, List.length_append, List.length_cons]
      have hnames := ih h.2
      omega
  have hnames : ∀ n ∈ helpers.map String.toList, n.length ≤ 498 := List.forall_mem_map.mpr hlength
  refine Pattern.admits_of_length_le hnames ?_
  have hle := hlengths _ hnames
  rw [List.length_map] at hle ⊢
  omega

end Shaderwright.Msl
