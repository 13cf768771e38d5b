import Mathlib.Algebra.BigOperators.Group.List.Basic
import Mathlib.Algebra.Order.BigOperators.Group.List
import Mathlib.Data.Int.Order.Basic
import Mathlib.Order.Bounds.Defs
import Mathlib.Tactic.Common
import Mathlib.Tactic.IntervalCases
import Shaderwright.Proofs.Hlsl.Bindings
import Shaderwright.Proofs.Source.Resolution

/-!
The slot budget against the exact cost of the bindings. The running total is the exact cost modulo
the size of a machine word. As long as no cost leaves the range of a word, the check finds the first
binding that goes over the budget; a single huge array can lead past it.
-/

namespace Shaderwright.Hlsl

/-! ### Exact costs -/

/-- What a binding costs, as an integer without bound. -/
def Binding.cost (b : Binding) : Int := b.category.dwords.toInt * b.count.toInt

def cost (bs : List Binding) : Int := (bs.map Binding.cost).sum

@[simp] lemma cost_nil : cost [] = 0 := rfl

@[simp] lemma cost_cons (b : Binding) (bs : List Binding) : cost (b :: bs) = b.cost + cost bs := by
  simp [cost]

@[simp] lemma cost_append (bs cs : List Binding) : cost (bs ++ cs) = cost bs + cost cs := by
  simp [cost]

lemma Category.dwords_pos (c : Category) : 0 < c.dwords.toInt := by
  unfold Category.dwords
  split <;> decide

lemma Binding.cost_nonneg {b : Binding} (h : 0 ≤ b.count) : 0 ≤ b.cost :=
  Int.mul_nonneg b.category.dwords_pos.le (by simpa using Int64.le_iff_toInt_le.mp h)

lemma cost_nonneg {bs : List Binding} (h : ∀ b ∈ bs, 0 ≤ b.count) : 0 ≤ cost bs := by
  refine List.sum_nonneg fun n hn => ?_
  obtain ⟨b, hb, rfl⟩ := List.mem_map.mp hn
  exact Binding.cost_nonneg (h b hb)

lemma cost_le_of_isPrefix {bs cs : List Binding} (h : ∀ b ∈ bs, 0 ≤ b.count) (hcs : cs <+: bs) :
    cost cs ≤ cost bs := by
  obtain ⟨rest, rfl⟩ := hcs
  have hrest : 0 ≤ cost rest := cost_nonneg fun b hb => h b (List.mem_append_right _ hb)
  rw [cost_append]
  omega

/-! ### Machine words -/

lemma Binding.dwords_eq (b : Binding) : b.dwords = Int64.ofInt b.cost := by
  rw [Binding.cost, Int64.ofInt_mul, Int64.ofInt_toInt, Int64.ofInt_toInt, Binding.dwords]

/-- The running total behind these bindings. -/
def totalFrom (total : Int64) (bs : List Binding) : Int64 :=
  bs.foldl (fun total b => total + b.dwords) total

@[simp] lemma totalFrom_cons (total : Int64) (b : Binding) (bs : List Binding) :
    totalFrom total (b :: bs) = totalFrom (total + b.dwords) bs := rfl

/-- Adding up in words loses only what a word cannot hold. -/
lemma totalFrom_ofInt (n : Int) (bs : List Binding) :
    totalFrom (Int64.ofInt n) bs = Int64.ofInt (n + cost bs) := by
  induction bs generalizing n with
  | nil => simp [totalFrom]
  | cons b bs ih =>
    rw [totalFrom_cons, b.dwords_eq, ← Int64.ofInt_add, ih, cost_cons, Int.add_assoc]

lemma slotUsage_eq (bs : List Binding) : slotUsage bs = Int64.ofInt (cost bs) := by
  have h := totalFrom_ofInt 0 bs
  rwa [Int.zero_add] at h

/-- The usage is exact if the cost is in the range of a word. -/
lemma toInt_slotUsage {bs : List Binding} (h : ∀ b ∈ bs, 0 ≤ b.count) (hcost : cost bs < 2 ^ 63) :
    (slotUsage bs).toInt = cost bs := by
  have hnonneg := cost_nonneg h
  rw [slotUsage_eq]
  exact Int64.toInt_ofInt_of_le (by omega) hcost

lemma toInt_slotUsage_of_isPrefix {bs cs : List Binding} (h : ∀ b ∈ bs, 0 ≤ b.count)
    (hcost : cost bs < 2 ^ 63) (hcs : cs <+: bs) : (slotUsage cs).toInt = cost cs :=
  toInt_slotUsage (fun b hb => h b (hcs.subset hb)) ((cost_le_of_isPrefix h hcs).trans_lt hcost)

/-! ### The running check -/

/-- The check stops at the first binding with which the running total exceeds the budget. -/
lemma overBudgetFrom_eq_some {budget total : Int64} {bs excess : List Binding}
    (h : overBudgetFrom budget total bs = some excess) :
    ∃ i < bs.length, excess = bs.drop i ∧
      ¬ totalFrom total (bs.take (i + 1)) ≤ budget ∧
      ∀ j < i, totalFrom total (bs.take (j + 1)) ≤ budget := by
  induction bs generalizing total with
  | nil => simp [overBudgetFrom] at h
  | cons b bs ih =>
    rw [overBudgetFrom] at h
    split at h
    · rename_i hle
      obtain ⟨i, hi, hexcess, hover, hbefore⟩ := ih h
      refine ⟨i + 1, by simpa using hi, hexcess, by simpa using hover, ?_⟩
      rintro (_ | j) hj
      · simpa [totalFrom] using hle
      · simpa using hbefore j (by omega)
    · rename_i hover
      exact ⟨0, by simp, by simpa using h.symm, by simpa [totalFrom] using hover, by simp⟩

lemma overBudgetFrom_eq_none {budget total : Int64} {bs : List Binding} :
    overBudgetFrom budget total bs = none ↔
      ∀ i < bs.length, totalFrom total (bs.take (i + 1)) ≤ budget := by
  induction bs generalizing total with
  | nil => simp [overBudgetFrom]
  | cons b bs ih =>
    rw [overBudgetFrom]
    split
    · rename_i hle
      rw [ih]
      constructor
      · rintro h (_ | i) hi
        · simpa [totalFrom] using hle
        · simpa using h i (by simpa using hi)
      · intro h i hi
        simpa using h (i + 1) (by simpa using hi)
    · rename_i hover
      simp only [reduceCtorEq, false_iff]
      intro h
      exact hover (by simpa [totalFrom] using h 0 (by simp))

/-- Bindings keep a budget if every beginning of them does. -/
lemma overflow?_eq_none {bs : List Binding} {budget : Int64} :
    overflow? bs budget = none ↔ ∀ i < bs.length, slotUsage (bs.take (i + 1)) ≤ budget := by
  rw [overflow?, Option.map_eq_none_iff, overBudgetFrom_eq_none]
  rfl

lemma overflow?_eq_none_of_isPrefix {bs cs : List Binding} {budget : Int64} (hcs : cs <+: bs)
    (h : overflow? bs budget = none) : overflow? cs budget = none := by
  obtain ⟨rest, rfl⟩ := hcs
  rw [overflow?_eq_none] at h ⊢
  intro i hi
  have hall := h i (by simp only [List.length_append]; omega)
  rwa [List.take_append_of_le_length (by omega)] at hall

lemma overflow?_eq_none_of_le {bs : List Binding} {budget budget' : Int64} (hle : budget ≤ budget')
    (h : overflow? bs budget = none) : overflow? bs budget' = none := by
  rw [overflow?_eq_none] at h ⊢
  exact fun i hi => Int64.le_trans (h i hi) hle

/-- What is reported starts at the first binding that the budget has no room for. -/
lemma overflow?_eq_some {bs : List Binding} {budget : Int64} {o : Overflow}
    (h : overflow? bs budget = some o) :
    ∃ i < bs.length, o = ⟨slotUsage bs, budget, bs.drop i⟩ ∧
      ¬ slotUsage (bs.take (i + 1)) ≤ budget ∧
      ∀ j < i, slotUsage (bs.take (j + 1)) ≤ budget := by
  obtain ⟨excess, hexcess, rfl⟩ := Option.map_eq_some_iff.mp h
  obtain ⟨i, hi, rfl, hover, hbefore⟩ := overBudgetFrom_eq_some hexcess
  exact ⟨i, hi, rfl, hover, hbefore⟩

/-- If the total is in the range of a word, only the total decides. -/
lemma overflow?_eq_none_iff_total {bs : List Binding} (hcount : ∀ b ∈ bs, 0 ≤ b.count)
    (hcost : cost bs < 2 ^ 63) (budget : Int64) :
    overflow? bs budget = none ↔ bs = [] ∨ slotUsage bs ≤ budget := by
  rw [overflow?_eq_none]
  constructor
  · intro h
    rcases hlen : bs.length with _ | n
    · exact .inl (List.length_eq_zero_iff.mp hlen)
    · have hlast := h n (by omega)
      rw [List.take_of_length_le (by omega)] at hlast
      exact .inr hlast
  · rintro (rfl | htotal) i hi
    · simp at hi
    · have hprefix := List.take_prefix (i + 1) bs
      have hle := cost_le_of_isPrefix hcount hprefix
      rw [Int64.le_iff_toInt_le, toInt_slotUsage hcount hcost] at htotal
      rw [Int64.le_iff_toInt_le, toInt_slotUsage_of_isPrefix hcount hcost hprefix]
      omega

/-- For bindings whose exact cost a machine word can hold, the check of a budget is exact: it passes
if and only if there are no bindings or their total is within the budget, and otherwise it reports
the bindings from the first one on with which the exact cost exceeds the budget, before which all
is well. A check that passes also passes with a larger budget and with fewer bindings. -/
theorem budget_check_exact {bs : List Binding} (hcount : ∀ b ∈ bs, 0 ≤ b.count)
    (hcost : cost bs < 2 ^ 63) (budget : Int64) :
    (slotUsage bs).toInt = cost bs ∧
      (overflow? bs budget = none ↔ bs = [] ∨ slotUsage bs ≤ budget) ∧
      (¬ (bs = [] ∨ slotUsage bs ≤ budget) → ∃ i,
        IsLeast {i | i < bs.length ∧ budget.toInt < cost (bs.take (i + 1))} i ∧
          overflow? bs budget = some ⟨slotUsage bs, budget, bs.drop i⟩ ∧
          overflow? (bs.take i) budget = none) ∧
      (overflow? bs budget = none →
        (∀ budget', budget ≤ budget' → overflow? bs budget' = none) ∧
          ∀ cs, cs <+: bs → overflow? cs budget = none) := by
  refine ⟨toInt_slotUsage hcount hcost, overflow?_eq_none_iff_total hcount hcost budget, ?_,
    fun h => ⟨fun budget' hle => overflow?_eq_none_of_le hle h,
      fun cs hcs => overflow?_eq_none_of_isPrefix hcs h⟩⟩
  rw [← overflow?_eq_none_iff_total hcount hcost]
  intro hfails
  obtain ⟨o, ho⟩ := Option.ne_none_iff_exists'.mp hfails
  obtain ⟨i, hi, rfl, hover, hbefore⟩ := overflow?_eq_some ho
  have hexact : ∀ j,
      slotUsage (bs.take (j + 1)) ≤ budget ↔ cost (bs.take (j + 1)) ≤ budget.toInt := by
    intro j
    rw [Int64.le_iff_toInt_le, toInt_slotUsage_of_isPrefix hcount hcost (List.take_prefix _ _)]
  refine ⟨i, ⟨⟨hi, ?_⟩, ?_⟩, ho, ?_⟩
  · rw [hexact] at hover
    omega
  · -- before that binding the budget has not been exceeded
    rintro j ⟨-, hj⟩
    by_contra hlt
    have hle := (hexact j).mp (hbefore j (by omega))
    omega
  · rw [overflow?_eq_none]
    intro j hj
    have hji : j < i := hj.trans_le (List.length_take_le i bs)
    rw [List.take_take, min_eq_left (by omega)]
    exact hbefore j hji

/-- The second binding uses up the budget, and the third one exceeds it. -/
def crowdedBindings : List Binding :=
  [⟨"rays", .const128, 0, 10⟩, ⟨"layers", .texture, 1, 24⟩, ⟨"layers_sampler", .sampler, 1, 24⟩,
    ⟨"gain", .const32, 2, 1⟩]

theorem budget_check_exact_crowded :
    (∀ b ∈ crowdedBindings, 0 ≤ b.count) ∧ cost crowdedBindings = 89 ∧
      overflow? crowdedBindings 64 = some ⟨89, 64, crowdedBindings.drop 2⟩ ∧
      overflow? crowdedBindings 89 = none ∧ overflow? crowdedBindings 100 = none := by
  have hcount : ∀ b ∈ crowdedBindings, 0 ≤ b.count := by decide
  have hcost : cost crowdedBindings = 89 := by decide
  obtain ⟨-, -, hover, -⟩ := budget_check_exact hcount (by omega) 64
  obtain ⟨-, hpasses, -, hmore⟩ := budget_check_exact hcount (by omega) 89
  have hkept : overflow? crowdedBindings 89 = none := hpasses.mpr (.inr (by decide))
  obtain ⟨i, ⟨⟨-, hi⟩, hleast⟩, hreport, -⟩ := hover (by decide)
  have hle : i ≤ 2 := hleast ⟨by decide, by decide⟩
  obtain rfl : i = 2 := by
    interval_cases i
    · exact absurd hi (by decide)
    · exact absurd hi (by decide)
    · rfl
  exact ⟨hcount, hcost, hreport, hkept, (hmore hkept).1 100 (by decide)⟩

/-! ### The budget of a shader -/

/-- What a declaration takes up in the root signature: the components of all elements of a number,
and an entry for the texture and one for the sampler state of every element of a sampler. -/
def declCost : Decl → Int
  | .var v =>
    if v.var.qualifier = .param then
      (if v.var.type.isSampler then 2 else (v.var.type.components : Int)) * v.var.count.toInt
    else 0
  | _ => 0

lemma count_of_mem_declBindings {x : Decl} {b : Binding} (hb : b ∈ declBindings x) :
    0 ≤ b.count := by
  cases x with
  | var v =>
    have hcount : 0 ≤ v.var.count := Int64.le_of_lt v.var.count_pos
    simp only [declBindings, paramBindings] at hb
    split_ifs at hb
    · simp only [List.mem_cons, List.not_mem_nil, or_false] at hb
      rcases hb with rfl | rfl <;> exact hcount
    · rw [List.mem_singleton.mp hb]
      exact hcount
    · cases hb
  | _ => simp [declBindings] at hb

lemma dwords_constCategory {t : ShaderType} (h : t.isNumeric = true) :
    (constCategory t.arity).dwords.toInt = t.components := by
  rw [ShaderType.components, if_pos h]
  simp only [ShaderType.isNumeric, Bool.and_eq_true, decide_eq_true_eq] at h
  have harity : t.arity = 1 ∨ t.arity = 2 ∨ t.arity = 3 ∨ t.arity = 4 := by omega
  rcases harity with h | h | h | h <;> rw [h] <;> rfl

lemma cost_declBindings {paint : Paint} {x : Decl} {text : String} (h : Binds paint x text) :
    cost (declBindings x) = declCost x := by
  cases x with
  | var v =>
    by_cases hparam : v.var.qualifier = .param
    · rw [declBindings, declCost, if_pos hparam, if_pos hparam, paramBindings]
      by_cases hs : v.var.type.isSampler
      · have htexture : (Category.dwords .texture).toInt = 1 := rfl
        have hsampler : (Category.dwords .sampler).toInt = 1 := rfl
        simp only [if_pos hs, cost_cons, cost_nil, Binding.cost, htexture, hsampler]
        omega
      · have hnumeric : v.var.type.isNumeric = true := (h.param v rfl hparam).1.resolve_right hs
        simp only [if_neg hs, cost_cons, cost_nil, Binding.cost, dwords_constCategory hnumeric,
          Int.add_zero]
    · simp [declBindings, declCost, hparam]
  | _ => simp [declBindings, declCost]

lemma cost_of_compile {o : Options} {s : Shader} {w w' : World} {out : Output}
    (h : compile o (some s) w = (.ok out, w')) :
    (∀ b ∈ out.bindings, 0 ≤ b.count) ∧ cost out.bindings = (s.decls.map declCost).sum := by
  obtain ⟨-, v, hv, hcode⟩ := translate_eq_ok.mp (translate_of_compile h)
  obtain ⟨hown, texts, -, hbinds⟩ := exec_decls ⟨rfl, rfl, rfl⟩ rfl hv
  have hbindings : out.bindings = s.decls.flatMap declBindings := by
    rw [hcode, hown]
    rfl
  rw [hbindings]
  constructor
  · intro b hb
    obtain ⟨x, -, hb⟩ := List.mem_flatMap.mp hb
    exact count_of_mem_declBindings hb
  · generalize s.decls = xs at hbinds
    induction hbinds with
    | nil => rfl
    | cons hx _ ih =>
      rw [List.flatMap_cons, cost_append, cost_declBindings hx, ih, List.map_cons, List.sum_cons]

lemma overflow?_of_compile {o : Options} {s : Option Shader} {w w' : World} {out : Output}
    (h : compile o s w = (.ok out, w')) (hfatal : o.budgetPolicy = .fatal) :
    overflow? out.bindings o.slotBudget = none := by
  have hverdict := compile_toCode o s w
  rw [h] at hverdict
  have hcode : translate o s = .ok out.toCode := translate_of_compile h
  simp only [verdict, hcode, hfatal, if_true] at hverdict
  split at hverdict
  · assumption
  · simp [Except.map] at hverdict

/-- As long as no single binding comes near the end of a word, the running total cannot leave the
budget unseen. -/
lemma cost_take_le {bs : List Binding} {budget : Int64} (hbudget : 0 ≤ budget.toInt)
    (hcount : ∀ b ∈ bs, 0 ≤ b.count) (hsmall : ∀ b ∈ bs, b.cost + budget.toInt < 2 ^ 63)
    (h : overflow? bs budget = none) (i : Nat) : cost (bs.take i) ≤ budget.toInt := by
  rw [overflow?_eq_none] at h
  induction i with
  | zero => simpa using hbudget
  | succ i ih =>
    by_cases hi : i < bs.length
    · have hnext : cost (bs.take (i + 1)) = cost (bs.take i) + bs[i].cost := by
        rw [List.take_succ_eq_append_getElem hi, cost_append]
        simp
      have hfits : cost (bs.take (i + 1)) < 2 ^ 63 := by
        have := hsmall bs[i] (List.getElem_mem hi)
        omega
      have hle := h i hi
      rwa [Int64.le_iff_toInt_le, toInt_slotUsage
        (fun b hb => hcount b (List.mem_of_mem_take hb)) hfits] at hle
    · rw [List.take_of_length_le (by omega)] at ih ⊢
      exact ih

/-- The bindings of a shader that was accepted under a fatal budget cost what its declarations take
up. This cost is within the budget and is the usage that is reported if and only if a machine word
can hold it, which is so if no single binding costs nearly as much as a word can hold. -/
theorem accepted_cost_within_budget {o : Options} {s : Shader} {w w' : World} {out : Output}
    (h : compile o (some s) w = (.ok out, w')) (hfatal : o.budgetPolicy = .fatal)
    (hbudget : 0 < o.slotBudget) :
    cost out.bindings = (s.decls.map declCost).sum ∧
      (cost out.bindings ≤ o.slotBudget.toInt ∧ cost out.bindings = out.slotUsage.toInt ↔
        cost out.bindings < 2 ^ 63) ∧
      ((∀ b ∈ out.bindings, b.cost + o.slotBudget.toInt < 2 ^ 63) →
        cost out.bindings < 2 ^ 63) := by
  obtain ⟨hcount, hcost⟩ := cost_of_compile h
  have hpassed := overflow?_of_compile h hfatal
  have hpositive : 0 < o.slotBudget.toInt := by simpa using Int64.lt_iff_toInt_lt.mp hbudget
  have hbound := o.slotBudget.toInt_lt
  refine ⟨hcost, ⟨fun hle => by omega, fun hfits => ?_⟩, fun hsmall => ?_⟩
  · refine ⟨?_, (toInt_slotUsage hcount hfits).symm⟩
    rcases (overflow?_eq_none_iff_total hcount hfits _).mp hpassed with hnone | htotal
    · rw [hnone, cost_nil]
      exact hpositive.le
    · rwa [Int64.le_iff_toInt_le, toInt_slotUsage hcount hfits] at htotal
  · have hle := cost_take_le hpositive.le hcount hsmall hpassed out.bindings.length
    rw [List.take_length] at hle
    omega

/-- A shader with an array of textures and one of colours. -/
def bedecked : Shader where
  name := "Bedecked"
  decls := [
    .var { var := {
      name := "layers", type := .sampler2D, qualifier := .param, isArray := true,
      arraySize := 12 } },
    .var { var := {
      name := "tints", type := .vec4, qualifier := .param, slot := 1, isArray := true,
      arraySize := 10 } }]

/-- The budget is used up to the last value. -/
theorem accepted_cost_bedecked :
    ∃ out w', compile {} (some bedecked) {} = (.ok out, w') ∧ cost out.bindings = 64 ∧
      cost out.bindings ≤ ({} : Options).slotBudget.toInt ∧
      cost out.bindings = out.slotUsage.toInt := by
  obtain ⟨out, w', h, -⟩ := compile_of_translate {} bedecked (bedecked.decls.flatMap declBindings)
    (by decide +kernel) (by decide +kernel) {}
  obtain ⟨hcost, hexact, -⟩ := accepted_cost_within_budget h rfl (by decide)
  have htotal : cost out.bindings = 64 := hcost.trans (by decide)
  exact ⟨out, w', h, htotal, hexact.mpr (by omega)⟩

/-- The elements of one array have more components than a machine word can count. -/
def vastText : String := "name: Vast
decls:
- var: \x7bname: field, type: vec4, qualifier: param, array: 4611686018427387904\x7d
"

/-- The cost of that array is beyond any budget, and yet the shader is accepted with the default one
and reported to use nothing. -/
theorem accepted_cost_vast :
    ∃ s out w', Source.parse vastText = .ok s ∧ compile {} (some s) {} = (.ok out, w') ∧
      cost out.bindings = 2 ^ 64 ∧ out.slotUsage = 0 ∧
      ¬ (cost out.bindings ≤ ({} : Options).slotBudget.toInt ∧
        cost out.bindings = out.slotUsage.toInt) := by
  obtain ⟨s, hs, ht⟩ : ∃ s, Source.parse vastText = .ok s ∧
      decide ((translate {} (some s)).map Code.bindings =
        .ok [⟨"field", .const128, 0, 4611686018427387904⟩]) = true :=
    Source.exists_parse (.literal _) (by decide +kernel)
  obtain ⟨out, w', h, hbindings⟩ := compile_of_translate {} s _ (of_decide_eq_true ht)
    (by decide +kernel) {}
  have hcost : cost out.bindings = 2 ^ 64 := by
    rw [hbindings]
    decide
  refine ⟨s, out, w', hs, h, hcost, ?_, ?_⟩
  · rw [Output.slotUsage, hbindings]
    decide
  · rintro ⟨hle, -⟩
    rw [hcost] at hle
    exact absurd hle (by decide)

end Shaderwright.Hlsl
