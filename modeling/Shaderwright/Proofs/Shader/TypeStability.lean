import Mathlib.Data.List.Forall2
import Mathlib.Tactic.Common
import Shaderwright.Proofs.Shader.Parts
import Shaderwright.Shader.Typing

/-!
How inferred types change when more names are resolved. A type never gets lost or narrower. It can
get wider, because an operator goes by the operand whose type is known; how wide is told by the
reach of an expression, and the type is settled exactly if that is 0.
-/

namespace Shaderwright

/-! ### Resolving names -/

/-- A reference to a single value. -/
def Ref.IsValue (ref : Ref) : Prop :=
  ref.isArray = false ∧ ∃ t, ref.type? = some t ∧ t.isNumeric = true

/-- Resolving an identifier: nothing is known of the name so far, or nothing changes. -/
def Ref.ResolvesTo (ref ref' : Ref) : Prop := ref' = ref ∨ ref = .unresolved ∧ ref'.IsValue

/-- The second expression is the first one with more of its identifiers resolved, all of them to
single values. -/
inductive Expr.ResolvesTo : Expr → Expr → Prop
  | absent : ResolvesTo .absent .absent
  | ident {ref ref' : Ref} (name : String) : ref.ResolvesTo ref' →
    ResolvesTo (.ident name ref) (.ident name ref')
  | literal (text : String) (kind : LiteralKind) :
    ResolvesTo (.literal text kind) (.literal text kind)
  | call {args args' : List Expr} (callee : String) : List.Forall₂ ResolvesTo args args' →
    ResolvesTo (.call callee args) (.call callee args')
  | binary {x x' y y' : Expr} (op : String) : ResolvesTo x x' → ResolvesTo y y' →
    ResolvesTo (.binary op x y) (.binary op x' y')
  | unary {x x' : Expr} (op : String) : ResolvesTo x x' → ResolvesTo (.unary op x) (.unary op x')
  | assign {lhs lhs' rhs rhs' : Expr} (op : String) : ResolvesTo lhs lhs' → ResolvesTo rhs rhs' →
    ResolvesTo (.assign op lhs rhs) (.assign op lhs' rhs')
  | member {x x' : Expr} (field : String) : ResolvesTo x x' →
    ResolvesTo (.member x field) (.member x' field)
  | index {x x' i i' : Expr} : ResolvesTo x x' → ResolvesTo i i' →
    ResolvesTo (.index x i) (.index x' i')

lemma Expr.ResolvesTo.refl (e : Expr) : e.ResolvesTo e := by
  induction e using Expr.inductOn with
  | absent => exact .absent
  | ident name ref => exact .ident name (.inl rfl)
  | literal text kind => exact .literal text kind
  | call callee args ih => exact .call callee (List.forall₂_same.mpr ih)
  | binary op x y hx hy => exact .binary op hx hy
  | unary op x hx => exact .unary op hx
  | assign op lhs rhs hl hr => exact .assign op hl hr
  | member x field hx => exact .member field hx
  | index x i hx hi => exact .index hx hi

/-! ### Types and their widths -/

/-- The operand that decides the type of an operator. -/
def ShaderType.wider (l r : ShaderType) : ShaderType := if l.arity < r.arity then r else l

lemma Expr.type?_test {op : String} (x y : Expr) (hop : isTest op = true) :
    (Expr.binary op x y).type? = some .bool :=
  if_pos hop

lemma Expr.type?_binary {op : String} (x y : Expr) (hop : isTest op = false) :
    (Expr.binary op x y).type? = Option.merge ShaderType.wider x.type? y.type? := by
  refine (if_neg (by simp [hop])).trans ?_
  cases x.type? with
  | none => cases y.type? <;> rfl
  | some l =>
    cases y.type? with
    | none => rfl
    | some r => exact (apply_ite some (l.arity < r.arity) r l).symm

def width (t : Option ShaderType) : Nat := t.elim 0 ShaderType.arity

@[simp] lemma width_none : width none = 0 := rfl

@[simp] lemma width_some (t : ShaderType) : width (some t) = t.arity := rfl

section Merge

variable {l r : Option ShaderType}

lemma merge_of_lt (h : width l < width r) : Option.merge ShaderType.wider l r = r := by
  cases r with
  | none => exact absurd h (Nat.not_lt_zero _)
  | some r =>
    cases l with
    | none => rfl
    | some l => exact congrArg some (if_pos h)

lemma merge_of_le (h : width r ≤ width l) (hl : 0 < width l) :
    Option.merge ShaderType.wider l r = l := by
  cases l with
  | none => exact absurd hl (Nat.not_lt_zero _)
  | some l =>
    cases r with
    | none => rfl
    | some r => exact congrArg some (if_neg (Nat.not_lt.mpr h))

lemma width_merge : width (Option.merge ShaderType.wider l r) = max (width l) (width r) := by
  rcases Nat.lt_or_ge (width l) (width r) with h | h
  · rw [merge_of_lt h]
    omega
  · rcases Nat.eq_zero_or_pos (width l) with hl | hl
    · cases l with
      | none =>
        cases r <;> simp
      | some l => cases r <;> simp_all [ShaderType.wider]
    · rw [merge_of_le h hl]
      omega

end Merge

lemma ShaderType.isNumeric_iff {t : ShaderType} :
    t.isNumeric = true ↔ t.base ∈ [.float, .int, .bool] ∧ 1 ≤ t.arity ∧ t.arity ≤ 4 := by
  simp [ShaderType.isNumeric, or_assoc, and_assoc]

lemma length_of_isSwizzle {field : String} (h : isSwizzle field = true) :
    1 ≤ field.length ∧ field.length ≤ 4 := by
  simp only [isSwizzle, Bool.and_eq_true, decide_eq_true_eq, String.length_toList] at h
  exact h.1

lemma ShaderType.isNumeric_swizzle {t : ShaderType} {field : String} (ht : t.isNumeric = true)
    (hfield : isSwizzle field = true) : ShaderType.isNumeric ⟨t.base, field.length⟩ = true :=
  isNumeric_iff.mpr ⟨(isNumeric_iff.mp ht).1, length_of_isSwizzle hfield⟩

/-- The type of a swizzle. -/
def ShaderType.swizzle? (field : String) (t : ShaderType) : Option ShaderType :=
  if t.isNumeric && isSwizzle field then some ⟨t.base, field.length⟩ else none

lemma Expr.type?_member_eq (x : Expr) (field : String) :
    (Expr.member x field).type? = x.type?.bind (ShaderType.swizzle? field) := by
  rw [Expr.type?]
  cases x.type? <;> rfl

lemma Expr.type?_member {x : Expr} {field : String} {t : ShaderType} (hx : x.type? = some t)
    (ht : t.isNumeric = true) (hfield : isSwizzle field = true) :
    (Expr.member x field).type? = some ⟨t.base, field.length⟩ := by
  simp [Expr.type?_member_eq, ShaderType.swizzle?, hx, ht, hfield]

lemma Expr.type?_member_of_not {x : Expr} {field : String} (hfield : isSwizzle field = false) :
    (Expr.member x field).type? = none := by
  simp [Expr.type?_member_eq, ShaderType.swizzle?, hfield]

lemma Expr.width_member_le (x : Expr) (field : String) :
    width (Expr.member x field).type? ≤ field.length := by
  rw [Expr.type?_member_eq]
  cases x.type? with
  | none => simp
  | some t =>
    simp only [Option.bind_some, ShaderType.swizzle?]
    split <;> simp

def Expr.namesArray : Expr → Bool
  | .ident _ ref => ref.isArray
  | _ => false

/-- The type of an element, of an array or of a vector. -/
def ShaderType.element? (ofArray : Bool) (t : ShaderType) : Option ShaderType :=
  if ofArray then some t else if t.isNumeric && 1 < t.arity then some ⟨t.base, 1⟩ else none

lemma Expr.type?_index (x i : Expr) :
    (Expr.index x i).type? = x.type?.bind (ShaderType.element? x.namesArray) := by
  rw [Expr.type?.eq_def]
  dsimp only
  cases x.type? <;> rfl

lemma width_bind_element?_le (t : Option ShaderType) :
    width (t.bind (ShaderType.element? false)) ≤ 1 := by
  cases t with
  | none => simp
  | some t =>
    simp only [Option.bind_some, ShaderType.element?]
    split
    · contradiction
    · split <;> simp

/-- The name of an array is resolved already. -/
lemma Expr.ResolvesTo.eq_or_namesArray {e e' : Expr} (h : e.ResolvesTo e') :
    e' = e ∨ e.namesArray = false ∧ e'.namesArray = false := by
  cases h with
  | ident name href =>
    rcases href with rfl | ⟨rfl, hvalue, -⟩
    · exact .inl rfl
    · exact .inr ⟨rfl, hvalue⟩
  | _ => exact .inr ⟨rfl, rfl⟩

/-! ### The reach of an expression -/

/-- The components of the widest type that an expression can still turn out to have, or 0 if its
type cannot change. An operand shows through an operator if it gets as wide as the other one, and
wider than the other one on the right. -/
def Expr.reach : Expr → Nat
  | .ident _ .unresolved => 4
  | .member x field => if isSwizzle field && 0 < x.reach then field.length else 0
  | .index x _ => if 1 < x.reach then 1 else 0
  | .unary _ x => x.reach
  | .assign _ lhs _ => lhs.reach
  | .binary op x y =>
    if isTest op then 0
    else max (if width y.type? ≤ x.reach then x.reach else 0)
      (if width x.type? < y.reach then y.reach else 0)
  | _ => 0

lemma Expr.reach_member (x : Expr) (field : String) :
    (Expr.member x field).reach = if isSwizzle field && 0 < x.reach then field.length else 0 := rfl

lemma Expr.reach_index (x i : Expr) : (Expr.index x i).reach = if 1 < x.reach then 1 else 0 := rfl

lemma Expr.reach_test {op : String} (x y : Expr) (hop : isTest op = true) :
    (Expr.binary op x y).reach = 0 :=
  if_pos hop

lemma Expr.reach_binary {op : String} (x y : Expr) (hop : isTest op = false) :
    (Expr.binary op x y).reach = max (if width y.type? ≤ x.reach then x.reach else 0)
      (if width x.type? < y.reach then y.reach else 0) :=
  if_neg (by simp [hop])

lemma Expr.reach_le (e : Expr) : e.reach ≤ 4 := by
  induction e using Expr.inductOn with
  | ident name ref =>
    cases ref with
    | unresolved => exact Nat.le_refl 4
    | _ => exact Nat.zero_le 4
  | member x field =>
    rw [Expr.reach_member]
    split
    · rename_i h
      exact (length_of_isSwizzle (Bool.and_eq_true_iff.mp h).1).2
    · omega
  | index x i hx hi =>
    rw [Expr.reach_index]
    split <;> omega
  | binary op x y hx hy =>
    cases hop : isTest op with
    | true =>
      rw [Expr.reach_test x y hop]
      exact Nat.zero_le 4
    | false =>
      rw [Expr.reach_binary x y hop]
      grind
  | unary op x hx => exact hx
  | assign op lhs rhs hl hr => exact hl
  | _ => exact Nat.zero_le 4

/-- A type that stays as it is or becomes one that is no narrower, up to a bound. -/
def Grows (bound : Nat) (t t' : Option ShaderType) : Prop :=
  t' = t ∨ ∃ s, t' = some s ∧ s.isNumeric = true ∧ width t ≤ s.arity ∧ s.arity ≤ bound

/-- What shows through an operator of two operands that grow. -/
lemma Grows.merge {p q : Nat} {l l' r r' : Option ShaderType} (hl : Grows p l l')
    (hr : Grows q r r') :
    Grows (max (if width r ≤ p then p else 0) (if width l < q then q else 0))
      (Option.merge ShaderType.wider l r) (Option.merge ShaderType.wider l' r') := by
  have hwidth := width_merge (l := l) (r := r)
  rcases hl with rfl | ⟨s, rfl, hs, hls, hsp⟩
  · rcases hr with rfl | ⟨s, rfl, hs, hrs, hsq⟩
    · exact .inl rfl
    have hpos := (ShaderType.isNumeric_iff.mp hs).2.1
    rcases Nat.lt_or_ge (width l') s.arity with hlt | hge
    · refine .inr ⟨s, merge_of_lt hlt, hs, by omega, ?_⟩
      rw [if_pos (by omega : width l' < q)]
      omega
    · -- the left operand is wide enough to hide the change
      left
      rw [merge_of_le (r := some s) hge (by omega), merge_of_le (by omega) (by omega)]
  · have hpos := (ShaderType.isNumeric_iff.mp hs).2.1
    have hrr : width r ≤ width r' := by
      rcases hr with rfl | ⟨s', rfl, -, hrs, -⟩
      · exact Nat.le_refl _
      · exact hrs
    rcases Nat.lt_or_ge s.arity (width r') with hlt | hge
    · rw [merge_of_lt (l := some s) hlt]
      rcases hr with rfl | ⟨s', rfl, hs', hrs, hsq⟩
      · -- the right operand hides the change
        left
        rw [merge_of_lt (by omega)]
      · rw [width_some] at hlt
        refine .inr ⟨s', rfl, hs', by omega, ?_⟩
        rw [if_pos (by omega : width l < q)]
        omega
    · rw [merge_of_le (l := some s) hge hpos]
      refine .inr ⟨s, rfl, hs, by omega, ?_⟩
      rw [if_pos (by omega : width r ≤ p)]
      omega

/-- Whatever is resolved, a type grows at most up to the reach. -/
lemma Expr.ResolvesTo.grows {e e' : Expr} (h : e.ResolvesTo e') :
    Grows e.reach e.type? e'.type? := by
  induction e using Expr.inductOn generalizing e' with
  | absent => cases h; exact .inl rfl
  | ident name ref =>
    cases h with | ident _ href =>
    rcases href with rfl | ⟨rfl, -, t, ht, hnum⟩
    · exact .inl rfl
    · exact .inr ⟨t, ht, hnum, Nat.zero_le _, (ShaderType.isNumeric_iff.mp hnum).2.2⟩
  | literal text kind => cases h; exact .inl rfl
  | call callee args ih => cases h; exact .inl rfl
  | binary op x y hx hy =>
    cases h with | binary _ hx' hy' =>
    cases hop : isTest op with
    | true => exact .inl (by rw [Expr.type?_test _ _ hop, Expr.type?_test _ _ hop])
    | false =>
      rw [Expr.type?_binary _ _ hop, Expr.type?_binary _ _ hop, Expr.reach_binary _ _ hop]
      exact (hx hx').merge (hy hy')
  | unary op x hx =>
    cases h with | unary _ hx' =>
    exact (hx hx' :)
  | assign op lhs rhs hl hr =>
    cases h with | assign _ hl' _ =>
    exact (hl hl' :)
  | member x field hx =>
    cases h with | member _ hx' =>
    rcases hx hx' with hsame | ⟨s, hs, hnum, -, hreach⟩
    · exact .inl (by rw [Expr.type?_member_eq, Expr.type?_member_eq, hsame])
    cases hfield : isSwizzle field with
    | false => exact .inl (by rw [Expr.type?_member_of_not hfield, Expr.type?_member_of_not hfield])
    | true =>
      have hpos := (ShaderType.isNumeric_iff.mp hnum).2.1
      refine .inr ⟨⟨s.base, field.length⟩, Expr.type?_member hs hnum hfield,
        ShaderType.isNumeric_swizzle hnum hfield, Expr.width_member_le x field, ?_⟩
      exact Nat.le_of_eq (by rw [Expr.reach_member, hfield, if_pos (by simp; omega)])
  | index x i hx hi =>
    cases h with | index hx' hi' =>
    rcases hx'.eq_or_namesArray with rfl | ⟨harray, harray'⟩
    · exact .inl (by rw [Expr.type?_index, Expr.type?_index])
    rw [Expr.type?_index, Expr.type?_index, harray, harray']
    rcases hx hx' with hsame | ⟨s, hs, hnum, hwidth, hreach⟩
    · exact .inl (by rw [hsame])
    rw [hs]
    rcases Nat.lt_or_ge 1 s.arity with hmany | hone
    · refine .inr ⟨⟨s.base, 1⟩, by simp [ShaderType.element?, hnum, hmany], ?_, ?_, ?_⟩
      · exact ShaderType.isNumeric_iff.mpr ⟨(ShaderType.isNumeric_iff.mp hnum).1, by simp⟩
      · exact width_bind_element?_le _
      · exact Nat.le_of_eq (by rw [Expr.reach_index, if_pos (by omega)])
    · -- a single component has no elements, neither before nor after
      left
      have hscalar : ∀ t : ShaderType, t.arity ≤ 1 → t.element? false = none := by
        intro t ht
        simp [ShaderType.element?, Nat.not_lt.mpr ht]
      cases hx : x.type? with
      | none => simp [hscalar s hone]
      | some t =>
        have ht : t.arity ≤ 1 := by
          rw [hx, width_some] at hwidth
          omega
        simp [hscalar s hone, hscalar t ht]

lemma Expr.isNumeric_reach {e : Expr} (h : 0 < e.reach) {b : Base}
    (hb : b ∈ [.float, .int, .bool]) :
    ShaderType.isNumeric ⟨b, e.reach⟩ = true :=
  ShaderType.isNumeric_iff.mpr ⟨hb, h, e.reach_le⟩

lemma Expr.namesArray_of_reach {e : Expr} (h : 0 < e.reach) : e.namesArray = false := by
  cases e with
  | ident name ref =>
    cases ref with
    | unresolved => rfl
    | _ => exact absurd h (Nat.lt_irrefl 0)
  | _ => rfl

/-- The reach is attained, with components of any kind. -/
lemma Expr.exists_resolvesTo {e : Expr} (h : 0 < e.reach) {b : Base}
    (hb : b ∈ [.float, .int, .bool]) :
    ∃ e', e.ResolvesTo e' ∧ e'.type? = some ⟨b, e.reach⟩ := by
  induction e using Expr.inductOn with
  | ident name ref =>
    cases ref with
    | unresolved =>
      have hnum : ShaderType.isNumeric ⟨b, 4⟩ = true := ShaderType.isNumeric_iff.mpr ⟨hb, by simp⟩
      exact ⟨.ident name (.declared { name := name, type := ⟨b, 4⟩ }),
        .ident name (.inr ⟨rfl, rfl, _, rfl, hnum⟩), rfl⟩
    | _ => exact absurd h (Nat.lt_irrefl 0)
  | binary op x y hx hy =>
    cases hop : isTest op with
    | true => simp [Expr.reach_test _ _ hop] at h
    | false =>
      have hreach := Expr.reach_binary x y hop
      rcases Nat.le_total (if width x.type? < y.reach then y.reach else 0)
        (if width y.type? ≤ x.reach then x.reach else 0) with hle | hle
      · rw [hreach, Nat.max_eq_left hle] at h ⊢
        split at h
        · rename_i hwide
          obtain ⟨x', hx', ht⟩ := hx h
          refine ⟨.binary op x' y, .binary op hx' (.refl y), ?_⟩
          rw [Expr.type?_binary _ _ hop, ht, if_pos hwide]
          exact merge_of_le hwide h
        · exact absurd h (Nat.lt_irrefl 0)
      · rw [hreach, Nat.max_eq_right hle] at h ⊢
        split at h
        · rename_i hwide
          obtain ⟨y', hy', ht⟩ := hy h
          refine ⟨.binary op x y', .binary op (.refl x) hy', ?_⟩
          rw [Expr.type?_binary _ _ hop, ht, if_pos hwide]
          exact merge_of_lt hwide
        · exact absurd h (Nat.lt_irrefl 0)
  | unary op x hx =>
    obtain ⟨x', hx', ht⟩ := hx h
    exact ⟨.unary op x', .unary op hx', ht⟩
  | assign op lhs rhs hl hr =>
    obtain ⟨lhs', hl', ht⟩ := hl h
    exact ⟨.assign op lhs' rhs, .assign op hl' (.refl rhs), ht⟩
  | member x field hx =>
    have hreach : isSwizzle field = true ∧ 0 < x.reach := by
      by_contra hnot
      rw [Expr.reach_member, if_neg (by simpa using hnot)] at h
      exact Nat.lt_irrefl 0 h
    obtain ⟨x', hx', ht⟩ := hx hreach.2
    refine ⟨.member x' field, .member field hx', ?_⟩
    rw [Expr.type?_member ht (isNumeric_reach hreach.2 hb) hreach.1, Expr.reach_member,
      if_pos (by simpa using hreach)]
  | index x i hx hi =>
    have hreach : 1 < x.reach := by
      by_contra hnot
      rw [Expr.reach_index, if_neg hnot] at h
      exact Nat.lt_irrefl 0 h
    obtain ⟨x', hx', ht⟩ := hx (by omega)
    have harray : x'.namesArray = false := by
      rcases hx'.eq_or_namesArray with rfl | ⟨-, h'⟩
      · exact namesArray_of_reach (by omega)
      · exact h'
    refine ⟨.index x' i, .index hx' (.refl i), ?_⟩
    rw [Expr.type?_index, ht, harray, Expr.reach_index, if_pos hreach]
    simp [ShaderType.element?, isNumeric_reach (by omega : 0 < x.reach) hb, hreach]
  | _ => exact absurd h (Nat.lt_irrefl 0)

/-! ### Stable types -/

/-- An operator that computes knows the types of both operands or of neither. -/
def Expr.operandsAlike : Expr → Bool
  | .binary op x y => isTest op || x.type?.isSome == y.type?.isSome
  | _ => true

/-- No operator has to go by one operand alone: then a type that is known is settled. -/
lemma Expr.reach_eq_zero {e : Expr} (halike : e.Throughout operandsAlike)
    (h : e.type?.isSome = true) : e.reach = 0 := by
  induction e using Expr.inductOn with
  | ident name ref =>
    cases ref with
    | unresolved => exact absurd h Bool.false_ne_true
    | _ => rfl
  | binary op x y hx hy =>
    obtain ⟨hop, hx', hy'⟩ := throughout_binary.mp halike
    cases htest : isTest op with
    | true => exact Expr.reach_test x y htest
    | false =>
      simp only [operandsAlike, htest, Bool.false_or, beq_iff_eq] at hop
      rw [Expr.type?_binary _ _ htest] at h
      have hboth : x.type?.isSome = true := by
        cases hxt : x.type? with
        | none =>
          rw [hxt] at h hop
          cases hyt : y.type? with
          | none => simp [hyt] at h
          | some r => simp [hyt] at hop
        | some l => rfl
      simp [Expr.reach_binary x y htest, hx hx' hboth, hy hy' (hop ▸ hboth)]
  | unary op x hx => exact hx (throughout_unary.mp halike).2 h
  | assign op lhs rhs hl hr => exact hl (throughout_assign.mp halike).2.1 h
  | member x field hx =>
    have hxt : x.type?.isSome = true := by
      rw [Expr.type?_member_eq] at h
      exact Option.isSome_of_isSome_bind h
    simp [Expr.reach_member, hx (throughout_member.mp halike).2 hxt]
  | index x i hx hi =>
    have hxt : x.type?.isSome = true := by
      rw [Expr.type?_index] at h
      exact Option.isSome_of_isSome_bind h
    simp [Expr.reach_index, hx (throughout_index.mp halike).2.1 hxt]
  | _ => rfl

/-- What is left of a type that was known before more names were resolved. It is still known and no
narrower. It is the same whatever is resolved exactly if nothing unresolved is in reach, and so it
is if no operator goes by one operand alone. -/
theorem type_stable_iff {e : Expr} {t : ShaderType} (h : e.type? = some t) :
    (∀ e', e.ResolvesTo e' → ∃ t', e'.type? = some t' ∧ t.arity ≤ t'.arity) ∧
      ((∀ e', e.ResolvesTo e' → e'.type? = some t) ↔ e.reach = 0) ∧
      (e.Throughout Expr.operandsAlike → ∀ e', e.ResolvesTo e' → e'.type? = some t) := by
  have hsettled : e.reach = 0 → ∀ e', e.ResolvesTo e' → e'.type? = some t := by
    intro hreach e' he'
    rcases he'.grows with hsame | ⟨s, -, hnum, -, hle⟩
    · rw [hsame, h]
    · have hpos := (ShaderType.isNumeric_iff.mp hnum).2.1
      omega
  refine ⟨?_, ⟨?_, hsettled⟩, fun halike => hsettled (Expr.reach_eq_zero halike (by rw [h]; rfl))⟩
  · intro e' he'
    rcases he'.grows with hsame | ⟨s, hs, -, hle, -⟩
    · exact ⟨t, hsame.trans h, Nat.le_refl _⟩
    · exact ⟨s, hs, by rwa [h] at hle⟩
  · -- two kinds of components within reach cannot both be that of the type
    intro hstable
    by_contra hreach
    have hpos := Nat.pos_of_ne_zero hreach
    obtain ⟨e₁, he₁, h₁⟩ := Expr.exists_resolvesTo hpos (b := .float) (by simp)
    obtain ⟨e₂, he₂, h₂⟩ := Expr.exists_resolvesTo hpos (b := .int) (by simp)
    have hsame : some (ShaderType.mk .float e.reach) = some ⟨.int, e.reach⟩ := by
      rw [← h₁, ← h₂, hstable e₁ he₁, hstable e₂ he₂]
    simp at hsame

/-- The product of a vector of four components and something unknown. -/
def tintedVector : Expr :=
  .binary "*" (.call "vec4" [.ident "v" .unresolved]) (.ident "u" .unresolved)

/-- Such a vector hides whatever stands on its right. -/
theorem type_stable_tinted :
    tintedVector.type? = some .vec4 ∧ tintedVector.reach = 0 ∧
      ∀ e', tintedVector.ResolvesTo e' → e'.type? = some .vec4 :=
  ⟨rfl, rfl, (type_stable_iff (e := tintedVector) rfl).2.1.mpr rfl⟩

/-- A scalar hides nothing: the type is known to be a float until the other operand turns out to be
a vector. -/
theorem type_unstable_scaled :
    ∃ e e' : Expr, e.ResolvesTo e' ∧ e.type? = some .float ∧ e'.type? = some ⟨.float, 3⟩ :=
  ⟨.binary "*" (.ident "u" .unresolved) (.literal "2.0" .float),
    .binary "*" (.ident "u" (.declared { name := "u", type := ⟨.float, 3⟩ }))
      (.literal "2.0" .float),
    .binary "*" (.ident "u" (.inr ⟨rfl, rfl, _, rfl, rfl⟩)) (.literal "2.0" .float), rfl, rfl⟩

end Shaderwright
