import Mathlib.Tactic.Common
import Shaderwright.Emit.Plain
import Shaderwright.Proofs.Emit.Spelling

/-!
How the text of an expression reads. Only a binary expression stands in parentheses, so a text may
be that of several expressions: an operator in front of an expression applies to all fields and
indices behind it, signs run together, and assignments go to the right. The reading of an expression
is the one that is grouped in this way. Two expressions have one text exactly if they have one
reading, so a text is that of one grouped expression only.
-/

namespace Shaderwright

namespace Expr

/-! ### Grouped expressions -/

def isAssign : Expr → Bool
  | .assign .. => true
  | _ => false

/-- Whether what stands right behind the text of an expression belongs to all of it. -/
def isTight : Expr → Bool
  | .unary .. => false
  | .assign .. => false
  | _ => true

/-- The first character of the operator in front of an expression. -/
def firstSign : Expr → Option Char
  | .unary op _ => op.toList.head?
  | _ => none

/-- Whether an operator makes another one with the sign behind it. -/
def fuses (op : String) (x : Expr) : Bool :=
  op == "-" && x.firstSign == some '-' || op == "+" && x.firstSign == some '+'

/-- Whether an expression is written around its parts as it reads. -/
def groupsOwn : Expr → Bool
  | .unary op x => !x.isAssign && !fuses op x
  | .assign _ lhs _ => !lhs.isAssign
  | .member x _ => x.isTight
  | .index x _ => x.isTight
  | _ => true

/-- An expression that reads as it is. -/
def Grouped (e : Expr) : Prop := e.Throughout groupsOwn

instance (e : Expr) : Decidable e.Grouped := inferInstanceAs (Decidable (e.Throughout groupsOwn))

mutual

/-- An expression without what its text does not show: what names stand for, and the kinds of
literals. -/
def bare : Expr → Expr
  | .absent => .absent
  | .ident name _ => .ident name .unresolved
  | .literal text _ => .literal text .float
  | .call callee args => .call callee (bareAll args)
  | .binary op x y => .binary op x.bare y.bare
  | .unary op x => .unary op x.bare
  | .assign op lhs rhs => .assign op lhs.bare rhs.bare
  | .member x field => .member x.bare field
  | .index x i => .index x.bare i.bare

def bareAll : List Expr → List Expr
  | [] => []
  | e :: es => e.bare :: bareAll es

end

/-! ### Reading an expression -/

/-- The operators that a row of signs makes, in front of an operand. -/
def signed : List Char → Expr → Expr
  | '-' :: '-' :: cs, x => .unary "--" (signed cs x)
  | '+' :: '+' :: cs, x => .unary "++" (signed cs x)
  | c :: cs, x => .unary (String.singleton c) (signed cs x)
  | [], x => x

end Expr

/-- What has been read of an expression. -/
structure Draft where
  /-- What was assigned to so far, with the operators. -/
  targets : List (Expr × String) := []
  /-- The signs in front of the operand. -/
  signs : List Char := []
  /-- The operand with its fields and indices, absent as long as nothing of it is read. -/
  operand : Expr := .absent

namespace Draft

def sign (d : Draft) (cs : List Char) : Draft := { d with signs := d.signs ++ cs }

def put (d : Draft) (x : Expr) : Draft := { d with operand := x }

def last (d : Draft) : Expr := Expr.signed d.signs d.operand

def assign (d : Draft) (op : String) : Draft := { targets := d.targets ++ [(d.last, op)] }

def around (d : Draft) (e : Expr) : Expr :=
  d.targets.foldr (fun target rest => .assign target.2 target.1 rest) e

def expr (d : Draft) : Expr := d.around d.last

end Draft

namespace Expr

mutual

/-- Go on reading with an expression. -/
def readInto : Expr → Draft → Draft
  | .absent, d => d
  | .ident name _, d => d.put (.ident name .unresolved)
  | .literal text _, d => d.put (.literal text .float)
  | .call callee args, d => d.put (.call callee (readAll args))
  | .binary op x y, d => d.put (.binary op (x.readInto {}).expr (y.readInto {}).expr)
  | .unary op x, d => x.readInto (d.sign op.toList)
  | .assign op lhs rhs, d => rhs.readInto ((lhs.readInto d).assign op)
  | .member x field, d => (x.readInto d).put (.member (x.readInto d).operand field)
  | .index x i, d => (x.readInto d).put (.index (x.readInto d).operand (i.readInto {}).expr)

def readAll : List Expr → List Expr
  | [] => []
  | e :: es => (e.readInto {}).expr :: readAll es

end

/-- An expression as its text reads. -/
def reading (e : Expr) : Expr := (e.readInto {}).expr

lemma bareAll_eq_map (es : List Expr) : bareAll es = es.map bare := by
  induction es with
  | nil => rw [bareAll, List.map_nil]
  | cons e es ih => rw [bareAll, ih, List.map_cons]

lemma readAll_eq_map (es : List Expr) : readAll es = es.map reading := by
  induction es with
  | nil => rw [readAll, List.map_nil]
  | cons e es ih => rw [readAll, ih, List.map_cons, reading]

/-! ### Rows of signs -/

lemma isAssign_signed {x : Expr} (hx : x.isAssign = false) (cs : List Char) :
    (signed cs x).isAssign = false := by
  fun_cases signed cs x
  all_goals first
    | rfl
    | exact hx

lemma firstSign_signed {x : Expr} (hx : x.firstSign = none) (cs : List Char) :
    (signed cs x).firstSign = cs.head? := by
  fun_cases signed cs x
  · rfl
  · rfl
  · simp [firstSign]
  · exact hx

lemma isAssign_of_isTight {x : Expr} (hx : x.isTight = true) : x.isAssign = false := by
  cases x <;> first | rfl | cases hx

lemma firstSign_of_isTight {x : Expr} (hx : x.isTight = true) : x.firstSign = none := by
  cases x <;> first | rfl | cases hx

lemma fuses_singleton {c : Char} {x : Expr}
    (h : (c = '-' ∨ c = '+') → x.firstSign ≠ some c) : fuses (String.singleton c) x = false := by
  have hop : ∀ c' : Char, String.singleton c = String.singleton c' → c = c' := by
    intro c' heq
    simpa using congrArg String.toList heq
  rw [fuses, Bool.or_eq_false_iff, Bool.and_eq_false_imp, Bool.and_eq_false_imp]
  constructor
  · intro hc
    obtain rfl := hop '-' (by simpa using hc)
    simpa using h (.inl rfl)
  · intro hc
    obtain rfl := hop '+' (by simpa using hc)
    simpa using h (.inr rfl)

/-- The operators are as long as they can be. -/
lemma grouped_signed {x : Expr} (hx : x.isTight = true) (hg : x.Grouped) (cs : List Char) :
    (signed cs x).Grouped := by
  fun_induction signed cs x with
  | case1 cs x ih =>
    have hassign := isAssign_signed (isAssign_of_isTight hx) cs
    exact throughout_unary.mpr ⟨by simp [groupsOwn, hassign, fuses], ih hx hg⟩
  | case2 cs x ih =>
    have hassign := isAssign_signed (isAssign_of_isTight hx) cs
    exact throughout_unary.mpr ⟨by simp [groupsOwn, hassign, fuses], ih hx hg⟩
  | case3 c cs x hminus hplus ih =>
    have hassign := isAssign_signed (isAssign_of_isTight hx) cs
    have hfuses : fuses (String.singleton c) (signed cs x) = false := by
      apply fuses_singleton
      rw [firstSign_signed (firstSign_of_isTight hx)]
      intro hc hhead
      obtain ⟨rest, rfl⟩ := List.head?_eq_some_iff.mp hhead
      rcases hc with rfl | rfl
      · exact hminus rest rfl rfl
      · exact hplus rest rfl rfl
    exact throughout_unary.mpr ⟨by simp [groupsOwn, hassign, hfuses], ih hx hg⟩
  | case4 x => exact hg

/-- An operator is read as a whole if it does not fuse with what is behind it. -/
lemma signed_append {op : String} (hop : unaryOperators.contains op = true) {cs : List Char}
    {x : Expr} (h : fuses op (signed cs x) = false) (hx : x.firstSign = none) :
    signed (op.toList ++ cs) x = .unary op (signed cs x) := by
  have hfirst := firstSign_signed hx cs
  rw [fuses, hfirst] at h
  have hone : ∀ c : Char, (c = '-' ∨ c = '+' → cs.head? ≠ some c) →
      signed (c :: cs) x = .unary (String.singleton c) (signed cs x) := by
    intro c hc
    rw [signed]
    · rintro rest rfl rfl
      exact hc (.inl rfl) rfl
    · rintro rest rfl rfl
      exact hc (.inr rfl) rfl
  have hops : op = "-" ∨ op = "+" ∨ op = "!" ∨ op = "~" ∨ op = "++" ∨ op = "--" := by
    simpa [unaryOperators] using hop
  rcases hops with rfl | rfl | rfl | rfl | rfl | rfl
  · exact hone '-' fun _ => by simpa using h
  · exact hone '+' fun _ => by simpa using h
  · exact hone '!' (by simp)
  · exact hone '~' (by simp)
  · rfl
  · rfl

lemma tokens_signed (cs : List Char) (x : Expr) :
    (signed cs x).tokens = cs.map Token.sign ++ x.tokens := by
  fun_induction signed cs x with
  | case1 cs x ih => simp [tokens, ih]
  | case2 cs x ih => simp [tokens, ih]
  | case3 c cs x hminus hplus ih => simp [tokens, ih]
  | case4 x => rfl

end Expr

/-! ### The text of a reading -/

namespace Draft

def tokens (d : Draft) : List Token :=
  (d.targets.flatMap fun target => target.1.tokens ++ [.infixed target.2]) ++
    (d.signs.map Token.sign ++ d.operand.tokens)

lemma tokens_expr (d : Draft) : d.expr.tokens = d.tokens := by
  have haround : ∀ e : Expr, (d.around e).tokens =
      (d.targets.flatMap fun target => target.1.tokens ++ [.infixed target.2]) ++ e.tokens := by
    intro e
    unfold around
    induction d.targets with
    | nil => rfl
    | cons target targets ih => simp [Expr.tokens, ih]
  rw [expr, haround, last, Expr.tokens_signed, tokens]

lemma tokens_put {d : Draft} {x : Expr} {ts : List Token}
    (h : x.tokens = d.operand.tokens ++ ts) : (d.put x).tokens = d.tokens ++ ts := by
  simp [tokens, put, h]

lemma tokens_assign (d : Draft) (op : String) :
    (d.assign op).tokens = d.tokens ++ [.infixed op] := by
  simp [tokens, assign, last, Expr.tokens_signed, Expr.tokens]

end Draft

lemma Expr.tokens_readInto (e : Expr) {d : Draft} (hd : d.operand = .absent) :
    (e.readInto d).tokens = d.tokens ++ e.tokens := by
  -- an operand that is put where nothing was adds all of its tokens
  have hput : ∀ {d : Draft} {x e : Expr}, d.operand = .absent → x.tokens = e.tokens →
      (d.put x).tokens = d.tokens ++ e.tokens := by
    intro d x e hd hx
    refine Draft.tokens_put ?_
    rw [hd, hx, Expr.tokens, List.nil_append]
  have hinner : ∀ {x : Expr}, (∀ {d : Draft}, d.operand = .absent →
      (x.readInto d).tokens = d.tokens ++ x.tokens) → (x.readInto {}).expr.tokens = x.tokens := by
    intro x hx
    rw [Draft.tokens_expr, hx rfl]
    simp [Draft.tokens, Expr.tokens]
  induction e using Expr.inductOn generalizing d with
  | absent => simp [readInto, Expr.tokens]
  | ident name ref => exact hput hd (by simp only [Expr.tokens])
  | literal text kind => exact hput hd (by simp only [Expr.tokens])
  | call callee args ih =>
    rw [readInto, readAll_eq_map]
    refine hput hd ?_
    cases args with
    | nil => rfl
    | cons arg args =>
      have htail : (args.map reading).flatMap (fun arg => .comma :: arg.tokens) =
          args.flatMap fun arg => .comma :: arg.tokens := by
        rw [List.flatMap_map]
        refine List.flatMap_congr fun arg harg => ?_
        rw [reading, hinner (ih arg (List.mem_cons_of_mem _ harg))]
      rw [List.map_cons, Expr.tokens, Expr.tokens, tokensBehind_eq_flatMap, tokensBehind_eq_flatMap,
        htail, reading, hinner (ih arg List.mem_cons_self)]
  | binary op x y hx hy =>
    rw [readInto]
    exact hput hd (by simp only [Expr.tokens, hinner hx, hinner hy])
  | unary op x hx =>
    rw [readInto, hx (d := d.sign op.toList) hd]
    simp [Draft.sign, Draft.tokens, Expr.tokens, hd]
  | assign op lhs rhs hl hr =>
    rw [readInto, hr (by rfl), Draft.tokens_assign, hl hd]
    simp [Expr.tokens]
  | member x field hx =>
    rw [readInto, Draft.tokens_put (by rw [Expr.tokens]), hx hd]
    simp [Expr.tokens]
  | index x i hx hi =>
    rw [readInto, Draft.tokens_put (by rw [Expr.tokens]), hx hd, hinner hi]
    simp [Expr.tokens]

lemma Expr.tokens_reading (e : Expr) : e.reading.tokens = e.tokens := by
  rw [reading, Draft.tokens_expr, e.tokens_readInto rfl]
  simp [Draft.tokens, Expr.tokens]

/-! ### Readings are grouped -/

/-- A draft whose parts are grouped. -/
structure Draft.Sound (d : Draft) : Prop where
  targets : ∀ target ∈ d.targets, target.1.Grouped ∧ target.1.isAssign = false
  operand : d.operand.Grouped
  tight : d.operand.isTight = true

namespace Draft

lemma sound_empty : Sound {} := ⟨by simp, (Expr.throughout_leaf rfl).mpr rfl, rfl⟩

namespace Sound

variable {d : Draft} (hd : d.Sound)

include hd

lemma last : d.last.Grouped ∧ d.last.isAssign = false :=
  ⟨Expr.grouped_signed hd.tight hd.operand _,
    Expr.isAssign_signed (Expr.isAssign_of_isTight hd.tight) _⟩

lemma put {x : Expr} (hx : x.Grouped) (htight : x.isTight = true) : (d.put x).Sound :=
  ⟨hd.targets, hx, htight⟩

lemma assign (op : String) : (d.assign op).Sound := by
  refine ⟨?_, (Expr.throughout_leaf rfl).mpr rfl, rfl⟩
  intro target htarget
  rcases List.mem_append.mp htarget with htarget | htarget
  · exact hd.targets target htarget
  · rw [List.mem_singleton.mp htarget]
    exact hd.last

lemma expr : d.expr.Grouped := by
  have haround : ∀ targets : List (Expr × String),
      (∀ target ∈ targets, target.1.Grouped ∧ target.1.isAssign = false) →
      (targets.foldr (fun target rest => Expr.assign target.2 target.1 rest) d.last).Grouped := by
    intro targets htargets
    induction targets with
    | nil => exact hd.last.1
    | cons target targets ih =>
      rw [List.forall_mem_cons] at htargets
      refine Expr.throughout_assign.mpr ⟨?_, htargets.1.1, ih htargets.2⟩
      simp [Expr.groupsOwn, htargets.1.2]
  exact haround d.targets hd.targets

end Sound

end Draft

lemma Expr.sound_readInto (e : Expr) {d : Draft} (hd : d.Sound) : (e.readInto d).Sound := by
  induction e using Expr.inductOn generalizing d with
  | absent => exact hd
  | ident name ref => exact hd.put ((throughout_leaf rfl).mpr rfl) rfl
  | literal text kind => exact hd.put ((throughout_leaf rfl).mpr rfl) rfl
  | call callee args ih =>
    rw [readInto, readAll_eq_map]
    refine hd.put (throughout_call.mpr ⟨rfl, ?_⟩) rfl
    simp only [List.forall_mem_map]
    exact fun arg harg => (ih arg harg Draft.sound_empty).expr
  | binary op x y hx hy =>
    rw [readInto]
    exact hd.put (throughout_binary.mpr
      ⟨rfl, (hx Draft.sound_empty).expr, (hy Draft.sound_empty).expr⟩) rfl
  | unary op x hx => exact hx ⟨hd.targets, hd.operand, hd.tight⟩
  | assign op lhs rhs hl hr => exact hr ((hl hd).assign op)
  | member x field hx =>
    exact (hx hd).put (throughout_member.mpr ⟨(hx hd).tight, (hx hd).operand⟩) rfl
  | index x i hx hi =>
    exact (hx hd).put (throughout_index.mpr
      ⟨(hx hd).tight, (hx hd).operand, (hi Draft.sound_empty).expr⟩) rfl

lemma Expr.grouped_reading (e : Expr) : e.reading.Grouped :=
  (e.sound_readInto Draft.sound_empty).expr

/-! ### Grouped expressions read as they are -/

namespace Expr

lemma firstSign_bare (e : Expr) : e.bare.firstSign = e.firstSign := by
  cases e <;> simp [bare, firstSign]

lemma grouped_bare (e : Expr) : e.bare.Grouped ↔ e.Grouped := by
  have hassign : ∀ e : Expr, e.bare.isAssign = e.isAssign := by
    intro e
    cases e <;> simp [bare, isAssign]
  have htight : ∀ e : Expr, e.bare.isTight = e.isTight := by
    intro e
    cases e <;> simp [bare, isTight]
  unfold Grouped
  induction e using Expr.inductOn with
  | absent => rw [bare]
  | ident name ref =>
    rw [bare]
    exact iff_of_true ((throughout_leaf rfl).mpr rfl) ((throughout_leaf rfl).mpr rfl)
  | literal text kind =>
    rw [bare]
    exact iff_of_true ((throughout_leaf rfl).mpr rfl) ((throughout_leaf rfl).mpr rfl)
  | call callee args ih =>
    simp only [bare, bareAll_eq_map, throughout_call, List.forall_mem_map, groupsOwn]
    exact and_congr_right fun _ => forall₂_congr ih
  | binary op x y hx hy => simp only [bare, throughout_binary, groupsOwn, hx, hy]
  | unary op x hx =>
    simp only [bare, throughout_unary, groupsOwn, fuses, hassign, firstSign_bare, hx]
  | assign op lhs rhs hl hr => simp only [bare, throughout_assign, groupsOwn, hassign, hl, hr]
  | member x field hx => simp only [bare, throughout_member, groupsOwn, htight, hx]
  | index x i hx hi => simp only [bare, throughout_index, groupsOwn, htight, hx, hi]

/-- An expression without assignments reads as a row of signs in front of an operand. -/
structure ReadsAs (e : Expr) (cs : List Char) (x : Expr) : Prop where
  into : ∀ d, e.readInto d = (d.sign cs).put x
  firstSign : x.firstSign = none
  signed : signed cs x = e.bare

lemma readsAs_bare {e : Expr} (htight : e.isTight = true)
    (hinto : ∀ d : Draft, e.readInto d = d.put e.bare) : e.ReadsAs [] e.bare where
  into d := by
    rw [hinto]
    simp [Draft.put, Draft.sign]
  firstSign := e.firstSign_bare.trans (firstSign_of_isTight htight)
  signed := rfl

lemma ReadsAs.last {e x : Expr} {cs : List Char} (h : e.ReadsAs cs x) {d : Draft}
    (hd : d.signs = []) : (e.readInto d).last = e.bare := by
  simp [h.into, Draft.last, Draft.put, Draft.sign, hd, h.signed]

lemma ReadsAs.expr {e x : Expr} {cs : List Char} (h : e.ReadsAs cs x) {d : Draft}
    (hd : d.signs = []) : (e.readInto d).expr = d.around e.bare := by
  rw [Draft.expr, h.last hd, h.into]
  rfl

/-- A grouped expression reads as it is, behind any assignments and, if it has none itself, behind
any signs. -/
lemma Grouped.reads {e : Expr} (hg : e.Grouped) (hs : e.Legible) :
    (e.isAssign = false → ∃ cs x, e.ReadsAs cs x ∧ (e.isTight = true → cs = [])) ∧
      ∀ d : Draft, d.signs = [] → (e.readInto d).expr = d.around e.bare := by
  -- without assignments the first part gives the second one
  have hwhole : ∀ {e : Expr}, (∃ cs x, e.ReadsAs cs x ∧ (e.isTight = true → cs = [])) →
      (e.isAssign = false → ∃ cs x, e.ReadsAs cs x ∧ (e.isTight = true → cs = [])) ∧
        ∀ d : Draft, d.signs = [] → (e.readInto d).expr = d.around e.bare := by
    rintro e ⟨cs, x, hreads, hcs⟩
    exact ⟨fun _ => ⟨cs, x, hreads, hcs⟩, fun d hd => hreads.expr hd⟩
  have hown : ∀ {e : Expr}, e.isTight = true → (∀ d : Draft, e.readInto d = d.put e.bare) →
      ∃ cs x, e.ReadsAs cs x ∧ (e.isTight = true → cs = []) :=
    fun htight hinto => ⟨[], _, readsAs_bare htight hinto, fun _ => rfl⟩
  induction e using Expr.inductOn with
  | absent => exact absurd ((throughout_leaf rfl).mp hs) (by decide)
  | ident name ref => exact hwhole (hown rfl fun d => by simp only [readInto, bare])
  | literal text kind => exact hwhole (hown rfl fun d => by simp only [readInto, bare])
  | call callee args ih =>
    obtain ⟨-, hgs⟩ := throughout_call.mp hg
    obtain ⟨-, hss⟩ := throughout_call.mp hs
    have hargs : args.map reading = args.map bare :=
      List.map_congr_left fun arg harg => (ih arg harg (hgs arg harg) (hss arg harg)).2 {} rfl
    exact hwhole (hown rfl fun d => by rw [readInto, readAll_eq_map, bare, bareAll_eq_map, hargs])
  | binary op x y hx hy =>
    obtain ⟨-, hxg, hyg⟩ := throughout_binary.mp hg
    obtain ⟨-, hxs, hys⟩ := throughout_binary.mp hs
    refine hwhole (hown rfl fun d => ?_)
    rw [readInto, bare, (hx hxg hxs).2 {} rfl, (hy hyg hys).2 {} rfl]
    rfl
  | unary op x hx =>
    obtain ⟨hown', hxg⟩ := throughout_unary.mp hg
    obtain ⟨hop, hxs⟩ := throughout_unary.mp hs
    simp only [groupsOwn, Bool.and_eq_true, Bool.not_eq_true'] at hown'
    obtain ⟨cs, y, hreads, -⟩ := (hx hxg hxs).1 hown'.1
    have hfuses : fuses op (signed cs y) = false := by
      rw [hreads.signed, fuses, firstSign_bare]
      exact hown'.2
    refine hwhole ⟨op.toList ++ cs, y, ⟨fun d => ?_, hreads.firstSign, ?_⟩, nofun⟩
    · rw [readInto, hreads.into]
      simp [Draft.sign, Draft.put]
    · rw [signed_append hop hfuses hreads.firstSign, hreads.signed, bare]
  | assign op lhs rhs hl hr =>
    obtain ⟨hown', hlg, hrg⟩ := throughout_assign.mp hg
    obtain ⟨-, hls, hrs⟩ := throughout_assign.mp hs
    obtain ⟨cs, x, hreads, -⟩ := (hl hlg hls).1 (by simpa [groupsOwn] using hown')
    refine ⟨nofun, fun d hd => ?_⟩
    rw [readInto, (hr hrg hrs).2 _ rfl, Draft.around, Draft.assign, hreads.last hd, bare,
      List.foldr_append, hreads.into]
    rfl
  | member x field hx =>
    obtain ⟨htight, hxg⟩ := throughout_member.mp hg
    obtain ⟨-, hxs⟩ := throughout_member.mp hs
    obtain ⟨cs, y, hreads, hcs⟩ := (hx hxg hxs).1 (isAssign_of_isTight htight)
    refine hwhole (hown rfl fun d => ?_)
    rw [readInto, bare, ← hreads.signed, hcs htight]
    simp [hreads.into, hcs htight, Draft.put, Draft.sign, Expr.signed]
  | index x i hx hi =>
    obtain ⟨htight, hxg, hig⟩ := throughout_index.mp hg
    obtain ⟨-, hxs, his⟩ := throughout_index.mp hs
    obtain ⟨cs, y, hreads, hcs⟩ := (hx hxg hxs).1 (isAssign_of_isTight htight)
    refine hwhole (hown rfl fun d => ?_)
    rw [readInto, bare, ← hreads.signed, hcs htight, (hi hig his).2 {} rfl]
    simp [hreads.into, hcs htight, Draft.put, Draft.sign, Draft.around, Expr.signed]

/-- The expressions that read as they are, are the grouped ones. -/
lemma reading_eq_bare {e : Expr} (hs : e.Legible) : e.reading = e.bare ↔ e.Grouped := by
  refine ⟨fun h => ?_, fun hg => (hg.reads hs).2 {} rfl⟩
  rw [← grouped_bare, ← h]
  exact e.grouped_reading

end Expr

/-! ### Reading tokens -/

/-- What surrounds the expression that is being read, with the draft that goes on behind it. -/
inductive Frame where
  /-- The left operand of a binary expression. -/
  | left (d : Draft)
  | right (d : Draft) (op : String) (x : Expr)
  | arg (d : Draft) (callee : String) (done : List Expr)
  | index (d : Draft)

structure Reader where
  frames : List Frame := []
  draft : Draft := {}

namespace Reader

def step (r : Reader) : Token → Reader
  | .sign c => { r with draft := r.draft.sign [c] }
  | .name n => { r with draft := r.draft.put (.ident n .unresolved) }
  | .literal text => { r with draft := r.draft.put (.literal text .float) }
  | .field n => { r with draft := r.draft.put (.member r.draft.operand n) }
  | .callee n => { frames := .arg r.draft n [] :: r.frames }
  | .opens => { frames := .left r.draft :: r.frames }
  | .opensIndex => { frames := .index r.draft :: r.frames }
  | .comma =>
    match r.frames with
    | .arg d n done :: frames => { frames := .arg d n (done ++ [r.draft.expr]) :: frames }
    | _ => r
  | .infixed op =>
    if op ∈ assignmentOperators then { r with draft := r.draft.assign op }
    else
      match r.frames with
      | .left d :: frames => { frames := .right d op r.draft.expr :: frames }
      | _ => r
  | .closes =>
    match r.frames with
    | .right d op x :: frames => ⟨frames, d.put (.binary op x r.draft.expr)⟩
    | .arg d n done :: frames =>
      ⟨frames, d.put (.call n (if r.draft.operand.isAbsent then done else done ++ [r.draft.expr]))⟩
    | _ => r
  | .closesIndex =>
    match r.frames with
    | .index d :: frames => ⟨frames, d.put (.index d.operand r.draft.expr)⟩
    | _ => r

def run (r : Reader) (ts : List Token) : Reader := ts.foldl step r

@[simp] lemma run_nil (r : Reader) : r.run [] = r := rfl

@[simp] lemma run_cons (r : Reader) (t : Token) (ts : List Token) :
    r.run (t :: ts) = (r.step t).run ts := rfl

@[simp] lemma run_append (r : Reader) (ts ts' : List Token) :
    r.run (ts ++ ts') = (r.run ts).run ts' :=
  List.foldl_append

lemma run_signs (r : Reader) (cs : List Char) :
    r.run (cs.map Token.sign) = { r with draft := r.draft.sign cs } := by
  induction cs generalizing r with
  | nil => simp [Draft.sign]
  | cons c cs ih => simp [ih, step, Draft.sign]

end Reader

namespace Expr

lemma isAbsent_operand_readInto {e : Expr} (hs : e.Legible) (d : Draft) :
    (e.readInto d).operand.isAbsent = false := by
  induction e using Expr.inductOn generalizing d with
  | absent => exact absurd ((throughout_leaf rfl).mp hs) (by decide)
  | unary op x hx => exact hx (throughout_unary.mp hs).2 _
  | assign op lhs rhs hl hr => exact hr (throughout_assign.mp hs).2.2 _
  | _ => rfl

lemma run_tokensBehind {args : List Expr}
    (h : ∀ arg ∈ args, ∀ r : Reader, r.run arg.tokens = { r with draft := arg.readInto r.draft })
    (hs : ∀ arg ∈ args, arg.Legible) (d : Draft) (callee : String) (done : List Expr)
    (frames : List Frame) {arg : Draft} (harg : arg.operand.isAbsent = false) :
    Reader.run ⟨.arg d callee done :: frames, arg⟩ (tokensBehind args ++ [.closes]) =
      ⟨frames, d.put (.call callee (done ++ arg.expr :: args.map reading))⟩ := by
  induction args generalizing done arg with
  | nil => simp [tokensBehind, Reader.step, harg]
  | cons next args ih =>
    rw [List.forall_mem_cons] at h hs
    have hrest := ih h.2 hs.2 (done ++ [arg.expr]) (isAbsent_operand_readInto hs.1 {})
    rw [tokensBehind, List.cons_append, List.append_assoc, Reader.run_cons, Reader.run_append,
      Reader.step, h.1, hrest]
    simp [reading]

/-- Reading the tokens of an expression is reading the expression. -/
lemma run_tokens {e : Expr} (hs : e.Legible) (r : Reader) :
    r.run e.tokens = { r with draft := e.readInto r.draft } := by
  induction e using Expr.inductOn generalizing r with
  | absent => rfl
  | ident name ref => rfl
  | literal text kind => rfl
  | call callee args ih =>
    obtain ⟨-, hss⟩ := throughout_call.mp hs
    cases args with
    | nil => rfl
    | cons arg args =>
      rw [List.forall_mem_cons] at hss
      rw [List.forall_mem_cons] at ih
      have hclosed := run_tokensBehind (fun arg harg => ih.2 arg harg (hss.2 arg harg)) hss.2
        r.draft callee [] r.frames (isAbsent_operand_readInto hss.1 {})
      rw [tokens, Reader.run_cons, Reader.run_append, Reader.step, ih.1 hss.1, hclosed, readInto,
        readAll_eq_map]
      rfl
  | binary op x y hx hy =>
    obtain ⟨hop, hxs, hys⟩ := throughout_binary.mp hs
    have hbinary : ∀ op ∈ binaryOperators, op ∉ assignmentOperators := by decide
    have hop' := hbinary op (List.contains_iff_mem.mp hop)
    simp [tokens, hx hxs, hy hys, Reader.step, hop', readInto]
  | unary op x hx =>
    rw [tokens, Reader.run_append, Reader.run_signs, hx (throughout_unary.mp hs).2, readInto]
  | assign op lhs rhs hl hr =>
    obtain ⟨hop, hls, hrs⟩ := throughout_assign.mp hs
    have hop' : op ∈ assignmentOperators := List.contains_iff_mem.mp hop
    simp [tokens, hl hls, hr hrs, Reader.step, hop', readInto]
  | member x field hx =>
    simp [tokens, hx (throughout_member.mp hs).2, Reader.step, readInto]
  | index x i hx hi =>
    obtain ⟨-, hxs, his⟩ := throughout_index.mp hs
    simp [tokens, hx hxs, hi his, Reader.step, readInto]

/-- What an expression reads as can be told from its tokens. -/
lemma reading_eq_of_tokens {e e' : Expr} (hs : e.Legible) (hs' : e'.Legible)
    (h : e.tokens = e'.tokens) : e.reading = e'.reading := by
  have hrun := run_tokens hs {}
  rw [h, run_tokens hs' {}] at hrun
  exact congrArg (fun r : Reader => r.draft.expr) hrun.symm

end Expr

/-! ### Texts and readings -/

/-- From some state a target writes an expression as this text. -/
def ExprDialect.Renders {σ : Type} (d : ExprDialect σ) (e : Expr) (text : String) : Prop :=
  ∃ w v, (d.expr e).exec w = (.ok (), v) ∧ v.out = w.out ++ text

lemma ExprDialect.IsPlain.toList_of_renders {σ : Type} {d : ExprDialect σ} (hd : d.IsPlain)
    {e : Expr} {text : String} (h : d.Renders e text) :
    text.toList = e.tokens.flatMap Token.chars := by
  obtain ⟨w, v, hv, hout⟩ := h
  have hwrites := hd.writes e w v hv
  rw [hout, String.toList_append] at hwrites
  exact List.append_cancel_left hwrites

/-- Two expressions have one text exactly if they have one reading. A reading is grouped, and what
is grouped, and nothing else, reads as it is. So of the grouped expressions no two different ones
have one text. -/
theorem text_eq_iff_reading_eq {σ : Type} {d : ExprDialect σ} (hd : d.IsPlain) {e e' : Expr}
    (hs : e.Legible) (hs' : e'.Legible) {text text' : String} (h : d.Renders e text)
    (h' : d.Renders e' text') :
    (text = text' ↔ e.reading = e'.reading) ∧
      e.reading.Grouped ∧ (e.reading = e.bare ↔ e.Grouped) ∧
      (e.Grouped → e'.Grouped → (text = text' ↔ e.bare = e'.bare)) := by
  have hiff : text = text' ↔ e.reading = e'.reading := by
    rw [← String.toList_inj, hd.toList_of_renders h, hd.toList_of_renders h']
    constructor
    · intro hchars
      refine Expr.reading_eq_of_tokens hs hs' (Token.Chained.ext ?_ ?_ hchars)
      · rw [← List.append_nil e.tokens]
        exact hs.chained trivial rfl
      · rw [← List.append_nil e'.tokens]
        exact hs'.chained trivial rfl
    · intro hreading
      rw [← e.tokens_reading, hreading, e'.tokens_reading]
  refine ⟨hiff, e.grouped_reading, Expr.reading_eq_bare hs, fun hg hg' => ?_⟩
  rw [hiff, (Expr.reading_eq_bare hs).mpr hg, (Expr.reading_eq_bare hs').mpr hg']

lemma PlainTarget.isPlain {t : PlainTarget} (hvariables : t.variableNames = [])
    (hfunctions : t.functions = []) : t.exprDialect.IsPlain where
  names s name := by simp [exprDialect, hvariables, NameTable.get, NameTable.get?]
  call callee args := by simp [exprDialect, hfunctions, NameTable.get, NameTable.get?]

def fieldOfMinus : Expr := .member (.unary "-" (.ident "a" .unresolved)) "x"

def minusOfField : Expr := .unary "-" (.member (.ident "a" .unresolved) "x")

lemma renders_fieldOfMinus : ({} : PlainTarget).exprDialect.Renders fieldOfMinus "-a.x" :=
  ⟨{ own := () }, _, rfl, by decide⟩

lemma renders_minusOfField : ({} : PlainTarget).exprDialect.Renders minusOfField "-a.x" :=
  ⟨{ own := () }, _, rfl, by decide⟩

/-- The field of a negative reads as the negative of the field, which reads as it is. -/
theorem reading_fieldOfMinus :
    ¬fieldOfMinus.Grouped ∧ minusOfField.Grouped ∧
      fieldOfMinus.reading = minusOfField.reading ∧ minusOfField.reading = minusOfField.bare := by
  have hplain : ({} : PlainTarget).exprDialect.IsPlain := PlainTarget.isPlain rfl rfl
  have hgrouped : minusOfField.Grouped := by decide
  obtain ⟨hsame, -⟩ := text_eq_iff_reading_eq hplain (by decide) (by decide)
    renders_fieldOfMinus renders_minusOfField
  obtain ⟨-, -, hminus, -⟩ := text_eq_iff_reading_eq hplain (by decide) (by decide)
    renders_minusOfField renders_fieldOfMinus
  exact ⟨by decide, hgrouped, hsame.mp rfl, hminus.mpr hgrouped⟩

/-- The field of a negative and the negative of a field are different expressions with one text. -/
theorem fieldOfMinus_text_minusOfField :
    ({} : PlainTarget).exprDialect.IsPlain ∧ fieldOfMinus.Legible ∧ minusOfField.Legible ∧
      ({} : PlainTarget).exprDialect.Renders fieldOfMinus "-a.x" ∧
      ({} : PlainTarget).exprDialect.Renders minusOfField "-a.x" ∧
      fieldOfMinus.bare ≠ minusOfField.bare := by
  refine ⟨PlainTarget.isPlain rfl rfl, by decide, by decide, renders_fieldOfMinus,
    renders_minusOfField, ?_⟩
  simp [fieldOfMinus, minusOfField, Expr.bare]

end Shaderwright
