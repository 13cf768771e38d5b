import Mathlib.Tactic.Common
import Shaderwright.Proofs.Shader.Parts

/-!
Scopes without a stack: the events on the way through a shader, and which of the declarations
among them are in scope behind them. A declaration stays in scope as long as every scope that is
left behind it was also entered behind it.
-/

namespace Shaderwright

/-- What the way through a shader can meet. -/
inductive ScopeEvent where
  | enter
  | leave
  | declare (v : Variable)
  | mention (name : String) (ref : Ref)
  deriving DecidableEq, Repr

/-! ### The events of a shader -/

/-- Events in a scope of their own. -/
def enclosed (es : List ScopeEvent) : List ScopeEvent := .enter :: (es ++ [.leave])

def Expr.mention? : Expr → Option ScopeEvent
  | .ident name ref => some (.mention name ref)
  | _ => none

def Expr.mentions (e : Expr) : List ScopeEvent := e.parts.filterMap mention?

/-- A variable is declared behind its initial value. -/
def VarDecl.events (d : VarDecl) : List ScopeEvent := d.init.mentions ++ [.declare d.var]

mutual

/-- Every block and every branch is a scope, and a loop is one around its start and its body. -/
def Stmt.events : Stmt → List ScopeEvent
  | .absent => []
  | .block ss => enclosed (eventsOf ss)
  | .decl d => d.events
  | .expr x => x.mentions
  | .returns value => value.mentions
  | .ifElse cond yes no => cond.mentions ++ enclosed yes.events ++ enclosed no.events
  | .loop init cond post body =>
    enclosed (init.events ++ cond.mentions ++ post.mentions ++ enclosed body.events)
  | .discard => []
  | .breakLoop => []
  | .continueLoop => []

def Stmt.eventsOf : List Stmt → List ScopeEvent
  | [] => []
  | s :: ss => s.events ++ eventsOf ss

end

lemma Stmt.eventsOf_eq_flatMap (ss : List Stmt) : Stmt.eventsOf ss = ss.flatMap Stmt.events := by
  induction ss with
  | nil => simp [Stmt.eventsOf]
  | cons s ss ih => simp [Stmt.eventsOf, ih]

/-- The parameters are in scope in the rest of the parameter list and in the body, which is a
scope of its own. -/
def FuncDef.events (g : FuncDef) : List ScopeEvent :=
  enclosed (g.params.flatMap VarDecl.events ++ enclosed (Stmt.eventsOf g.body))

def Decl.events : Decl → List ScopeEvent
  | .absent => []
  | .var d => d.events
  | .func g => g.events

def Shader.events (s : Shader) : List ScopeEvent := s.decls.flatMap Decl.events

def ScopeEvent.declared? : ScopeEvent → Option Variable
  | .declare v => some v
  | _ => none

def declaredBy (es : List ScopeEvent) : List Variable := es.filterMap ScopeEvent.declared?

/-! ### Declarations in scope -/

/-- Every scope that is left was entered among the events, or is one of `depth` that were entered
before. -/
def keepsOpen : Nat → List ScopeEvent → Bool
  | _, [] => true
  | depth, .enter :: es => keepsOpen (depth + 1) es
  | 0, .leave :: _ => false
  | depth + 1, .leave :: es => keepsOpen depth es
  | depth, .declare _ :: es => keepsOpen depth es
  | depth, .mention _ _ :: es => keepsOpen depth es

/-- The variable is declared among the events and is in scope behind them. -/
def InScope (es : List ScopeEvent) (v : Variable) : Prop :=
  ∃ earlier later, es = earlier ++ .declare v :: later ∧ keepsOpen 0 later = true

/-- Of the declarations of a name that are in scope behind the events, that of `v` is the latest. -/
def Binds (es : List ScopeEvent) (name : String) (v : Variable) : Prop :=
  ∃ earlier later, es = earlier ++ .declare v :: later ∧ v.name = name ∧
    keepsOpen 0 later = true ∧ ∀ w, InScope later w → w.name ≠ name

/-- The variables in scope behind the events, in the order of their declarations. -/
def visible : List ScopeEvent → List Variable
  | [] => []
  | .declare v :: es => if keepsOpen 0 es then v :: visible es else visible es
  | .enter :: es => visible es
  | .leave :: es => visible es
  | .mention _ _ :: es => visible es

lemma inScope_cons {e : ScopeEvent} {es : List ScopeEvent} {v : Variable} :
    InScope (e :: es) v ↔ (e = .declare v ∧ keepsOpen 0 es = true) ∨ InScope es v := by
  constructor
  · rintro ⟨_ | ⟨e', earlier⟩, later, heq, hopen⟩
    · obtain ⟨rfl, rfl⟩ := List.cons.inj heq
      exact .inl ⟨rfl, hopen⟩
    · obtain ⟨rfl, rfl⟩ := List.cons.inj heq
      exact .inr ⟨earlier, later, rfl, hopen⟩
  · rintro (⟨rfl, hopen⟩ | ⟨earlier, later, rfl, hopen⟩)
    · exact ⟨[], es, rfl, hopen⟩
    · exact ⟨e :: earlier, later, rfl, hopen⟩

lemma mem_visible {es : List ScopeEvent} {v : Variable} : v ∈ visible es ↔ InScope es v := by
  induction es with
  | nil =>
    refine ⟨fun h => by simp [visible] at h, ?_⟩
    rintro ⟨earlier, later, heq, -⟩
    simp at heq
  | cons e es ih =>
    rw [inScope_cons, ← ih]
    cases e with
    | declare w =>
      rw [visible]
      split_ifs with hopen <;> simp [hopen, eq_comm]
    | _ => simp [visible]

lemma binds_cons {e : ScopeEvent} {es : List ScopeEvent} {name : String} {v : Variable} :
    Binds (e :: es) name v ↔ Binds es name v ∨ (e = .declare v ∧ v.name = name ∧
      keepsOpen 0 es = true ∧ ∀ w, InScope es w → w.name ≠ name) := by
  constructor
  · rintro ⟨_ | ⟨e', earlier⟩, later, heq, hbinds⟩
    · obtain ⟨rfl, rfl⟩ := List.cons.inj heq
      exact .inr ⟨rfl, hbinds⟩
    · obtain ⟨rfl, rfl⟩ := List.cons.inj heq
      exact .inl ⟨earlier, later, rfl, hbinds⟩
  · rintro (⟨earlier, later, rfl, hbinds⟩ | ⟨rfl, hbinds⟩)
    · exact ⟨e :: earlier, later, rfl, hbinds⟩
    · exact ⟨[], es, rfl, hbinds⟩

lemma find?_visible_eq_none {es : List ScopeEvent} {name : String} :
    (visible es).reverse.find? (fun v => v.name = name) = none ↔
      ∀ v, InScope es v → v.name ≠ name := by
  simp [List.find?_eq_none, mem_visible]

/-- Looking a name up from the latest declaration on finds the one that binds it. -/
lemma find?_visible_eq_some {es : List ScopeEvent} {name : String} {v : Variable} :
    (visible es).reverse.find? (fun v => v.name = name) = some v ↔ Binds es name v := by
  induction es with
  | nil =>
    refine ⟨fun h => by simp [visible] at h, ?_⟩
    rintro ⟨earlier, later, heq, -⟩
    simp at heq
  | cons e es ih =>
    rw [binds_cons, ← ih]
    cases e with
    | declare w =>
      rw [visible]
      split_ifs with hopen
      · rw [List.reverse_cons, List.find?_append, Option.or_eq_some_iff, find?_visible_eq_none]
        refine or_congr_right ?_
        constructor
        · rintro ⟨hnone, hfind⟩
          obtain ⟨rfl, hname⟩ : w = v ∧ w.name = name := by
            rw [List.find?_singleton] at hfind
            split_ifs at hfind with hname
            exact ⟨Option.some.inj hfind, of_decide_eq_true hname⟩
          exact ⟨rfl, hname, hopen, hnone⟩
        · rintro ⟨heq, hname, -, hnone⟩
          obtain rfl := ScopeEvent.declare.inj heq
          exact ⟨hnone, by simp [hname]⟩
      · simp [hopen]
    | _ => simp [visible]

/-! ### From event to event -/

section Insertion

variable (v : Variable) (name : String) (ref : Ref) (a : List ScopeEvent) {b c : List ScopeEvent}

/-- What is behind some events decides whether their scopes stay open only by itself. -/
lemma keepsOpen_congr (h : ∀ depth, keepsOpen depth b = keepsOpen depth c) (depth : Nat) :
    keepsOpen depth (a ++ b) = keepsOpen depth (a ++ c) := by
  fun_induction keepsOpen depth a with
  | case1 depth => exact h depth
  | case2 depth a ih => exact ih
  | case3 a => rfl
  | case4 depth a ih => exact ih
  | case5 depth w a ih => exact ih
  | case6 depth n r a ih => exact ih

lemma visible_congr (hopen : ∀ depth, keepsOpen depth b = keepsOpen depth c)
    (h : visible b = visible c) : visible (a ++ b) = visible (a ++ c) := by
  induction a with
  | nil => exact h
  | cons e a ih =>
    cases e with
    | declare w =>
      rw [List.cons_append, List.cons_append, visible, visible, keepsOpen_congr a hopen, ih]
    | _ => exact ih

lemma keepsOpen_declare (depth : Nat) (es : List ScopeEvent) :
    keepsOpen depth (.declare v :: es) = keepsOpen depth es := by
  cases depth <;> rfl

lemma keepsOpen_mention (depth : Nat) (es : List ScopeEvent) :
    keepsOpen depth (.mention name ref :: es) = keepsOpen depth es := by
  cases depth <;> rfl

variable (b)

lemma visible_mention : visible (a ++ .mention name ref :: b) = visible (a ++ b) :=
  visible_congr a (fun depth => keepsOpen_mention name ref depth b) rfl

lemma visible_declare : visible (a ++ [.declare v]) = visible a ++ [v] := by
  have hopen : ∀ es, keepsOpen 0 (es ++ [.declare v]) = keepsOpen 0 es := by
    intro es
    rw [keepsOpen_congr es (fun depth => keepsOpen_declare v depth []) 0, List.append_nil]
  induction a with
  | nil => rfl
  | cons e a ih =>
    cases e with
    | declare w =>
      rw [List.cons_append, visible, visible, hopen, ih]
      split <;> rfl
    | _ => exact ih

/-- What is declared in front of the end of its scope is gone behind it. -/
lemma visible_declare_leave :
    visible (a ++ .declare v :: .leave :: b) = visible (a ++ .leave :: b) :=
  visible_congr a (fun depth => keepsOpen_declare v depth _) rfl

lemma visible_enter : visible (a ++ [.enter]) = visible a := by
  have hopen : ∀ depth, keepsOpen depth [.enter] = keepsOpen depth [] := by
    intro depth
    cases depth <;> rfl
  have hvisible := visible_congr a hopen rfl
  rwa [List.append_nil] at hvisible

lemma visible_enter_leave : visible (a ++ .enter :: .leave :: b) = visible (a ++ b) :=
  visible_congr a (fun depth => by cases depth <;> rfl) rfl

end Insertion

/-- A stack of scopes, the innermost first, holds what is in scope behind the events, what will be
in scope when the innermost scope is left, and so on. -/
def Stacked (es : List ScopeEvent) : List (List Variable) → Prop
  | [] => True
  | scope :: outer => scope = (visible es).reverse ∧ Stacked (es ++ [.leave]) outer

lemma Stacked.congr {es es' : List ScopeEvent} {stack : List (List Variable)}
    (h : ∀ rest, visible (es ++ rest) = visible (es' ++ rest)) (hs : Stacked es stack) :
    Stacked es' stack := by
  induction stack generalizing es es' with
  | nil => trivial
  | cons scope outer ih =>
    refine ⟨?_, ih (fun rest => ?_) hs.2⟩
    · have hempty := h []
      rw [List.append_nil, List.append_nil] at hempty
      rw [hs.1, hempty]
    · simpa using h (.leave :: rest)

end Shaderwright
