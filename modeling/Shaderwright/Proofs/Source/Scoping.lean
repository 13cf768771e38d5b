import Mathlib.Tactic.Common
import Shaderwright.Proofs.Shader.ScopeEvents
import Shaderwright.Proofs.Source.Resolution
import Shaderwright.Shader.Typing

/-!
Names are resolved lexically. Along the events of a resolved shader, every identifier stands for
the latest declaration of its name that is in scope, if there is none for the stage input of that
name, and else for nothing.
-/

namespace Shaderwright.Source

/-! ### A stack of scopes -/

/-- One event with the stack of scopes before and behind it, the innermost scope first. -/
inductive ScopeStep : List Scope → ScopeEvent → List Scope → Prop
  | enter (scope : Scope) (outer : List Scope) :
    ScopeStep (scope :: outer) .enter (scope :: scope :: outer)
  | leave (scope : Scope) (outer : List Scope) : ScopeStep (scope :: outer) .leave outer
  | declare (scope : Scope) (outer : List Scope) (v : Variable) :
    ScopeStep (scope :: outer) (.declare v) ((v :: scope) :: outer)
  | mention (scope : Scope) (outer : List Scope) (name : String) :
    ScopeStep (scope :: outer) (.mention name (scope.ref name)) (scope :: outer)

inductive ScopeRun : List Scope → List ScopeEvent → List Scope → Prop
  | nil (stack : List Scope) : ScopeRun stack [] stack
  | cons {stack stack' stack'' : List Scope} {e : ScopeEvent} {es : List ScopeEvent} :
    ScopeStep stack e stack' → ScopeRun stack' es stack'' → ScopeRun stack (e :: es) stack''

namespace ScopeRun

variable {stack stack' stack'' : List Scope} {es es' : List ScopeEvent}

lemma single {e : ScopeEvent} (h : ScopeStep stack e stack') : ScopeRun stack [e] stack' :=
  .cons h (.nil _)

lemma append (h : ScopeRun stack es stack') (h' : ScopeRun stack' es' stack'') :
    ScopeRun stack (es ++ es') stack'' := by
  induction h with
  | nil => exact h'
  | cons hstep _ ih => exact .cons hstep (ih h')

lemma split (h : ScopeRun stack (es ++ es') stack'') :
    ∃ stack', ScopeRun stack es stack' ∧ ScopeRun stack' es' stack'' := by
  induction es generalizing stack with
  | nil => exact ⟨stack, .nil _, h⟩
  | cons e es ih =>
    cases h with
    | cons hstep hrest =>
      obtain ⟨stack', hes, hes'⟩ := ih hrest
      exact ⟨stack', .cons hstep hes, hes'⟩

end ScopeRun

lemma ScopeStep.stacked {stack stack' : List Scope} {e : ScopeEvent} {es : List ScopeEvent}
    (h : ScopeStep stack e stack') (hs : Stacked es stack) : Stacked (es ++ [e]) stack' := by
  cases h with
  | enter scope outer =>
    refine ⟨by rw [visible_enter]; exact hs.1, ?_⟩
    -- leaving the new scope at once leads back to where it was entered
    refine Stacked.congr (fun rest => ?_) hs
    rw [List.append_assoc, List.append_assoc]
    exact (visible_enter_leave es rest).symm
  | leave scope outer => exact hs.2
  | declare scope outer v =>
    refine ⟨by rw [visible_declare, hs.1, List.reverse_append]; rfl, ?_⟩
    refine Stacked.congr (fun rest => ?_) hs.2
    rw [List.append_assoc, List.append_assoc, List.append_assoc]
    exact (visible_declare_leave v es rest).symm
  | mention scope outer name =>
    refine Stacked.congr (fun rest => ?_) hs
    rw [List.append_assoc]
    exact (visible_mention name _ es rest).symm

lemma ScopeRun.stacked {stack stack' : List Scope} {es later : List ScopeEvent}
    (h : ScopeRun stack later stack') (hs : Stacked es stack) : Stacked (es ++ later) stack' := by
  induction h generalizing es with
  | nil => rwa [List.append_nil]
  | cons hstep _ ih => simpa using ih (hstep.stacked hs)

/-! ### The events of resolved parts -/

@[simp] lemma Context.leave_leave (c d e : Context) : c.leave (d.leave e) = c.leave e := rfl

@[simp] lemma Context.leave_leave_left (c d e : Context) : (c.leave d).leave e = c.leave e := rfl

lemma declaredBy_append (es es' : List ScopeEvent) :
    declaredBy (es ++ es') = declaredBy es ++ declaredBy es' := List.filterMap_append

lemma declaredBy_enclosed (es : List ScopeEvent) : declaredBy (enclosed es) = declaredBy es := by
  simp [declaredBy, enclosed, List.filterMap_cons, ScopeEvent.declared?]

/-- These events lead from one context to the other: on top of any outer scopes, and with numbers
for the declared variables that go on from the counter. -/
structure Leads (c c' : Context) (es : List ScopeEvent) : Prop where
  run : ∀ outer, ScopeRun (c.scope :: outer) es (c'.scope :: outer)
  count : c'.declared = c.declared + (declaredBy es).length
  ids : (declaredBy es).map Variable.id = List.range' c.declared (declaredBy es).length

namespace Leads

variable {c d e : Context} {es es' : List ScopeEvent}

lemma nil (c : Context) : Leads c c [] := ⟨fun _ => .nil _, rfl, rfl⟩

lemma append (h : Leads c d es) (h' : Leads d e es') : Leads c e (es ++ es') where
  run outer := (h.run outer).append (h'.run outer)
  count := by
    rw [h'.count, h.count, declaredBy_append, List.length_append, Nat.add_assoc]
  ids := by
    rw [declaredBy_append, List.map_append, h.ids, h'.ids, h.count, List.length_append,
      ← List.range'_append_1]

/-- What is declared in a scope of its own is gone behind it, but its numbers are used up. -/
lemma enclosed (h : Leads c d es) : Leads c (c.leave d) (enclosed es) where
  run outer := .cons (.enter _ _) ((h.run _).append (.single (.leave _ _)))
  count := by rw [declaredBy_enclosed]; exact h.count
  ids := by rw [declaredBy_enclosed]; exact h.ids

lemma mentions {e : Expr} (h : Refers c.scope e.parts) : Leads c c e.mentions := by
  unfold Expr.mentions
  generalize e.parts = parts at h
  induction parts with
  | nil => exact .nil c
  | cons x parts ih =>
    have hrest := ih fun name ref hmem => h name ref (List.mem_cons_of_mem _ hmem)
    cases x with
    | ident name ref =>
      obtain rfl := h name ref List.mem_cons_self
      have hone : Leads c c [.mention name (c.scope.ref name)] :=
        ⟨fun outer => .single (.mention _ _ _), rfl, rfl⟩
      exact hone.append hrest
    | _ => exact hrest

end Leads

lemma Declares.leads {c : Context} {d : VarDecl} (h : Declares c d) :
    Leads c (c.declare d.var) d.events := by
  have hdeclare : Leads c (c.declare d.var) [.declare d.var] :=
    ⟨fun outer => .single (.declare _ _ _), rfl, by simp [declaredBy, ScopeEvent.declared?, h.id]⟩
  exact (Leads.mentions h.init.refers).append hdeclare

lemma leads_wordStmts {s : Stmt} (h : s ∈ wordStmts) (c : Context) : Leads c c s.events := by
  simp only [wordStmts, List.mem_cons, List.not_mem_nil, or_false] at h
  rcases h with rfl | rfl | rfl | rfl <;> exact .nil c

lemma Elaborates.leads {c c' : Context} {ss : List Stmt} (h : Elaborates c ss c') :
    Leads c c' (Stmt.eventsOf ss) := by
  induction h with
  | nil c => exact .nil c
  | cons _ _ ihs ihss => simpa [Stmt.eventsOf] using ihs.append ihss
  | word c hs => simpa [Stmt.eventsOf] using leads_wordStmts hs c
  | block _ ih => simpa [Stmt.eventsOf, Stmt.events] using ih.enclosed
  | decl hd => simpa [Stmt.eventsOf, Stmt.events] using hd.leads
  | expr hx => simpa [Stmt.eventsOf, Stmt.events] using Leads.mentions hx.refers
  | returns hx => simpa [Stmt.eventsOf, Stmt.events] using Leads.mentions hx.refers
  | @ifElse c d e cond yes no hcond _ _ ihyes ihno =>
    have hyes := (Leads.mentions hcond.refers).append ihyes.enclosed.enclosed
    cases no with
    | none => simpa [Stmt.eventsOf, Stmt.events] using hyes.append ihno.enclosed
    | some no => simpa [Stmt.eventsOf, Stmt.events] using hyes.append ihno.enclosed.enclosed
  | @loop c d e init cond post body _ hcond hpost _ ihinit ihbody =>
    have hall := (((ihinit.append (.mentions hcond.refers)).append (.mentions hpost.refers)).append
      ihbody.enclosed.enclosed).enclosed
    cases init <;> simpa [Stmt.eventsOf, Stmt.events] using hall

lemma eventsOf_map_decl (ps : List VarDecl) :
    Stmt.eventsOf (ps.map .decl) = ps.flatMap VarDecl.events := by
  induction ps with
  | nil => rfl
  | cons p ps ih => simp [Stmt.eventsOf, Stmt.events, ih]

lemma ElaboratesDecl.leads {c c' : Context} {x : Decl} (h : ElaboratesDecl c x c') :
    Leads c c' x.events := by
  cases h with
  | var hd => exact hd.leads
  | func _ hparams hbody =>
    have hall := (hparams.leads.append hbody.leads.enclosed).enclosed
    rwa [eventsOf_map_decl] at hall

lemma Resolved.leads {c : Context} {xs : List Decl} (h : Resolved c xs) :
    ∃ c', Leads c c' (xs.flatMap Decl.events) := by
  induction h with
  | nil c => exact ⟨c, .nil c⟩
  | cons hx _ ih =>
    obtain ⟨c', hrest⟩ := ih
    exact ⟨c', (elaborates_decl hx).leads.append hrest⟩

/-! ### Every identifier is met -/

section Met

variable {name : String} {ref : Ref}

lemma mem_enclosed {e : ScopeEvent} {es : List ScopeEvent} (h : e ∈ es) : e ∈ enclosed es :=
  List.mem_cons_of_mem _ (List.mem_append_left _ h)

lemma mention_mem_mentions {e : Expr} (h : .ident name ref ∈ e.parts) :
    .mention name ref ∈ e.mentions :=
  List.mem_filterMap.mpr ⟨_, h, rfl⟩

lemma mention_mem_events (s : Stmt) (h : .ident name ref ∈ s.exprs) :
    .mention name ref ∈ s.events := by
  induction s using Stmt.inductOn with
  | block ss ih =>
    rw [Stmt.exprs, Stmt.exprsOf_eq_flatMap] at h
    obtain ⟨s, hs, h⟩ := List.mem_flatMap.mp h
    rw [Stmt.events, Stmt.eventsOf_eq_flatMap]
    exact mem_enclosed (List.mem_flatMap.mpr ⟨s, hs, ih s hs h⟩)
  | decl d =>
    rw [Stmt.exprs] at h
    rw [Stmt.events]
    exact List.mem_append_left _ (mention_mem_mentions h)
  | expr x =>
    rw [Stmt.exprs] at h
    rw [Stmt.events]
    exact mention_mem_mentions h
  | returns value =>
    rw [Stmt.exprs] at h
    rw [Stmt.events]
    exact mention_mem_mentions h
  | ifElse cond yes no ihyes ihno =>
    rw [Stmt.exprs, List.mem_append, List.mem_append] at h
    rw [Stmt.events, List.mem_append, List.mem_append]
    exact h.imp (Or.imp mention_mem_mentions fun h => mem_enclosed (ihyes h))
      fun h => mem_enclosed (ihno h)
  | loop init cond post body ihinit ihbody =>
    simp only [Stmt.exprs, List.mem_append] at h
    rw [Stmt.events]
    apply mem_enclosed
    simp only [List.mem_append]
    exact h.imp (Or.imp (Or.imp ihinit mention_mem_mentions) mention_mem_mentions)
      fun h => mem_enclosed (ihbody h)
  | _ => simp [Stmt.exprs] at h

lemma mention_mem_eventsOf {ss : List Stmt} (h : .ident name ref ∈ Stmt.exprsOf ss) :
    .mention name ref ∈ Stmt.eventsOf ss := by
  rw [Stmt.exprsOf_eq_flatMap] at h
  obtain ⟨s, hs, h⟩ := List.mem_flatMap.mp h
  rw [Stmt.eventsOf_eq_flatMap]
  exact List.mem_flatMap.mpr ⟨s, hs, mention_mem_events s h⟩

lemma mention_mem_decl_events {x : Decl} (h : .ident name ref ∈ x.exprs) :
    .mention name ref ∈ x.events := by
  cases x with
  | absent => simp [Decl.exprs] at h
  | var d => exact List.mem_append_left _ (mention_mem_mentions h)
  | func g =>
    rw [Decl.exprs, FuncDef.exprs, ← exprsOf_map_decl, List.mem_append] at h
    apply mem_enclosed
    rw [← eventsOf_map_decl, List.mem_append]
    exact h.imp mention_mem_eventsOf fun h => mem_enclosed (mention_mem_eventsOf h)

end Met

/-! ### What an identifier stands for -/

/-- A name stands for a declaration in scope, or else for a stage input, or else for nothing. -/
lemma Scope.ref_cases (scope : Scope) (name : String) :
    (∃ v, scope.find? (fun v => v.name = name) = some v ∧ scope.ref name = .declared v) ∨
      scope.find? (fun v => v.name = name) = none ∧
        ((∃ i, StageInput.ofName? name = some i ∧ scope.ref name = .input i) ∨
          (StageInput.ofName? name = none ∧ scope.ref name = .unresolved)) := by
  unfold Scope.ref
  generalize scope.find? (fun v => v.name = name) = found
  rcases found with _ | v
  · rcases StageInput.ofName? name with _ | i
    · exact .inr ⟨rfl, .inr ⟨rfl, rfl⟩⟩
    · exact .inr ⟨rfl, .inl ⟨i, rfl, rfl⟩⟩
  · exact .inl ⟨v, rfl, rfl⟩

lemma Scope.ref_eq_declared {scope : Scope} {name : String} {v : Variable} :
    scope.ref name = .declared v ↔ scope.find? (fun v => v.name = name) = some v := by
  obtain ⟨w, hfind, href⟩ | ⟨hfind, ⟨i, -, href⟩ | ⟨-, href⟩⟩ := scope.ref_cases name <;>
    simp [hfind, href]

lemma Scope.ref_eq_input {scope : Scope} {name : String} {i : StageInput} :
    scope.ref name = .input i ↔
      StageInput.ofName? name = some i ∧ scope.find? (fun v => v.name = name) = none := by
  obtain ⟨w, hfind, href⟩ | ⟨hfind, ⟨j, hinput, href⟩ | ⟨hinput, href⟩⟩ := scope.ref_cases name
  · simp [hfind, href]
  · simp [hfind, hinput, href]
  · simp [hinput, href]

lemma Scope.ref_eq_unresolved {scope : Scope} {name : String} :
    scope.ref name = .unresolved ↔
      StageInput.ofName? name = none ∧ scope.find? (fun v => v.name = name) = none := by
  obtain ⟨w, hfind, href⟩ | ⟨hfind, ⟨j, hinput, href⟩ | ⟨hinput, href⟩⟩ := scope.ref_cases name
  · simp [hfind, href]
  · simp [hinput, href]
  · simp [hfind, hinput, href]

lemma isStageInput_ref {scope : Scope} {name : String} :
    isStageInput name (scope.ref name) = true ↔
      (StageInput.ofName? name).isSome = true ∧ scope.find? (fun v => v.name = name) = none := by
  obtain ⟨w, hfind, href⟩ | ⟨hfind, ⟨j, hinput, href⟩ | ⟨hinput, href⟩⟩ := scope.ref_cases name
  · simp [isStageInput, hfind, href]
  · simp [isStageInput, hfind, hinput, href]
  · simp [isStageInput, hinput, href]

/-- In a resolved shader the declared variables are numbered in their order, so that each of them
is one declaration, and every identifier is met along the events. An identifier stands for the
variable of the latest declaration of its name that is in scope where it stands; if there is none,
for the stage input of that name, and else for nothing. In particular it reads a stage input
exactly if its name is that of one and no declaration of the name is in scope. -/
theorem identifiers_bound_lexically {form : ShaderForm} {s : Shader} (h : shader form = .ok s) :
    (declaredBy s.events).map Variable.id = List.range (declaredBy s.events).length ∧
    (∀ name ref, .ident name ref ∈ s.decls.flatMap Decl.exprs → .mention name ref ∈ s.events) ∧
    ∀ before name ref after, s.events = before ++ .mention name ref :: after →
      (∀ v, ref = .declared v ↔ Binds before name v) ∧
      (∀ i, ref = .input i ↔
        StageInput.ofName? name = some i ∧ ∀ v, InScope before v → v.name ≠ name) ∧
      (ref = .unresolved ↔
        StageInput.ofName? name = none ∧ ∀ v, InScope before v → v.name ≠ name) ∧
      (isStageInput name ref = true ↔
        (StageInput.ofName? name).isSome = true ∧ ∀ v, InScope before v → v.name ≠ name) := by
  obtain ⟨c', hleads⟩ := (resolved_of_shader h).leads
  refine ⟨by rw [List.range_eq_range']; exact hleads.ids, fun name ref hmem => ?_,
    fun before name ref after hevents => ?_⟩
  · obtain ⟨x, hx, hmem⟩ := List.mem_flatMap.mp hmem
    exact List.mem_flatMap.mpr ⟨x, hx, mention_mem_decl_events hmem⟩
  have hrun := hleads.run []
  rw [← Shader.events, hevents] at hrun
  obtain ⟨stack, hbefore, hmention⟩ := hrun.split
  have hstart : Stacked [] [([] : Scope)] := ⟨rfl, trivial⟩
  have hstacked : Stacked before stack := hbefore.stacked hstart
  rcases hmention with _ | ⟨⟨⟩, -⟩
  obtain ⟨rfl, -⟩ := hstacked
  rw [← find?_visible_eq_none]
  refine ⟨fun v => ?_, fun i => ?_, ?_, ?_⟩
  · rw [← find?_visible_eq_some]
    exact Scope.ref_eq_declared
  · exact Scope.ref_eq_input
  · exact Scope.ref_eq_unresolved
  · exact isStageInput_ref

def mentionX : ExprForm := .scalar (.string "x")

def declareX (init : ExprForm) : VarForm := { name := "x", type := "float", init := some init }

/-- A shader that declares `x` outside all functions, as a parameter with the outer `x` for its
initial value, at the start of a loop with the parameter for its initial value, and in the body of
the loop, where a call takes that of the loop. -/
def nested : ShaderForm where
  name := "Nested"
  decls := [
    { var := some { name := "x", type := "float" } },
    { func := some {
        name := "f"
        returns := "float"
        params := [declareX mentionX]
        body := [
          .kinds [.loop (some (.kinds [.var (declareX mentionX)]))
            (some (.kinds [.binary "<" (some mentionX) (some (.kinds [.lit "4.0"]))]))
            (some (.kinds [.assign "+=" (some mentionX) (some (.kinds [.lit "1.0"]))]))
            [.kinds [.var (declareX (.kinds [.call "f" [mentionX]]))],
              .kinds [.expr mentionX]]],
          .kinds [.returns mentionX]] } }]

def nestedX (id : Nat) : Variable := { id := id, name := "x", type := .float }

/-- In the call `x` is that of the loop, since that of its body is only declared behind the call.
Behind the loop `x` is the parameter: the outer `x` is in scope as well but was declared before it,
and those of the loop were declared later but are not in scope. -/
theorem identifiers_bound_in_nested :
    ∃ s inside between after, shader nested = .ok s ∧
      s.events = (inside ++ .mention "x" (.declared (nestedX 2)) :: between) ++
        .mention "x" (.declared (nestedX 1)) :: after ∧
      Binds inside "x" (nestedX 2) ∧
      Binds (inside ++ .mention "x" (.declared (nestedX 2)) :: between) "x" (nestedX 1) ∧
      InScope (inside ++ .mention "x" (.declared (nestedX 2)) :: between) (nestedX 0) ∧
      ∀ v ∈ [nestedX 2, nestedX 3], .declare v ∈ inside ++ between ∧
        ¬ InScope (inside ++ .mention "x" (.declared (nestedX 2)) :: between) v := by
  let inside : List ScopeEvent := [.declare (nestedX 0), .enter,
    .mention "x" (.declared (nestedX 0)), .declare (nestedX 1), .enter,
    .enter, .mention "x" (.declared (nestedX 1)), .declare (nestedX 2),
    .mention "x" (.declared (nestedX 2)), .mention "x" (.declared (nestedX 2)), .enter, .enter]
  let between : List ScopeEvent := [.declare (nestedX 3), .mention "x" (.declared (nestedX 3)),
    .leave, .leave, .leave]
  have hmap : (shader nested).map Shader.events =
      .ok ((inside ++ .mention "x" (.declared (nestedX 2)) :: between) ++
        .mention "x" (.declared (nestedX 1)) :: [.leave, .leave]) := by decide +kernel
  rcases hs : shader nested with e | s
  · rw [hs] at hmap
    cases hmap
  · rw [hs] at hmap
    have hevents := Except.ok.inj hmap
    have hbound := (identifiers_bound_lexically hs).2.2
    refine ⟨s, inside, between, _, rfl, hevents, ?_, ?_, mem_visible.mp (by decide), fun v hv => ?_⟩
    · rw [List.append_assoc, List.cons_append] at hevents
      exact ((hbound _ _ _ _ hevents).1 _).mp rfl
    · exact ((hbound _ _ _ _ hevents).1 _).mp rfl
    · have hall : ∀ v ∈ [nestedX 2, nestedX 3], ScopeEvent.declare v ∈ inside ++ between ∧
          v ∉ visible (inside ++ .mention "x" (.declared (nestedX 2)) :: between) := by decide
      exact ⟨(hall v hv).1, fun h => (hall v hv).2 (mem_visible.mpr h)⟩

end Shaderwright.Source
