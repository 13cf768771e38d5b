import Mathlib.Tactic.Common
import Shaderwright.Emit.Names
import Shaderwright.Emit.Shader
import Shaderwright.Proofs.Emit.Discipline
import Shaderwright.Proofs.Emit.Mirror
import Shaderwright.Proofs.Emit.NameTable
import Shaderwright.Proofs.Msl.DirectNames
import Shaderwright.Proofs.Shader.Renamed
import Shaderwright.Proofs.Shader.Respelling

/-!
Writing and renaming a variable can be done in either order. If nothing else is called like a
variable, then the text of a tree in which the variable has a new name is the text of the tree with
the old name replaced by the new one, wherever it stands as a word and not behind a dot.
-/

namespace Shaderwright

open Msl (Rewording isIdentifier isPunctuation plainText endsApart_append
  endsApart_of_isPunctuation isWord_of_isIdentifier)

variable {σ α : Type}

/-! ### Trees in which a variable can be told apart -/

/-- An expression, apart from its parts, in which the name of a variable stands for nothing but this
variable. -/
def Expr.ClearOf (v : Variable) : Expr → Prop
  | .ident name ref => isIdentifier name = true ∧ (name = v.name ↔ ref = .declared v)
  | .literal text _ => plainText [v.name] text = true
  | .call callee _ => isIdentifier callee = true ∧ callee ≠ v.name
  | .binary op _ _ => isPunctuation op = true
  | .unary op _ => isPunctuation op = true
  | .assign op _ _ => isPunctuation op = true
  | .member _ field => isIdentifier field = true
  | _ => True

def Variable.ClearOf (v u : Variable) : Prop :=
  isIdentifier u.name = true ∧ (u.name = v.name → u = v)

lemma Expr.self_mem_parts (e : Expr) : e ∈ e.parts := by
  cases e <;> simp [Expr.parts]

namespace Msl.Rewording

variable {ρ : Rewording} {v : Variable}

def newName (ρ : Rewording) (v : Variable) : NewName := ⟨v, ρ.new v.name⟩

lemma fixes_other (h : ρ.old = [v.name]) {name : String} (hname : isIdentifier name = true)
    (hne : name ≠ v.name) : ρ.Fixes name :=
  fixes_word (isWord_of_isIdentifier hname).word (by simpa [h] using hne)

lemma renames_newName (h : ρ.old = [v.name]) : ρ.Renames v.name (ρ.newName v).name := by
  have hmem : v.name ∈ ρ.old := by simp [h]
  rw [Renames, ρ.text_word (isWord_of_isIdentifier (ρ.identifiers _ hmem)).word, if_pos hmem]
  rfl

/-- An identifier that refers to the variable just if it is called like it. -/
lemma renames_spell (h : ρ.old = [v.name]) {name : String} {ref : Ref}
    (hclear : (Expr.ident name ref).ClearOf v) :
    name = v.name ∧ (ρ.newName v).spell name ref = (ρ.newName v).name ∨
      ρ.Fixes name ∧ (ρ.newName v).spell name ref = name := by
  obtain ⟨hname, hiff⟩ := hclear
  by_cases heq : name = v.name
  · exact .inl ⟨heq, if_pos (hiff.mp heq)⟩
  · exact .inr ⟨fixes_other h hname heq, if_neg fun href => heq (hiff.mpr href)⟩

end Msl.Rewording

/-- A writer that has no old name stored for later. -/
structure Msl.Rewording.Apart (ρ : Rewording) (T : σ → Prop) (w : Writer σ) : Prop where
  own : T w.own
  accumulator : ρ.Fixes w.accumulator
  markName : ρ.Fixes w.entry.accumulator
  markInit : ρ.Fixes w.entry.init

/-- A renaming that does not concern the state of the language. -/
def Msl.Rewording.mirror (ρ : Rewording) (T : σ → Prop) : Mirror σ where
  names := ρ
  own := id
  settled := ρ.Apart T
  elsewhere _ _ _ _ hw := ⟨hw.own, hw.accumulator, hw.markName, hw.markInit⟩

/-! ### Expressions -/

/-- What a language needs so that its expressions can be renamed; `P` is what it asks of them. -/
structure ExprDialect.Equivariant (ρ : Rewording) (T : σ → Prop) (v : Variable) (P : Expr → Prop)
    (d : ExprDialect σ) : Prop where
  only : ρ.old = [v.name]
  clear : ∀ e, P e → e.ClearOf v
  types : d.types.miss = .absent ∧ ∀ e ∈ d.types.entries, ρ.Fixes e.2
  qualifiers : d.qualifiers.miss = .absent ∧ ∀ e ∈ d.qualifiers.entries, ρ.Fixes e.2
  values : ∀ own, T own → ∀ e ∈ (d.variableNames own).entries, ρ.Fixes e.2
  old : ∀ own, T own → (d.variableNames own).get v.name = v.name
  new : ∀ own, T own → (d.variableNames own).get (ρ.newName v).name = (ρ.newName v).name
  call : ∀ callee args, P (.call callee args) → (∀ e ∈ Expr.partsOf args, P e) →
    (∀ e ∈ Expr.partsOf args, Emit.Mirrors (ρ.mirror T) true false Eq (d.expr e)
      (d.expr (e.rename (ρ.newName v)))) →
    Emit.Mirrors (ρ.mirror T) true false Eq (d.call callee (args.map d.operand))
      (d.call callee ((args.map (Expr.rename (ρ.newName v))).map d.operand))

namespace ExprDialect

variable {ρ : Rewording} {T : σ → Prop} {v : Variable} {P : Expr → Prop} {d : ExprDialect σ}
  {before after : Bool}

open Emit (Mirrors)
open Emit.Mirrors

lemma mirrors_mapped {M : Mirror σ} {t : NameTable}
    (ht : t.miss = .absent ∧ ∀ e ∈ t.entries, M.names.Fixes e.2) (key : String) :
    Mirrors M before before M.names.Kept (mapped t key) (mapped t key) := by
  unfold mapped NameTable.get?
  rcases h : t.entries.lookup key with _ | value
  · simp only [ht.1]
    exact .throw _ _
  · exact .pure ⟨rfl, ht.2 (key, value) (NameTable.mem_of_lookup h)⟩

lemma mirrors_operator {M : Mirror σ} {op : String} (h : isPunctuation op = true) :
    Mirrors M before after Eq (Emit.write (" " ++ op ++ " ")) (Emit.write (" " ++ op ++ " ")) := by
  refine mark ?_ (by simp)
  simp only [isPunctuation, String.toList_append, List.all_append, Bool.and_eq_true] at h ⊢
  exact ⟨⟨by decide, h⟩, by decide⟩

lemma mirrors_callNamed {M : Mirror σ} {name : String} (hname : M.names.Fixes name)
    {steps steps' : List (Operand σ)}
    (h : List.Forall₂ (fun o o' => Mirrors M true false Eq o.write o'.write) steps steps') :
    Mirrors M true false Eq (callNamed name steps) (callNamed name steps') := by
  refine (opening (hname.closed (by decide)) (endsApart_append (by decide) (by simp))).seq
    (.seq (separated ?_) (mark (by decide) (by simp)))
  rwa [List.forall₂_map_left_iff, List.forall₂_map_right_iff]

/-- The arguments of a call and the same arguments renamed. -/
lemma forall₂_operands {M : Mirror σ} {r : NewName} {args : List Expr}
    (h : ∀ e ∈ Expr.partsOf args, Mirrors M true false Eq (d.expr e) (d.expr (e.rename r))) :
    List.Forall₂ (fun o o' => Mirrors M true false Eq o.write o'.write) (args.map d.operand)
      ((args.map (Expr.rename r)).map d.operand) := by
  rw [List.forall₂_map_left_iff, List.forall₂_map_right_iff, List.forall₂_map_right_iff,
    List.forall₂_same]
  intro e he
  refine h e ?_
  rw [Expr.partsOf_eq_flatMap]
  exact List.mem_flatMap.mpr ⟨e, he, e.self_mem_parts⟩

namespace Equivariant

lemma variableName (hd : d.Equivariant ρ T v P) {name : String} (h : ρ.Fixes name) :
    Mirrors (ρ.mirror T) before before ρ.Kept (d.variableName name) (d.variableName name) :=
  .get fun _ hw => .pure ⟨rfl, Rewording.fixes_get (hd.values _ hw.own) h⟩

lemma renamedName (hd : d.Equivariant ρ T v P) :
    Mirrors (ρ.mirror T) before before ρ.Renames (d.variableName v.name)
      (d.variableName (ρ.newName v).name) := by
  refine .get fun w hw => .pure ?_
  show ρ.Renames ((d.variableNames w.own).get _) ((d.variableNames w.own).get _)
  rw [hd.old _ hw.own, hd.new _ hw.own]
  exact Rewording.renames_newName hd.only

lemma declaredName (hd : d.Equivariant ρ T v P) {u : Variable} (hu : v.ClearOf u) :
    Mirrors (ρ.mirror T) before before ρ.Renames (d.variableName u.name)
      (d.variableName (u.rename (ρ.newName v)).name) := by
  by_cases huv : u = v
  · subst huv
    rw [show u.rename (ρ.newName u) = _ from Variable.rename_self (ρ.newName u)]
    exact hd.renamedName
  · have hfix := Rewording.fixes_other hd.only hu.1 fun h => huv (hu.2 h)
    rw [Variable.rename_of_ne huv]
    exact .get fun w hw => .pure (Rewording.fixes_get (hd.values _ hw.own) hfix)

/-- The name in an identifier. -/
lemma spelledName (hd : d.Equivariant ρ T v P) {name : String} {ref : Ref}
    (h : (Expr.ident name ref).ClearOf v) :
    Mirrors (ρ.mirror T) before before ρ.Renames (d.variableName name)
      (d.variableName ((ρ.newName v).spell name ref)) := by
  rcases Rewording.renames_spell hd.only h with ⟨rfl, hspell⟩ | ⟨hfix, hspell⟩
  · rw [hspell]
    exact hd.renamedName
  · rw [hspell]
    exact .get fun w hw => .pure (Rewording.fixes_get (hd.values _ hw.own) hfix)

lemma parts (hd : d.Equivariant ρ T v P) {e : Expr} (he : ∀ p ∈ e.parts, P p) :
    ∀ p ∈ e.parts, Mirrors (ρ.mirror T) true false Eq (d.expr p)
      (d.expr (p.rename (ρ.newName v))) := by
  induction e using Expr.inductOn with
  | absent =>
    simp only [Expr.parts, List.forall_mem_singleton]
    rw [ExprDialect.expr]
    exact .throw _ _
  | ident name ref =>
    simp only [Expr.parts, List.forall_mem_singleton] at he ⊢
    have hname : Mirrors (ρ.mirror T) true false Eq (do Emit.write (← d.variableName name))
        (do Emit.write (← d.variableName ((ρ.newName v).spell name ref))) :=
      (hd.spelledName (hd.clear _ he)).bind fun a a' ha => word ha
    rw [Expr.rename, ExprDialect.expr, ExprDialect.expr]
    refine .get fun w _ => ?_
    rw [isStageInput_rename, Mirror.image_function]
    dsimp only
    split
    · exact .throw_bind _ _ _
    · exact hname
  | literal text kind =>
    simp only [Expr.parts, List.forall_mem_singleton] at he ⊢
    rw [Expr.rename, ExprDialect.expr]
    have htext : plainText ρ.old text = true := hd.only ▸ hd.clear _ he
    exact word (Rewording.fixes_plainText htext)
  | call callee args ih =>
    rw [Expr.parts, List.forall_mem_cons] at he ⊢
    have hargs : ∀ p ∈ Expr.partsOf args, Mirrors (ρ.mirror T) true false Eq (d.expr p)
        (d.expr (p.rename (ρ.newName v))) := by
      intro p hp
      rw [Expr.partsOf_eq_flatMap] at he hp
      obtain ⟨arg, harg, hp⟩ := List.mem_flatMap.mp hp
      exact ih arg harg (fun q hq => he.2 q (List.mem_flatMap.mpr ⟨arg, harg, hq⟩)) p hp
    refine ⟨?_, hargs⟩
    rw [Expr.rename, ExprDialect.expr, ExprDialect.expr, operands_eq_map, operands_eq_map,
      Expr.renameAll_eq_map]
    exact hd.call callee args he.1 he.2 hargs
  | binary op x y hx hy =>
    rw [Expr.parts, List.forall_mem_cons, List.forall_mem_append] at he ⊢
    obtain ⟨hself, hpx, hpy⟩ := he
    refine ⟨?_, hx hpx, hy hpy⟩
    rw [Expr.rename, ExprDialect.expr, ExprDialect.expr]
    exact (mark (by decide) (by simp)).seq ((hx hpx _ x.self_mem_parts).seq
      ((mirrors_operator (hd.clear _ hself)).seq ((hy hpy _ y.self_mem_parts).seq
      (mark (by decide) (by simp)))))
  | unary op x hx =>
    rw [Expr.parts, List.forall_mem_cons] at he ⊢
    have hop : isPunctuation op = true := hd.clear _ he.1
    refine ⟨?_, hx he.2⟩
    rw [Expr.rename, ExprDialect.expr, ExprDialect.expr]
    exact (opening (Rewording.fixes_of_isPunctuation hop) (endsApart_of_isPunctuation hop)).seq
      (hx he.2 _ x.self_mem_parts)
  | assign op lhs rhs hl hr =>
    rw [Expr.parts, List.forall_mem_cons, List.forall_mem_append] at he ⊢
    obtain ⟨hself, hpl, hpr⟩ := he
    refine ⟨?_, hl hpl, hr hpr⟩
    rw [Expr.rename, ExprDialect.expr, ExprDialect.expr]
    exact (hl hpl _ lhs.self_mem_parts).seq ((mirrors_operator (hd.clear _ hself)).seq
      (hr hpr _ rhs.self_mem_parts))
  | member x field hx =>
    rw [Expr.parts, List.forall_mem_cons] at he ⊢
    have hfield : isIdentifier field = true := hd.clear _ he.1
    refine ⟨?_, hx he.2⟩
    rw [Expr.rename, ExprDialect.expr, ExprDialect.expr]
    exact (hx he.2 _ x.self_mem_parts).seq (write (Rewording.fixes_member hfield)
      (.inr (Rewording.startsApart_member field)) (by simp))
  | index x i hx hi =>
    rw [Expr.parts, List.forall_mem_cons, List.forall_mem_append] at he ⊢
    obtain ⟨-, hpx, hpi⟩ := he
    refine ⟨?_, hx hpx, hi hpi⟩
    rw [Expr.rename, ExprDialect.expr, ExprDialect.expr]
    exact (hx hpx _ x.self_mem_parts).seq ((mark (by decide) (by simp)).seq
      ((hi hpi _ i.self_mem_parts).seq (mark (by decide) (by simp))))

lemma expr (hd : d.Equivariant ρ T v P) {e : Expr} (he : ∀ p ∈ e.parts, P p) :
    Mirrors (ρ.mirror T) true false Eq (d.expr e) (d.expr (e.rename (ρ.newName v))) :=
  hd.parts he e e.self_mem_parts

lemma exprText (hd : d.Equivariant ρ T v P) {e : Expr} (he : ∀ p ∈ e.parts, P p) :
    Mirrors (ρ.mirror T) before before ρ.Renames (d.exprText e)
      (d.exprText (e.rename (ρ.newName v))) :=
  (hd.expr he).captured

/-! ### Variables -/

lemma typeName (hd : d.Equivariant ρ T v P) (t : ShaderType) :
    Mirrors (ρ.mirror T) before before ρ.Kept (d.typeName t) (d.typeName t) :=
  mirrors_mapped (M := ρ.mirror T) hd.types t.name

lemma qualifier (hd : d.Equivariant ρ T v P) (key : String) :
    Mirrors (ρ.mirror T) before before ρ.Kept (d.qualifier key) (d.qualifier key) :=
  mirrors_mapped (M := ρ.mirror T) hd.qualifiers key

variable {x : VarDecl}

lemma varDeclText (hd : d.Equivariant ρ T v P) (hx : v.ClearOf x.var)
    (hinit : ∀ p ∈ x.init.parts, P p) :
    Mirrors (ρ.mirror T) before before ρ.Renames (d.varDeclText x)
      (d.varDeclText (x.rename (ρ.newName v))) := by
  unfold ExprDialect.varDeclText VarDecl.rename
  simp only [Variable.type_rename, Variable.qualifier_rename, Variable.extent_rename,
    Expr.isAbsent_rename]
  refine (hd.typeName _).bind fun type type' htype => (hd.qualifier _).bind fun q q' hq =>
    (hd.declaredName hx).bind fun name name' hname => ?_
  obtain ⟨rfl, htype⟩ := htype
  obtain ⟨rfl, hq⟩ := hq
  have hhead : ρ.Renames ((if q' = "" then "" else q' ++ " ") ++ type' ++ " " ++ name ++
      x.var.extent) ((if q' = "" then "" else q' ++ " ") ++ type' ++ " " ++ name' ++
      x.var.extent) := by
    refine .append_of_starts (.joined ?_ hname (by decide) (by simp)) (Rewording.fixes_extent _)
      (Rewording.startsApart_extent _)
    split
    · rwa [String.empty_append]
    · exact hq.joined htype (by decide) (by simp)
  split
  · exact .pure hhead
  · exact (hd.exprText hinit).bind fun value value' hvalue =>
      .pure (hhead.joined hvalue (by decide) (by simp))

lemma varDecl (hd : d.Equivariant ρ T v P) (hx : v.ClearOf x.var)
    (hinit : ∀ p ∈ x.init.parts, P p) :
    Mirrors (ρ.mirror T) true true Eq (d.varDecl x) (d.varDecl (x.rename (ρ.newName v))) :=
  (hd.varDeclText hx hinit).bind fun _ _ ht => writeLine (ht.closed (by decide))

lemma defineConstant (hd : d.Equivariant ρ T v P) (hx : v.ClearOf x.var)
    (hinit : ∀ p ∈ x.init.parts, P p) :
    Mirrors (ρ.mirror T) true true Eq (d.defineConstant x)
      (d.defineConstant (x.rename (ρ.newName v))) := by
  unfold ExprDialect.defineConstant VarDecl.rename
  simp only [Variable.qualifier_rename, Expr.isAbsent_rename]
  split
  · exact .throw_bind _ _ _
  · refine (hd.qualifier _).bind fun q q' hq => (hd.exprText hinit).bind fun value value' hvalue =>
      (hd.declaredName hx).bind fun name name' hname => writeLine ?_
    have hhead : ρ.Renames (q ++ " " ++ name) (q' ++ " " ++ name') :=
      hq.renames.joined hname (by decide) (by simp)
    exact (hhead.joined hvalue (by decide) (by simp)).closed (by decide)

/-! ### Blocks -/

lemma compound (hd : d.Equivariant ρ T v P) (hreturn : ρ.Fixes "return ") {body body' : Emit σ Unit}
    (hbody : Mirrors (ρ.mirror T) true true Eq body body') :
    Mirrors (ρ.mirror T) before after Eq (d.compound body) (d.compound body') := by
  have hempty : ρ.Fixes "" := Rewording.fixes_of_isPunctuation (by decide)
  unfold ExprDialect.compound
  refine .get fun w hw => .seq (.change (fun u hu => ⟨hu.own, hu.accumulator, hu.markName,
    hu.markInit⟩) (fun _ => rfl) fun _ => rfl) ?_
  rw [Mirror.image_entry]
  split
  · rw [entryBody_eq, entryBody_eq]
    refine .braces (.seq (.writeLine hw.markInit)
      (.seq (?_ : Mirrors (ρ.mirror T) true true Eq _ _) ?_))
    · refine .seq (.change (fun u hu => ⟨hu.own, hw.markName, hu.markName, hu.markInit⟩)
        (fun _ => rfl) fun _ => rfl) ?_
      exact hbody.andThen (fun u hu => ⟨hu.own, hempty, hu.markName, hu.markInit⟩)
        (fun _ => rfl) fun _ => rfl
    · refine (hd.variableName hw.markName).bind fun acc acc' hacc => .writeLine ?_
      exact (hreturn.append_of_ends hacc.renames (by decide)).closed (by decide)
  · exact hbody.braces

end Equivariant

end ExprDialect

/-! ### Statements -/

/-- The words of the statements, with what separates them. -/
def statementTexts : List String :=
  ["return ", "return;\n", "if (", " else ", "for (", "break;", "continue;"]

/-- The same of a language with its statements; `Q` is what it asks of variables. -/
structure StmtDialect.Equivariant (ρ : Rewording) (T : σ → Prop) (v : Variable) (P : Expr → Prop)
    (Q : Variable → Prop) (d : StmtDialect σ) : Prop
    extends ExprDialect.Equivariant ρ T v P d.toExprDialect where
  clearVar : ∀ u, Q u → v.ClearOf u
  texts : ∀ t ∈ d.discard :: statementTexts, ρ.Fixes t
  declare : ∀ x : VarDecl, Q x.var → (∀ p ∈ x.init.parts, P p) →
    Emit.Mirrors (ρ.mirror T) true true Eq (d.declare x) (d.declare (x.rename (ρ.newName v)))

namespace StmtDialect

variable {ρ : Rewording} {T : σ → Prop} {v : Variable} {P : Expr → Prop} {Q : Variable → Prop}
  {d : StmtDialect σ} {before after : Bool}

open Emit (Mirrors)
open Emit.Mirrors

lemma mirrors_stmts {M : Mirror σ} {r : NewName} {ss : List Stmt}
    (h : ∀ s ∈ ss, Mirrors M true true Eq (d.stmt s) (d.stmt (s.rename r))) :
    Mirrors M true true Eq (d.stmts ss) (d.stmts (ss.map (Stmt.rename r))) := by
  induction ss with
  | nil =>
    rw [List.map_nil, stmts]
    exact .pure rfl
  | cons s ss ih =>
    rw [List.map_cons, stmts, stmts]
    exact (h s List.mem_cons_self).seq (ih fun s' hs' => h s' (List.mem_cons_of_mem _ hs'))

namespace Equivariant

lemma loopStart (hd : d.Equivariant ρ T v P Q) {s : Stmt} (hs : ∀ p ∈ s.exprs, P p)
    (hvars : ∀ u ∈ s.variables, Q u) :
    Mirrors (ρ.mirror T) true false Eq (d.loopStart s)
      (d.loopStart (s.rename (ρ.newName v))) := by
  cases s with
  | absent =>
    exact (Mirrors.pure rfl : Mirrors (ρ.mirror T) true true Eq _ _).weaken (by simp)
  | decl x =>
    rw [Stmt.rename]
    exact (hd.varDeclText (hd.clearVar _ (hvars _ (by simp [Stmt.variables]))) hs).bind
      fun t t' ht => word ht
  | expr x =>
    rw [Stmt.rename]
    exact hd.expr hs
  | _ => exact .throw _ _

lemma optional (hd : d.Equivariant ρ T v P Q) {e : Expr} (he : ∀ p ∈ e.parts, P p) :
    Mirrors (ρ.mirror T) true false Eq (d.optional e)
      (d.optional (e.rename (ρ.newName v))) := by
  unfold StmtDialect.optional
  rw [Expr.isAbsent_rename]
  split
  · exact (Mirrors.pure rfl : Mirrors (ρ.mirror T) true true Eq _ _).weaken (by simp)
  · exact hd.expr he

/-- A statement can be renamed, also where it is a branch. -/
lemma stmt_branch (hd : d.Equivariant ρ T v P Q) {s : Stmt} (hs : ∀ p ∈ s.exprs, P p)
    (hvars : ∀ u ∈ s.variables, Q u) :
    Mirrors (ρ.mirror T) true true Eq (d.stmt s) (d.stmt (s.rename (ρ.newName v))) ∧
      Mirrors (ρ.mirror T) true true Eq (d.branch s) (d.branch (s.rename (ρ.newName v))) := by
  -- a branch that is no block is the statement in braces
  have hsingle : ∀ {s s' : Stmt}, d.branch s = Emit.braces (d.stmt s) →
      d.branch s' = Emit.braces (d.stmt s') →
      Mirrors (ρ.mirror T) true true Eq (d.stmt s) (d.stmt s') →
      Mirrors (ρ.mirror T) true true Eq (d.stmt s) (d.stmt s') ∧
        Mirrors (ρ.mirror T) true true Eq (d.branch s) (d.branch s') := by
    intro s s' hbranch hbranch' hs
    rw [hbranch, hbranch']
    exact ⟨hs, hs.braces⟩
  have hreturn : ρ.Fixes "return " := hd.texts _ (by simp [statementTexts])
  induction s using Stmt.inductOn with
  | absent =>
    rw [Stmt.rename]
    refine hsingle rfl rfl ?_
    rw [stmt]
    exact .throw _ _
  | block ss ih =>
    rw [Stmt.exprs, Stmt.exprsOf_eq_flatMap] at hs
    rw [Stmt.variables, Stmt.variablesOf_eq_flatMap] at hvars
    have hss : ∀ {before after : Bool}, Mirrors (ρ.mirror T) before after Eq
        (d.compound (d.stmts ss)) (d.compound (d.stmts (ss.map (Stmt.rename (ρ.newName v))))) := by
      refine hd.compound hreturn (mirrors_stmts fun s hmem => (ih s hmem ?_ ?_).1)
      · exact fun p hp => hs p (List.mem_flatMap.mpr ⟨s, hmem, hp⟩)
      · exact fun u hu => hvars u (List.mem_flatMap.mpr ⟨s, hmem, hu⟩)
    rw [Stmt.rename, Stmt.renameAll_eq_map]
    constructor
    · rw [stmt, stmt]
      exact writeIndent.seq (.seq (hss : Mirrors (ρ.mirror T) true true Eq _ _)
        (mark (by decide) (by simp)))
    · rw [branch, branch, contents, contents]
      exact hss
  | decl x =>
    rw [Stmt.rename]
    refine hsingle rfl rfl ?_
    rw [stmt, stmt]
    exact hd.declare x (hvars _ (by simp [Stmt.variables])) hs
  | expr x =>
    rw [Stmt.rename]
    refine hsingle rfl rfl ?_
    rw [stmt, stmt]
    exact writeIndent.seq ((hd.expr hs).seq (mark (by decide) (by simp)))
  | returns value =>
    rw [Stmt.rename]
    refine hsingle rfl rfl ?_
    rw [stmt, stmt, Expr.isAbsent_rename]
    refine writeIndent.seq ?_
    split
    · refine .get fun w hw => ?_
      rw [Mirror.image_accumulator]
      dsimp only
      split
      · exact opening (hd.texts _ (by simp [statementTexts])) (by decide)
      · refine (hd.variableName hw.accumulator).bind fun acc acc' hacc => opening
          ((hreturn.append_of_ends hacc.renames (by decide)).closed (by decide))
          (endsApart_append (by decide) (by simp))
    · exact .seq (opening hreturn (by decide)) ((hd.expr hs).seq (mark (by decide) (by simp)))
  | ifElse cond yes no hyes hno =>
    rw [Stmt.exprs, List.forall_mem_append, List.forall_mem_append] at hs
    rw [Stmt.variables, List.forall_mem_append] at hvars
    have hyes := (hyes hs.1.2 hvars.1).2
    have hno := (hno hs.2 hvars.2).2
    rw [Stmt.rename]
    refine hsingle rfl rfl ?_
    rw [stmt, stmt, Stmt.isAbsent_rename]
    refine writeIndent.seq (.seq (opening (hd.texts _ (by simp [statementTexts])) (by decide))
      ((hd.expr hs.1.1).seq (.seq (mark (by decide) (by simp)) (hyes.seq ?_))))
    dsimp only
    split
    · exact mark (by decide) (by simp)
    · exact .seq (opening (hd.texts _ (by simp [statementTexts])) (by decide))
        (hno.seq (mark (by decide) (by simp)))
  | loop init cond post body _ hbody =>
    simp only [Stmt.exprs, List.forall_mem_append] at hs
    rw [Stmt.variables, List.forall_mem_append] at hvars
    obtain ⟨⟨⟨hinit, hcond⟩, hpost⟩, hsbody⟩ := hs
    rw [Stmt.rename]
    refine hsingle rfl rfl ?_
    rw [stmt, stmt]
    exact writeIndent.seq (.seq (opening (hd.texts _ (by simp [statementTexts])) (by decide))
      ((hd.loopStart hinit hvars.1).seq (.seq (mark (by decide) (by simp))
      ((hd.optional hcond).seq (.seq (mark (by decide) (by simp))
      ((hd.optional hpost).seq (.seq (mark (by decide) (by simp))
      ((hbody hsbody hvars.2).2.seq (mark (by decide) (by simp))))))))))
  | discard =>
    rw [Stmt.rename]
    refine hsingle rfl rfl ?_
    rw [stmt]
    exact writeLine (hd.texts _ (by simp))
  | breakLoop =>
    rw [Stmt.rename]
    refine hsingle rfl rfl ?_
    rw [stmt]
    exact writeLine (hd.texts _ (by simp [statementTexts]))
  | continueLoop =>
    rw [Stmt.rename]
    refine hsingle rfl rfl ?_
    rw [stmt]
    exact writeLine (hd.texts _ (by simp [statementTexts]))

lemma funcWithSignature (hd : d.Equivariant ρ T v P Q) {signature signature' : String}
    (hsignature : ρ.Renames signature signature') {g : FuncDef}
    (hg : ∀ p ∈ Stmt.exprsOf g.body, P p) (hvars : ∀ u ∈ Stmt.variablesOf g.body, Q u) :
    Mirrors (ρ.mirror T) true true Eq (d.funcWithSignature signature g)
      (d.funcWithSignature signature' (g.rename (ρ.newName v))) := by
  rw [Stmt.exprsOf_eq_flatMap] at hg
  rw [Stmt.variablesOf_eq_flatMap] at hvars
  refine writeIndent.seq (.seq (opening (hsignature.closed (by decide))
    (endsApart_append (by decide) (by simp)))
    (.seq (?_ : Mirrors (ρ.mirror T) true true Eq _ _) (mark (by decide) (by simp))))
  refine hd.compound (hd.texts _ (by simp [statementTexts]))
    (mirrors_stmts fun s hs => (hd.stmt_branch ?_ ?_).1)
  · exact fun p hp => hg p (List.mem_flatMap.mpr ⟨s, hs, hp⟩)
  · exact fun u hu => hvars u (List.mem_flatMap.mpr ⟨s, hs, hu⟩)

end Equivariant

end StmtDialect

/-! ### Declarations -/

/-- A declaration in which a variable can be renamed, as far as this goes for all languages: the
variable is no parameter of a function, and no function is called like it. -/
structure Decl.ClearOf (v : Variable) (P : Expr → Prop) (Q : Variable → Prop) (x : Decl) :
    Prop where
  vars : ∀ u ∈ x.variables, Q u
  exprs : ∀ e ∈ x.exprs, P e
  name : ∀ g, x = .func g → isIdentifier g.name = true ∧ g.name ≠ v.name
  params : ∀ g, x = .func g → ∀ p ∈ g.params, p.var ≠ v

namespace Decl.ClearOf

variable {v : Variable} {P : Expr → Prop} {Q : Variable → Prop} {g : FuncDef}

lemma body_exprs (hg : Decl.ClearOf v P Q (.func g)) : ∀ p ∈ Stmt.exprsOf g.body, P p :=
  fun p hp => hg.exprs p (List.mem_append_right _ hp)

lemma body_vars (hg : Decl.ClearOf v P Q (.func g)) : ∀ u ∈ Stmt.variablesOf g.body, Q u :=
  fun u hu => hg.vars u (List.mem_append_right _ hu)

lemma param_vars (hg : Decl.ClearOf v P Q (.func g)) : ∀ p ∈ g.params, Q p.var :=
  fun p hp => hg.vars p.var (List.mem_append_left _ (List.mem_map_of_mem hp))

/-- The accumulator is no variable that is renamed. -/
lemma fixes_accumulator {ρ : Rewording} (hg : Decl.ClearOf v P Q (.func g))
    (honly : ρ.old = [v.name]) (hQ : ∀ u, Q u → v.ClearOf u)
    (hdefault : ρ.Fixes defaultAccumulator) : ρ.Fixes g.accumulator := by
  unfold FuncDef.accumulator
  split
  · rename_i p hp
    have hmem := List.mem_of_find?_eq_some hp
    have hvar := hQ _ (hg.param_vars p hmem)
    exact Rewording.fixes_other honly hvar.1 fun h => hg.params g rfl p hmem (hvar.2 h)
  · exact hdefault

end Decl.ClearOf

/-- The same of a whole language. -/
structure Dialect.Equivariant (ρ : Rewording) (T : σ → Prop) (v : Variable) (P : Expr → Prop)
    (Q : Variable → Prop) (d : Dialect σ) : Prop
    extends statements : StmtDialect.Equivariant ρ T v P Q d.toStmtDialect where
  define : ∀ g, Decl.ClearOf v P Q (.func g) →
    Emit.Mirrors (ρ.mirror T) true true Eq (d.define g) (d.define (g.rename (ρ.newName v)))

namespace Dialect.Equivariant

variable {ρ : Rewording} {T : σ → Prop} {v : Variable} {P : Expr → Prop} {Q : Variable → Prop}
  {d : Dialect σ}

open Emit (Mirrors)
open Emit.Mirrors

lemma decl (hd : d.Equivariant ρ T v P Q) {x : Decl} (hx : x.ClearOf v P Q) :
    Mirrors (ρ.mirror T) true true Eq (d.decl x) (d.decl (x.rename (ρ.newName v))) := by
  cases x with
  | absent => exact .throw _ _
  | var x => exact hd.declare x (hx.vars _ (by simp [Decl.variables])) hx.exprs
  | func g =>
    refine .seq (.change (fun _ hu => ⟨hu.own, hu.accumulator, hu.markName, hu.markInit⟩)
      (fun _ => rfl) fun _ => rfl) ?_
    exact (hd.define g hx).andThen
      (fun _ hu => ⟨hu.own, hu.accumulator, hu.markName, hu.markInit⟩) (fun _ => rfl) fun _ => rfl

lemma decls (hd : d.Equivariant ρ T v P Q) {xs : List Decl} (hxs : ∀ x ∈ xs, x.ClearOf v P Q) :
    Mirrors (ρ.mirror T) true true Eq (d.decls xs)
      (d.decls (xs.map (Decl.rename (ρ.newName v)))) := by
  induction xs with
  | nil => exact .pure rfl
  | cons x xs ih =>
    rw [List.forall_mem_cons] at hxs
    exact .seq (hd.decl hxs.1) (ih hxs.2)

/-- Declarations in which the variable is renamed give the text in which its name is replaced, and
leave the same state behind. -/
lemma exec_decls (hd : d.Equivariant ρ T v P Q) {xs : List Decl} (hxs : ∀ x ∈ xs, x.ClearOf v P Q)
    {own : σ} (hown : T own) {w : Writer σ}
    (h : (d.decls xs).exec { own := own } = (.ok (), w)) :
    (d.decls (xs.map (Decl.rename (ρ.newName v)))).exec { own := own } =
      (.ok (), { w with out := ρ.text w.out }) := by
  have hempty : ρ.Fixes "" := Rewording.fixes_of_isPunctuation (by decide)
  have himage : (ρ.mirror T).image { own := own } = { own := own } := by
    simp only [Mirror.image, show (ρ.mirror T).names.text "" = "" from hempty]
    rfl
  obtain ⟨-, -, _, -, hw⟩ := hd.decls hxs { own := own } () w
    ⟨hown, hempty, hempty, hempty⟩ (fun _ => (by decide : Msl.endsApart "" = true)) h
  rw [himage] at hw
  exact hw

end Dialect.Equivariant

end Shaderwright
