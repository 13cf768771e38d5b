import Mathlib.Tactic.Common
import Shaderwright.Proofs.Shader.Respelling
import Shaderwright.Proofs.Source.Elaboration
import Shaderwright.Source.Read

/-!
What the resolution of names gives. An identifier stands for what its name meant before a part of
the shader, unless the part itself declares a variable of that name; and the variables that a part
declares have numbers of their own, between the counter before the part and the one behind it.
-/

namespace Shaderwright.Source

/-! ### Expressions -/

/-- Every identifier stands for what its name means in the scope. -/
def Refers (scope : Scope) (es : List Expr) : Prop :=
  ∀ name ref, .ident name ref ∈ es → ref = scope.ref name

namespace Refers

variable {scope : Scope} {es es' : List Expr}

lemma append (h : Refers scope es) (h' : Refers scope es') : Refers scope (es ++ es') :=
  fun name ref hmem => (List.mem_append.mp hmem).elim (h name ref) (h' name ref)

lemma cons {e : Expr} (he : ∀ name ref, e ≠ .ident name ref) (h : Refers scope es) :
    Refers scope (e :: es) := by
  intro name ref hmem
  rcases List.mem_cons.mp hmem with heq | hmem
  · exact absurd heq.symm (he name ref)
  · exact h name ref hmem

lemma nil : Refers scope [] := fun name ref hmem => by simp at hmem

end Refers

lemma Bound.refers {scope : Scope} {e : Expr} (h : Bound scope e) : Refers scope e.parts := by
  induction h with
  | ident name =>
    intro name' ref hmem
    obtain ⟨rfl, rfl⟩ : name' = name ∧ ref = scope.ref name := by simpa [Expr.parts] using hmem
    rfl
  | literal text kind => exact Refers.nil.cons (by simp)
  | call _ ih =>
    rw [Expr.parts, Expr.partsOf_eq_flatMap]
    refine Refers.cons (by simp) fun name ref hmem => ?_
    obtain ⟨arg, harg, hmem⟩ := List.mem_flatMap.mp hmem
    exact ih arg harg name ref hmem
  | binary _ _ ihx ihy =>
    rw [Expr.parts]
    exact (ihx.append ihy).cons (by simp)
  | unary _ ih =>
    rw [Expr.parts]
    exact ih.cons (by simp)
  | assign _ _ ihl ihr =>
    rw [Expr.parts]
    exact (ihl.append ihr).cons (by simp)
  | member _ ih =>
    rw [Expr.parts]
    exact ih.cons (by simp)
  | index _ _ ihx ihi =>
    rw [Expr.parts]
    exact (ihx.append ihi).cons (by simp)

lemma BoundIfAny.refers {scope : Scope} {e : Expr} (h : BoundIfAny scope e) :
    Refers scope e.parts := by
  rcases h with rfl | h
  · exact Refers.nil.cons (by simp)
  · exact h.refers

/-! ### Declarations -/

/-- What a name stands for behind some declarations: one of them, or what it stood for before. -/
def StandsFor (scope : Scope) (vs : List Variable) (name : String) (ref : Ref) : Prop :=
  ref = scope.ref name ∨ ∃ v ∈ vs, v.name = name ∧ ref = .declared v

/-- A part of a shader with these expressions and variables lies between two contexts. -/
structure Between (c c' : Context) (es : List Expr) (vs : List Variable) : Prop where
  counted : c.declared ≤ c'.declared
  numbered : ∀ v ∈ vs, c.declared ≤ v.id ∧ v.id < c'.declared
  named : ∀ v ∈ vs, v.name ≠ ""
  idents : ∀ name ref, .ident name ref ∈ es → StandsFor c.scope vs name ref
  scope : ∀ name, StandsFor c.scope vs name (c'.scope.ref name)

namespace Between

variable {c d e : Context} {es es' : List Expr} {vs vs' : List Variable}

lemma refl (c : Context) : Between c c [] [] where
  counted := Nat.le_refl _
  numbered v hv := by simp at hv
  named v hv := by simp at hv
  idents name ref hmem := by simp at hmem
  scope name := .inl rfl

lemma exprs (h : Refers c.scope es) : Between c c es [] :=
  { Between.refl c with idents := fun name ref hmem => .inl (h name ref hmem) }

lemma trans (h : Between c d es vs) (h' : Between d e es' vs') :
    Between c e (es ++ es') (vs ++ vs') := by
  -- what a name stands for between the two parts, it stands for from the first one on
  have hlater : ∀ name ref, StandsFor d.scope vs' name ref →
      StandsFor c.scope (vs ++ vs') name ref := by
    rintro name ref (rfl | ⟨v, hv, hname, href⟩)
    · rcases h.scope name with hold | ⟨v, hv, hname, href⟩
      · exact .inl hold
      · exact .inr ⟨v, List.mem_append_left _ hv, hname, href⟩
    · exact .inr ⟨v, List.mem_append_right _ hv, hname, href⟩
  refine ⟨Nat.le_trans h.counted h'.counted, fun v hv => ?_, fun v hv => ?_,
    fun name ref hmem => ?_, fun name => hlater name _ (h'.scope name)⟩
  · rcases List.mem_append.mp hv with hv | hv
    · exact ⟨(h.numbered v hv).1, Nat.lt_of_lt_of_le (h.numbered v hv).2 h'.counted⟩
    · exact ⟨Nat.le_trans h.counted (h'.numbered v hv).1, (h'.numbered v hv).2⟩
  · exact (List.mem_append.mp hv).elim (h.named v) (h'.named v)
  · rcases List.mem_append.mp hmem with hmem | hmem
    · rcases h.idents name ref hmem with hold | ⟨v, hv, hname, href⟩
      · exact .inl hold
      · exact .inr ⟨v, List.mem_append_left _ hv, hname, href⟩
    · exact hlater name ref (h'.idents name ref hmem)

lemma leave (h : Between c d es vs) : Between c (c.leave d) es vs :=
  { h with scope := fun _ => .inl rfl }

end Between

lemma Scope.ref_cons (scope : Scope) (v : Variable) (name : String) :
    Scope.ref (v :: scope) name = if v.name = name then .declared v else scope.ref name := by
  unfold Scope.ref
  rw [List.find?_cons]
  split_ifs with hname
  · simp [hname]
  · simp [hname]

/-- A variable is declared right behind its own initial value. -/
lemma Declares.between {c : Context} {d : VarDecl} (h : Declares c d) :
    Between c (c.declare d.var) d.init.parts [d.var] := by
  refine ⟨Nat.le_succ _, ?_, ?_, fun name ref hmem => .inl (h.init.refers name ref hmem),
    fun name => ?_⟩
  · simp [Context.declare, h.id]
  · simpa using h.name
  · rw [Context.declare, Scope.ref_cons]
    split_ifs with heq
    · exact .inr ⟨d.var, by simp, heq, rfl⟩
    · exact .inl rfl

/-! ### Statements -/

lemma between_wordStmts {s : Stmt} (h : s ∈ wordStmts) (c : Context) :
    Between c c s.exprs s.variables := by
  simp only [wordStmts, List.mem_cons, List.not_mem_nil, or_false] at h
  rcases h with rfl | rfl | rfl | rfl
  · exact .refl c
  · exact .refl c
  · exact .refl c
  · exact .exprs (Refers.nil.cons (by simp))

lemma Elaborates.between {c c' : Context} {ss : List Stmt} (h : Elaborates c ss c') :
    Between c c' (Stmt.exprsOf ss) (Stmt.variablesOf ss) := by
  induction h with
  | nil c => exact .refl c
  | cons _ _ ihs ihss => simpa [Stmt.exprsOf, Stmt.variablesOf] using ihs.trans ihss
  | word c hs => simpa [Stmt.exprsOf, Stmt.variablesOf] using between_wordStmts hs c
  | block _ ih => simpa [Stmt.exprsOf, Stmt.variablesOf, Stmt.exprs, Stmt.variables] using ih.leave
  | decl hd => simpa [Stmt.exprsOf, Stmt.variablesOf, Stmt.exprs, Stmt.variables] using hd.between
  | expr hx =>
    simpa [Stmt.exprsOf, Stmt.variablesOf, Stmt.exprs, Stmt.variables] using
      Between.exprs hx.refers
  | returns hx =>
    simpa [Stmt.exprsOf, Stmt.variablesOf, Stmt.exprs, Stmt.variables] using
      Between.exprs hx.refers
  | @ifElse c d e cond yes no hcond _ _ ihyes ihno =>
    have hboth := (((Between.exprs hcond.refers).trans ihyes.leave).trans ihno).leave
    cases no <;>
      simpa [Stmt.exprsOf, Stmt.variablesOf, Stmt.exprs, Stmt.variables] using hboth
  | @loop c d e init cond post body _ hcond hpost _ ihinit ihbody =>
    have hall := (((ihinit.trans (Between.exprs hcond.refers)).trans
      (Between.exprs hpost.refers)).trans ihbody).leave
    cases init <;>
      simpa [Stmt.exprsOf, Stmt.variablesOf, Stmt.exprs, Stmt.variables] using hall

/-! ### Shaders -/

lemma exprsOf_map_decl (ps : List VarDecl) :
    Stmt.exprsOf (ps.map .decl) = Expr.partsOf (ps.map VarDecl.init) := by
  induction ps with
  | nil => rfl
  | cons p ps ih => simp [Stmt.exprsOf, Stmt.exprs, Expr.partsOf, ih]

lemma variablesOf_map_decl (ps : List VarDecl) :
    Stmt.variablesOf (ps.map .decl) = ps.map VarDecl.var := by
  induction ps with
  | nil => rfl
  | cons p ps ih => simp [Stmt.variablesOf, Stmt.variables, ih]

lemma between_decl {c c' : Context} {form : DeclForm} {x : Decl}
    (h : decl c form = .ok (x, c')) : Between c c' x.exprs x.variables := by
  cases elaborates_decl h with
  | var hd => exact hd.between
  | func _ hparams hbody =>
    have hboth := (hparams.between.trans hbody.between).leave
    rwa [exprsOf_map_decl, variablesOf_map_decl] at hboth

/-- The declarations of a shader from a context on. -/
inductive Resolved : Context → List Decl → Prop
  | nil (c : Context) : Resolved c []
  | cons {c c' : Context} {form : DeclForm} {x : Decl} {xs : List Decl} :
    decl c form = .ok (x, c') → Resolved c' xs → Resolved c (x :: xs)

lemma resolved_of_decls {c : Context} {i : Nat} {forms : List DeclForm} {xs : List Decl}
    (h : decls c i forms = .ok xs) : Resolved c xs := by
  induction forms generalizing c i xs with
  | nil =>
    cases h
    exact .nil c
  | cons form forms ih =>
    unfold decls at h
    obtain ⟨⟨x, d⟩, hx, h⟩ := Resolve.bind_eq_ok.mp h
    obtain ⟨xs', hxs, h⟩ := Resolve.bind_eq_ok.mp h
    cases h
    exact .cons (Resolve.within_eq_ok.mp hx) (ih hxs)

lemma resolved_of_shader {form : ShaderForm} {s : Shader} (h : shader form = .ok s) :
    Resolved {} s.decls := by
  obtain ⟨xs, hxs, h⟩ := Resolve.bind_eq_ok.mp h
  cases h
  exact resolved_of_decls hxs

lemma Resolved.numbered {c : Context} {xs : List Decl} (h : Resolved c xs) :
    ∀ x ∈ xs, ∀ v ∈ x.variables, c.declared ≤ v.id := by
  induction h with
  | nil c => simp
  | cons hx _ ih =>
    have hbetween := between_decl hx
    intro y hy v hv
    rcases List.mem_cons.mp hy with rfl | hy
    · exact (hbetween.numbered v hv).1
    · exact Nat.le_trans hbetween.counted (ih y hy v hv)

/-- All declarations lie between the context in front of them and one behind them. -/
lemma Resolved.between {c : Context} {xs : List Decl} (h : Resolved c xs) :
    ∃ c', Between c c' (xs.flatMap Decl.exprs) (xs.flatMap Decl.variables) := by
  induction h with
  | nil c => exact ⟨c, .refl c⟩
  | cons hx _ ih =>
    obtain ⟨c', hrest⟩ := ih
    exact ⟨c', (between_decl hx).trans hrest⟩

/-! ### Texts -/

lemma shader_of_parse {text : String} {s : Shader} (h : parse text = .ok s) :
    ∃ form, shader form = .ok s := by
  unfold parse at h
  split at h
  · cases h
  · cases h
  · rename_i document _
    rcases hform : decodeShader (2 * text.length + 2) document.node with e | form
    · simp [hform, Except.mapError, bind, Except.bind] at h
    · refine ⟨form, ?_⟩
      rcases hshader : shader form with e | s'
      · simp [hform, hshader, Except.mapError, bind, Except.bind] at h
      · simpa [hform, hshader, Except.mapError, bind, Except.bind] using h

/-- Reading a shader from the characters of its text. -/
def parseChars (cs : List Char) : Except TextError Shader := do
  let tokens : Except Yaml.ReadError (List Yaml.Token) := do
    let s ← Yaml.Scan.run cs.length {} cs
    return Yaml.Token.settle [] "" s.tokens.reverse
  let documents : Except Yaml.ReadError (List Yaml.Document) := do
    let nodes ← (← Yaml.documentPieces (← tokens)).mapM Yaml.document
    (nodes.filterMap id).mapM fun node => return ⟨node, ← Yaml.Value.ofNode node⟩
  match documents.map List.head? with
  | .error .malformed => .error .malformed
  | .ok none => .error .empty
  | .ok (some document) => do
    let form ← (decodeShader (2 * cs.length + 2) document.node).mapError .ofDecode
    (shader form).mapError .form

lemma parse_eq_parseChars (text : String) : parse text = parseChars text.toList := by
  unfold parse parseChars
  rw [String.length_toList]
  rfl

/-- The characters of a text. Those of a literal are known, and need not be computed from it. -/
def Spells (text : String) (cs : List Char) : Prop := text.toList = cs

lemma Spells.literal (cs : List Char) : Spells (String.ofList cs) cs := String.toList_ofList

lemma Spells.append {a b : String} {cs ds : List Char} (h : Spells a cs) (h' : Spells b ds) :
    Spells (a ++ b) (cs ++ ds) := by
  rw [Spells, String.toList_append, h, h']

lemma exists_ok_of_any {ε : Type} {r : Except ε Shader} {p : Shader → Bool}
    (h : r.toOption.any p = true) : ∃ s, r = .ok s ∧ p s = true := by
  cases r with
  | error e => cases h
  | ok s => exact ⟨s, rfl, h⟩

lemma exists_parse {text : String} {cs : List Char} (hcs : Spells text cs) {p : Shader → Bool}
    (h : (parseChars cs).toOption.any p = true) : ∃ s, parse text = .ok s ∧ p s = true := by
  rw [parse_eq_parseChars, hcs]
  exact exists_ok_of_any h

end Shaderwright.Source
