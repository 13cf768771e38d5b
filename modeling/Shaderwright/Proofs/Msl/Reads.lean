import Mathlib.Tactic.Common
import Shaderwright.Proofs.Msl.Acceptance
import Shaderwright.Proofs.Msl.Rendering
import Shaderwright.Proofs.Msl.Template

/-!
The text of a shader as a template with one hole for each texture read. A hole stands directly
behind another one exactly where the first argument of a read starts with a read.
-/

namespace Shaderwright

/-- Whether an expression starts with a texture read, when it is written. -/
def Expr.startsWithRead : Expr → Bool
  | .call callee _ => callee = sampleFunction
  | .unary op x => op = "" && x.startsWithRead
  | .assign _ lhs _ => lhs.startsWithRead
  | .member x _ => x.startsWithRead
  | .index x _ => x.startsWithRead
  | _ => false

/-- Whether an expression, apart from its parts, is no texture read whose first argument starts with
another one. -/
def Expr.readsApart : Expr → Bool
  | .call callee args => callee ≠ sampleFunction || !args.head?.any Expr.startsWithRead
  | _ => true

namespace Msl

/-- A table in which no function has another name than usual, except the one that reads textures. -/
def UsualApart (names : NameTable) : Prop :=
  ∀ n, n ≠ sampleFunction → names.get n = functions.get n

/-- A text that depends on the name of the function that reads textures, as a template with a hole
for each read among some expressions. -/
structure Renders (text : NameTable → String) (es : List Expr) (c : Template) : Prop where
  fill : ∀ names, UsualApart names → text names = c.fill (names.get sampleFunction ++ "(")
  sound : c.Sound
  holes : c.holes = es.countP Expr.isRead
  spread : c.spread = es.all Expr.readsApart
  /-- No hole ends the text. -/
  ending : c.holes ≠ 0 → c.ending ≠ ""

namespace Renders

variable {text text' : NameTable → String} {es es' : List Expr} {c d : Template}

lemma of_eq (h : Renders text es c)
    (heq : ∀ names, UsualApart names → text' names = text names) : Renders text' es c :=
  { h with fill := fun names hnames => (heq names hnames).trans (h.fill names hnames) }

lemma const {t : String} (ht : Readless t) : Renders (fun _ => t) [] (.text t) where
  fill _ _ := rfl
  sound := ht
  holes := rfl
  spread := rfl
  ending h := absurd rfl h

lemma opened {t : String} (h : Renders text es c) (ht : Readless t) (hends : endsApart t = true) :
    Renders (fun names => t ++ text names) es (c.prepend t) where
  fill names hnames := by rw [h.fill names hnames, Template.fill_prepend]
  sound := h.sound.prepend ht hends
  holes := by rw [Template.holes_prepend, h.holes]
  spread := by rw [Template.spread_prepend, h.spread]
  ending hholes := by
    rw [Template.holes_prepend] at hholes
    rw [Template.ending_prepend, if_neg hholes]
    exact h.ending hholes

/-- A text behind, which ends the name that may stand in front of it. -/
lemma closed {t : String} (h : Renders text es c) (ht : Readless t) (hcloses : closes t = true) :
    Renders (fun names => text names ++ t) es (c ++ .text t) where
  fill names hnames := by rw [h.fill names hnames, Template.fill_append, Template.fill]
  sound := h.sound.append_text ht hcloses
  holes := by rw [Template.holes_append, h.holes, Template.holes, Nat.add_zero]
  spread := by rw [Template.spread_append h.ending, h.spread, Template.spread, Bool.and_true]
  ending _ := by simp [closes_ne_empty hcloses]

lemma append (h : Renders text es c) (hends : endsApart c.ending = true)
    (h' : Renders text' es' d) :
    Renders (fun names => text names ++ text' names) (es ++ es') (c ++ d) where
  fill names hnames := by rw [h.fill names hnames, h'.fill names hnames, Template.fill_append]
  sound := h.sound.append h'.sound hends
  holes := by rw [Template.holes_append, h.holes, h'.holes, List.countP_append]
  spread := by rw [Template.spread_append h.ending, h.spread, h'.spread, List.all_append]
  ending hholes := by
    rw [Template.holes_append] at hholes
    rw [Template.ending_append]
    split
    · rename_i hzero
      have hne := h.ending (by omega)
      simp [hne]
    · exact h'.ending ‹_›

lemma inside {e : Expr} (h : Renders text es c) (he : e.isRead = false)
    (hapart : e.readsApart = true) : Renders text (e :: es) c :=
  { h with
    holes := by rw [h.holes, List.countP_cons_of_neg (by simp [he])]
    spread := by rw [h.spread, List.all_cons, hapart, Bool.true_and] }

lemma of_isAbsent {e : Expr} (h : Renders text [] c) (he : e.isAbsent = true) :
    Renders text e.parts c := by
  cases e with
  | absent =>
    rw [Expr.parts]
    exact h.inside rfl rfl
  | _ => simp [Expr.isAbsent] at he

/-- A texture read is a hole in front of its arguments. -/
lemma read (args : List Expr) (h : Renders text es c)
    (hleads : c.leads = args.head?.any Expr.startsWithRead) (hending : c.ending ≠ "") :
    Renders (fun names => names.get sampleFunction ++ "(" ++ text names)
      (.call sampleFunction args :: es) (.hole "" c) where
  fill names hnames := by rw [h.fill names hnames, Template.fill, String.empty_append]
  sound := ⟨by decide, by decide, h.sound⟩
  holes := by rw [Template.holes, h.holes, List.countP_cons_of_pos (by simp [Expr.isRead])]
  spread := by
    rw [Template.spread, hleads, h.spread, List.all_cons]
    simp [Expr.readsApart]
  ending _ := hending

/-- Pieces with commas between them start like the first one. -/
lemma joined {α : Type} {f : α → NameTable → String} {es : α → List Expr} {leads : α → Bool}
    {xs : List α} (h : ∀ x ∈ xs, ∃ c, Renders (f x) (es x) c ∧ c.leads = leads x) :
    ∃ c, Renders (fun names => Text.joinWith ", " (xs.map fun x => f x names)) (xs.flatMap es) c ∧
      c.leads = xs.head?.any leads := by
  induction xs with
  | nil => exact ⟨_, .const (t := "") (by decide), rfl⟩
  | cons x xs ih =>
    rw [List.forall_mem_cons] at h
    obtain ⟨⟨c, hc, hleads⟩, hxs⟩ := h
    cases xs with
    | nil =>
      rw [List.flatMap_cons, List.flatMap_nil, List.append_nil]
      exact ⟨c, hc, hleads⟩
    | cons y xs =>
      obtain ⟨d, hd, -⟩ := ih hxs
      have hcomma := hc.closed (t := ", ") (by decide) (by decide)
      have hends : endsApart (c ++ Template.text ", ").ending = true := by
        rw [Template.ending_append_text]
        exact endsApart_append (by decide) (by simp)
      refine ⟨_, (hcomma.append hends hd).of_eq fun names _ => ?_, ?_⟩
      · rw [List.map_cons, Text.joinWith_cons _ _ (by simp)]
      · rw [Template.leads_append (by simp), Template.leads_append_text, hleads]
        rfl

end Renders

/-! ### Expressions -/

/-- A table that gives out no parentheses. -/
def Bare (table : NameTable) : Prop := ∀ e ∈ table.entries, '(' ∉ e.2.toList

instance (table : NameTable) : Decidable (Bare table) := inferInstanceAs (Decidable (∀ _ ∈ _, _))

lemma not_mem_of_isIdentifier {name : String} (h : isIdentifier name = true) :
    '(' ∉ name.toList :=
  fun hmem => absurd ((isWord_of_isIdentifier h).word '(' hmem) (by decide)

lemma Bare.get {table : NameTable} (h : Bare table) {name : String}
    (hname : isIdentifier name = true) : '(' ∉ (table.get name).toList := by
  rcases table.get_mem name with ⟨e, he, heq⟩ | heq | heq
  · exact heq ▸ h e he
  · rw [heq]
    exact not_mem_of_isIdentifier hname
  · simp [heq]

/-- Other functions have words for names, and none is called like the one that reads textures. -/
lemma functions_get_spares {name : String} (h : isIdentifier name = true)
    (hne : name ≠ sampleFunction) :
    (∀ c ∈ (functions.get name).toList, isWordChar c = true) ∧
      functions.get name ≠ sampleFunction := by
  have hvalues : ∀ e ∈ functions.entries, isIdentifier e.2 = true ∧ e.2 ≠ sampleFunction := by
    decide
  rcases functions.get_mem name with ⟨e, he, heq⟩ | heq | heq
  · exact heq ▸ ⟨(isWord_of_isIdentifier (hvalues e he).1).word, (hvalues e he).2⟩
  · exact heq.symm ▸ ⟨(isWord_of_isIdentifier h).word, hne⟩
  · simp [heq, sampleFunction]

/-- Whether the names of an expression are identifiers and what else is written for it, apart from
its parts, reads no texture; nor may an operator run into the operand behind it. -/
def spelledApart : Expr → Bool
  | .absent => true
  | .ident name _ => isIdentifier name
  | .literal text _ => Readless text
  | .call callee _ => isIdentifier callee
  | .binary op _ _ => Readless op
  | .unary op _ => Readless op && endsApart op
  | .assign op _ _ => Readless op
  | .member _ field => isIdentifier field
  | .index _ _ => true

def Spelled (es : List Expr) : Prop := ∀ e ∈ es, spelledApart e = true

lemma Spelled.subset {es es' : List Expr} (h : Spelled es) (hsub : es' ⊆ es) : Spelled es' :=
  fun e he => h e (hsub he)

variable {table : NameTable}

/-- A call of another function with given arguments. -/
lemma Renders.call {text : NameTable → String} {es : List Expr} {c : Template}
    (h : Renders text es c) (name : String) (hname : ∀ c ∈ name.toList, isWordChar c = true)
    (hne : name ≠ sampleFunction) :
    ∃ d, Renders (fun names => name ++ "(" ++ text names ++ ")") es d ∧ d.leads = false := by
  have hends : endsApart (name ++ "(") = true := endsApart_append (by decide) (by simp)
  refine ⟨_, (h.opened (readless_call hname hne) hends).closed (t := ")") (by decide) (by decide),
    ?_⟩
  rw [Template.leads_append_text, Template.leads_prepend]
  simp

/-- An operator behind its first operand. -/
lemma Renders.operator {text : NameTable → String} {es : List Expr} {c : Template}
    (h : Renders text es c) {op : String} (hop : Readless op) :
    Renders (fun names => text names ++ (" " ++ op ++ " ")) es (c ++ .text (" " ++ op ++ " ")) ∧
      endsApart (c ++ Template.text (" " ++ op ++ " ")).ending = true := by
  have hblank := Readless.append_of_ends (a := " ") (by decide) hop (by decide)
  refine ⟨h.closed (hblank.append_of_closes (by decide) (by decide)) (by simp [closes]; decide), ?_⟩
  rw [Template.ending_append_text]
  exact endsApart_append (endsApart_append (by decide) (by simp)) (by simp)

/-- Arguments behind those that every helper takes. -/
lemma renders_withHandles {args : List Expr} {c : Template}
    (h : Renders (fun names => Text.joinWith ", " (args.map fun e => e.text (phrasing names table)))
      (Expr.partsOf args) c) :
    ∃ d, Renders (fun names => Text.joinWith ", "
      ("_sampler" :: "_uniforms" :: args.map fun e => e.text (phrasing names table)))
      (Expr.partsOf args) d := by
  cases args with
  | nil => exact ⟨_, .const (t := "_sampler, _uniforms") (by decide)⟩
  | cons e args =>
    refine ⟨_, (h.opened (t := "_sampler, _uniforms, ") (by decide) (by decide)).of_eq
      fun names _ => ?_⟩
    rw [Text.joinWith_cons _ _ (by simp), Text.joinWith_cons _ _ (by simp), ← String.append_assoc,
      ← String.append_assoc]
    rfl

lemma renders_callText {callee : String} (hcallee : isIdentifier callee = true)
    (hne : callee ≠ sampleFunction) {args : List Expr} {c : Template}
    (h : Renders (fun names => Text.joinWith ", " (args.map fun e => e.text (phrasing names table)))
      (Expr.partsOf args) c) :
    ∃ d, Renders
      (fun names => callText names callee (args.map (Expr.phrase (phrasing names table))))
      (Expr.partsOf args) d ∧ d.leads = false := by
  obtain ⟨hword, hspares⟩ := functions_get_spares hcallee hne
  simp only [callText, if_neg hne, mappedCall, calledBy, List.map_map, List.length_map]
  split
  · obtain ⟨c', hc'⟩ := renders_withHandles h
    obtain ⟨d, hd, hleads⟩ := hc'.call _ hword hspares
    exact ⟨d, hd.of_eq fun names hnames => by rw [hnames callee hne]; rfl, hleads⟩
  · split
    · exact h.call "atan2" (isWord_of_isIdentifier (by decide)).word (by decide)
    · obtain ⟨d, hd, hleads⟩ := h.call _ hword hspares
      exact ⟨d, hd.of_eq fun names hnames => by rw [hnames callee hne]; rfl, hleads⟩

lemma renders_expr (htable : Bare table) (e : Expr) (he : Spelled e.parts) :
    ∃ c, Renders (fun names => e.text (phrasing names table)) e.parts c ∧
      c.leads = e.startsWithRead := by
  induction e using Expr.inductOn with
  | absent =>
    simp only [Expr.text, Expr.parts]
    exact ⟨_, .inside (.const (t := "") (by decide)) rfl rfl, rfl⟩
  | ident name ref =>
    simp only [Expr.parts] at he
    have hname : isIdentifier name = true := he _ List.mem_cons_self
    simp only [Expr.text, Expr.parts]
    exact ⟨_, .inside (.const (readless_of_not_mem (htable.get hname))) rfl rfl, rfl⟩
  | literal text kind =>
    simp only [Expr.parts] at he
    have htext : Readless text := of_decide_eq_true (he _ List.mem_cons_self)
    simp only [Expr.text, Expr.parts]
    exact ⟨_, .inside (.const htext) rfl rfl, rfl⟩
  | call callee args ih =>
    simp only [Expr.parts] at he
    have hargs : ∀ e ∈ args, ∃ c, Renders (fun names => e.text (phrasing names table)) e.parts c ∧
        c.leads = e.startsWithRead := by
      intro e hmem
      refine ih e hmem (he.subset fun x hx => List.mem_cons_of_mem _ ?_)
      rw [Expr.partsOf_eq_flatMap]
      exact List.mem_flatMap.mpr ⟨e, hmem, hx⟩
    obtain ⟨c, hc, hleads⟩ := Renders.joined hargs
    rw [← Expr.partsOf_eq_flatMap] at hc
    simp only [Expr.text, Expr.parts, Expr.phrases_eq_map]
    by_cases hsample : callee = sampleFunction
    · subst hsample
      have hclosed := hc.closed (t := ")") (by decide) (by decide)
      refine ⟨_, (hclosed.read args ?_ ?_).of_eq fun names _ => ?_, ?_⟩
      · rw [Template.leads_append_text, hleads]
      · simp
      · simp [phrasing, callText, calledBy, Function.comp_def, Expr.phrase, String.append_assoc]
      · simp [Template.leads, Expr.startsWithRead]
    · obtain ⟨d, hd, hlead⟩ := renders_callText (he _ List.mem_cons_self) hsample hc
      refine ⟨d, hd.inside ?_ ?_, hlead.trans ?_⟩
      · simp [Expr.isRead, hsample]
      · simp [Expr.readsApart, hsample]
      · simp [Expr.startsWithRead, hsample]
  | binary op x y ihx ihy =>
    simp only [Expr.parts] at he
    have hop : Readless op := of_decide_eq_true (he _ List.mem_cons_self)
    obtain ⟨c, hc, -⟩ := ihx (he.subset fun e hmem => by simp [hmem])
    obtain ⟨d, hd, -⟩ := ihy (he.subset fun e hmem => by simp [hmem])
    have hx := (hc.opened (t := "(") (by decide) (by decide)).operator hop
    simp only [Expr.text, Expr.parts]
    refine ⟨_, ((hx.1.append hx.2 hd).closed (t := ")") (by decide) (by decide)).inside rfl rfl, ?_⟩
    rw [Template.leads_append_text, Template.leads_append (by simp), Template.leads_append_text,
      Template.leads_prepend]
    simp [Expr.startsWithRead]
  | unary op x ih =>
    simp only [Expr.parts] at he
    have hop : Readless op ∧ endsApart op = true := by
      simpa [spelledApart] using he _ List.mem_cons_self
    obtain ⟨c, hc, hleads⟩ := ih (he.subset fun e hmem => by simp [hmem])
    simp only [Expr.text, Expr.parts]
    refine ⟨_, .inside (hc.opened hop.1 hop.2) rfl rfl, ?_⟩
    rw [Template.leads_prepend, hleads, Expr.startsWithRead]
  | assign op lhs rhs ihl ihr =>
    simp only [Expr.parts] at he
    have hop : Readless op := of_decide_eq_true (he _ List.mem_cons_self)
    obtain ⟨c, hc, hleads⟩ := ihl (he.subset fun e hmem => by simp [hmem])
    obtain ⟨d, hd, -⟩ := ihr (he.subset fun e hmem => by simp [hmem])
    have hx := hc.operator hop
    simp only [Expr.text, Expr.parts]
    refine ⟨_, (hx.1.append hx.2 hd).inside rfl rfl, ?_⟩
    rw [Template.leads_append (by simp), Template.leads_append_text, hleads, Expr.startsWithRead]
  | member x field ih =>
    simp only [Expr.parts] at he
    have hfield : isIdentifier field = true := he _ List.mem_cons_self
    obtain ⟨c, hc, hleads⟩ := ih (he.subset fun e hmem => by simp [hmem])
    have hdot : Readless ("." ++ field) :=
      readless_of_not_mem (by simpa using not_mem_of_isIdentifier hfield)
    simp only [Expr.text, Expr.parts]
    refine ⟨_, (hc.closed hdot (by simp [closes]; decide)).inside rfl rfl, ?_⟩
    rw [Template.leads_append_text, hleads, Expr.startsWithRead]
  | index x i ihx ihi =>
    simp only [Expr.parts] at he
    obtain ⟨c, hc, hleads⟩ := ihx (he.subset fun e hmem => by simp [hmem])
    obtain ⟨d, hd, -⟩ := ihi (he.subset fun e hmem => by simp [hmem])
    have hx := hc.closed (t := "[") (by decide) (by decide)
    have hends : endsApart (c ++ Template.text "[").ending = true := by
      rw [Template.ending_append_text]
      exact endsApart_append (by decide) (by simp)
    simp only [Expr.text, Expr.parts]
    refine ⟨_, ((hx.append hends hd).closed (t := "]") (by decide) (by decide)).inside rfl rfl, ?_⟩
    rw [Template.leads_append_text, Template.leads_append (by simp), Template.leads_append_text,
      hleads, Expr.startsWithRead]

/-! ### Statements -/

/-- A text that a name may follow, as a template. -/
def Lines (text : NameTable → String) (es : List Expr) : Prop :=
  ∃ c, Renders text es c ∧ endsApart c.ending = true

namespace Lines

variable {text text' : NameTable → String} {es es' : List Expr} {t : String}

lemma of_eq (h : Lines text es) (heq : ∀ names, UsualApart names → text' names = text names) :
    Lines text' es := by
  obtain ⟨c, hc, hends⟩ := h
  exact ⟨c, hc.of_eq heq, hends⟩

lemma const (ht : Readless t) (hends : endsApart t = true) : Lines (fun _ => t) [] :=
  ⟨_, .const ht, hends⟩

lemma of_closed {c : Template} (h : Renders text es c) (ht : Readless t) (hcloses : closes t = true)
    (hends : endsApart t = true) : Lines (fun names => text names ++ t) es := by
  refine ⟨_, h.closed ht hcloses, ?_⟩
  rw [Template.ending_append_text]
  exact endsApart_append hends fun hempty => absurd hempty (closes_ne_empty hcloses)

lemma opened (h : Lines text es) (ht : Readless t) (hends : endsApart t = true) :
    Lines (fun names => t ++ text names) es := by
  obtain ⟨c, hc, hc'⟩ := h
  refine ⟨_, hc.opened ht hends, ?_⟩
  rw [Template.ending_prepend]
  split
  · exact endsApart_append hc' fun _ => hends
  · exact hc'

lemma append (h : Lines text es) (h' : Lines text' es') :
    Lines (fun names => text names ++ text' names) (es ++ es') := by
  obtain ⟨c, hc, hends⟩ := h
  obtain ⟨d, hd, hends'⟩ := h'
  refine ⟨_, hc.append hends hd, ?_⟩
  rw [Template.ending_append]
  split
  · exact endsApart_append hends' fun _ => hends
  · exact hends'

lemma closed (h : Lines text es) (ht : Readless t) (hends : endsApart t = true) :
    Lines (fun names => text names ++ t) es := by
  simpa using h.append (.const ht hends)

lemma readless_indentation (depth : Nat) : Readless (Emit.indentation depth) :=
  readless_of_not_mem (by simp [Emit.indentation])

lemma lineAt (depth : Nat) {c : Template} (h : Renders text es c) :
    Lines (fun names => Shaderwright.lineAt depth (text names)) es :=
  (of_closed h (t := "\n") (by decide) (by decide) (by decide)).opened
    (readless_indentation depth) (endsApart_indentation depth)

lemma bracedAt (depth : Nat) (h : Lines text es) :
    Lines (fun names => Shaderwright.bracedAt depth (text names)) es :=
  ((h.opened (t := "\x7b\n") (by decide) (by decide)).closed (readless_indentation depth)
    (endsApart_indentation depth)).closed (t := "\x7d") (by decide) (by decide)

end Lines

/-! ### Declarations and statements -/

lemma Bare.get_of_absent {t : NameTable} (h : Bare t) (hmiss : t.miss = .absent) (key : String) :
    '(' ∉ (t.get key).toList := by
  rcases NameTable.get_mem_of_absent hmiss key with ⟨e, he, heq⟩ | heq
  · exact heq ▸ h e he
  · simp [heq]

lemma not_mem_types_get (key : String) : '(' ∉ (types.get key).toList :=
  Bare.get_of_absent (by decide) rfl key

lemma not_mem_qualifiers_get (key : String) : '(' ∉ (qualifiers.get key).toList :=
  Bare.get_of_absent (by decide) rfl key

lemma not_mem_extent (v : Variable) : '(' ∉ v.extent.toList := by
  unfold Variable.extent
  split
  · intro h
    simp only [String.toList_append, List.mem_append] at h
    rcases h with (h | h) | h
    · exact absurd h (by decide)
    · rcases Text.mem_toString_int h with h | h
      · cases h
      · exact absurd h (by decide)
    · exact absurd h (by decide)
  · simp

lemma renders_varDecl (htable : Bare table) {v : VarDecl} (hname : isIdentifier v.var.name = true)
    (hinit : Spelled v.init.parts) :
    ∃ c, Renders (fun names => v.text (phrasing names table)) v.init.parts c := by
  obtain ⟨c, hc, -⟩ := renders_expr htable v.init hinit
  -- Up to the value there are no parentheses.
  set head := (if qualifiers.get v.var.qualifier.text = "" then ""
    else qualifiers.get v.var.qualifier.text ++ " ") ++ types.get v.var.type.name ++ " " ++
    table.get v.var.name ++ v.var.extent with hhead
  have hparen : '(' ∉ head.toList := by
    have hqualifier := not_mem_qualifiers_get v.var.qualifier.text
    rw [hhead]
    split <;> simp [not_mem_types_get, htable.get hname, not_mem_extent, hqualifier]
  by_cases habsent : v.init.isAbsent = true
  · have hconst := (Renders.const (readless_of_not_mem hparen)).of_isAbsent habsent
    refine ⟨_, hconst.of_eq fun names _ => ?_⟩
    rw [VarDecl.text, if_pos habsent, String.append_empty]
    rfl
  · have hequals : Readless (head ++ " = ") := readless_of_not_mem (by simpa using hparen)
    refine ⟨_, (hc.opened hequals (endsApart_append (by decide) (by simp))).of_eq fun names _ => ?_⟩
    rw [VarDecl.text, if_neg habsent]
    exact String.append_assoc.symm

lemma renders_constant (htable : Bare table) {v : VarDecl} (hname : isIdentifier v.var.name = true)
    (hinit : Spelled v.init.parts) :
    ∃ c, Renders (fun names => v.constantText (phrasing names table)) v.init.parts c := by
  obtain ⟨c, hc, -⟩ := renders_expr htable v.init hinit
  have hdefine : Readless (qualifiers.get v.var.qualifier.text ++ " " ++ table.get v.var.name) := by
    refine readless_of_not_mem ?_
    simp [not_mem_qualifiers_get, htable.get hname]
  exact ⟨_, (hc.opened (hdefine.append_of_closes (b := " (") (by decide) (by decide))
    (endsApart_append (by decide) (by simp))).closed (t := ")") (by decide) (by decide)⟩

lemma renders_local (htable : Bare table) {v : VarDecl} (hname : isIdentifier v.var.name = true)
    (hinit : Spelled v.init.parts) :
    ∃ c, Renders (fun names => v.localText (phrasing names table)) v.init.parts c := by
  unfold VarDecl.localText
  split
  · exact renders_constant htable hname hinit
  · obtain ⟨c, hc⟩ := renders_varDecl htable hname hinit
    exact ⟨_, hc.closed (t := ";") (by decide) (by decide)⟩

lemma lines_linesOf {result : Option String} {depth : Nat} {ss : List Stmt}
    (h : ∀ s ∈ ss, Lines (fun names => s.lines (phrasing names table) result depth) s.exprs) :
    Lines (fun names => Stmt.linesOf (phrasing names table) result depth ss) (Stmt.exprsOf ss) := by
  induction ss with
  | nil =>
    simp only [Stmt.linesOf, Stmt.exprsOf]
    exact .const (t := "") (by decide) (by decide)
  | cons s ss ih =>
    rw [List.forall_mem_cons] at h
    simp only [Stmt.linesOf, Stmt.exprsOf]
    exact h.1.append (ih h.2)

/-- A loop that can be written starts with a text. -/
lemma lines_start (htable : Bare table) {f : Option String} {init : Stmt}
    (hwritable : init.startWritable .call f = true)
    (hnames : ∀ v ∈ init.variables, isIdentifier v.name = true) (hexprs : Spelled init.exprs) :
    ∃ c, Renders (fun names => init.start (phrasing names table)) init.exprs c := by
  cases init with
  | absent =>
    simp only [Stmt.start, Stmt.exprs]
    exact ⟨_, .const (t := "") (by decide)⟩
  | decl v =>
    simp only [Stmt.exprs] at hexprs ⊢
    exact renders_varDecl htable (hnames v.var (by simp [Stmt.variables])) hexprs
  | expr x =>
    simp only [Stmt.exprs] at hexprs ⊢
    obtain ⟨c, hc, -⟩ := renders_expr htable x hexprs
    exact ⟨c, hc⟩
  | _ => simp [Stmt.startWritable] at hwritable

lemma readless_bareReturn {result : Option String}
    (hresult : ∀ r, result = some r → '(' ∉ r.toList) : Readless (bareReturn result) := by
  cases result with
  | none => exact readless_of_not_mem (by decide)
  | some r => exact readless_of_not_mem (by simp [bareReturn, hresult r rfl])

/-- A statement as it stands, and in the braces of a branch. -/
lemma lines_stmt (htable : Bare table) {result : Option String}
    (hresult : ∀ r, result = some r → '(' ∉ r.toList) {f : Option String} (s : Stmt)
    (hwritable : s.writable .call f = true)
    (hnames : ∀ v ∈ s.variables, isIdentifier v.name = true) (hexprs : Spelled s.exprs)
    (depth : Nat) :
    Lines (fun names => s.lines (phrasing names table) result depth) s.exprs ∧
      Lines (fun names => s.inBraces (s.contents (phrasing names table) result depth)
        (s.lines (phrasing names table) result depth)) s.exprs := by
  induction s using Stmt.inductOn generalizing depth with
  | absent => simp [Stmt.writable] at hwritable
  | block ss ih =>
    have hss : ∀ depth, Lines (fun names => Stmt.linesOf (phrasing names table) result depth ss)
        (Stmt.exprsOf ss) := by
      intro depth
      refine lines_linesOf fun s hs => (ih s hs ?_ (fun v hv => hnames v ?_)
        (hexprs.subset fun e he => ?_) depth).1
      · rw [Stmt.writable, Stmt.allWritable_eq_true] at hwritable
        exact hwritable s hs
      · rw [Stmt.variables, Stmt.variablesOf_eq_flatMap]
        exact List.mem_flatMap.mpr ⟨s, hs, hv⟩
      · rw [Stmt.exprs, Stmt.exprsOf_eq_flatMap]
        exact List.mem_flatMap.mpr ⟨s, hs, he⟩
    simp only [Stmt.lines, Stmt.exprs, Stmt.inBraces, Stmt.contents]
    exact ⟨(((hss _).bracedAt depth).opened (Lines.readless_indentation depth)
      (endsApart_indentation depth)).closed (t := "\n") (by decide) (by decide), hss depth⟩
  | decl v =>
    simp only [Stmt.exprs] at hexprs
    obtain ⟨c, hc⟩ := renders_local htable (hnames v.var (by simp [Stmt.variables])) hexprs
    simp only [Stmt.lines, Stmt.exprs, Stmt.inBraces]
    exact ⟨.lineAt depth hc, .lineAt depth hc⟩
  | expr x =>
    simp only [Stmt.exprs] at hexprs
    obtain ⟨c, hc, -⟩ := renders_expr htable x hexprs
    have hline := Lines.lineAt depth (hc.closed (t := ";") (by decide) (by decide))
    simp only [Stmt.lines, Stmt.exprs, Stmt.inBraces]
    exact ⟨hline, hline⟩
  | returns value =>
    simp only [Stmt.exprs] at hexprs
    obtain ⟨c, hc, -⟩ := renders_expr htable value hexprs
    have hline : Lines (fun names => lineAt depth (if value.isAbsent then bareReturn result
        else "return " ++ value.text (phrasing names table) ++ ";")) value.parts := by
      split
      · rename_i habsent
        exact .lineAt depth ((Renders.const (readless_bareReturn hresult)).of_isAbsent habsent)
      · exact .lineAt depth ((hc.opened (t := "return ") (by decide) (by decide)).closed (t := ";")
          (by decide) (by decide))
    simp only [Stmt.lines, Stmt.exprs, Stmt.inBraces]
    exact ⟨hline, hline⟩
  | ifElse cond yes no ihyes ihno =>
    simp only [Stmt.writable, Bool.and_eq_true, Bool.or_eq_true] at hwritable
    simp only [Stmt.exprs, Stmt.variables] at hexprs hnames
    obtain ⟨c, hc, -⟩ := renders_expr htable cond (hexprs.subset fun e he => by simp [he])
    have hyes := (ihyes hwritable.1.2 (fun v hv => hnames v (by simp [hv]))
      (hexprs.subset fun e he => by simp [he]) (depth + 1)).2
    have hhead := (Lines.of_closed (hc.opened (t := "if (") (by decide) (by decide)) (t := ") ")
      (by decide) (by decide) (by decide)).append (hyes.bracedAt depth)
    have helse : Lines (fun names => if no.isAbsent then "" else " else " ++
        bracedAt depth (no.inBraces (no.contents (phrasing names table) result (depth + 1))
          (no.lines (phrasing names table) result (depth + 1)))) no.exprs := by
      split
      · rename_i habsent
        rw [no.exprs_of_isAbsent habsent]
        exact .const (by decide) (by decide)
      · rename_i habsent
        have hno := (ihno (hwritable.2.resolve_left habsent) (fun v hv => hnames v (by simp [hv]))
          (hexprs.subset fun e he => by simp [he]) (depth + 1)).2
        exact (hno.bracedAt depth).opened (by decide) (by decide)
    obtain ⟨a, ha, -⟩ := hhead.append helse
    simp only [Stmt.lines, Stmt.exprs, Stmt.inBraces]
    exact ⟨.lineAt depth ha, .lineAt depth ha⟩
  | loop init cond post body ihinit ihbody =>
    simp only [Stmt.writable, Bool.and_eq_true, Bool.or_eq_true] at hwritable
    simp only [Stmt.exprs, Stmt.variables] at hexprs hnames
    obtain ⟨c, hc, -⟩ := renders_expr htable cond (hexprs.subset fun e he => by simp [he])
    obtain ⟨d, hd, -⟩ := renders_expr htable post (hexprs.subset fun e he => by simp [he])
    obtain ⟨a, ha⟩ := lines_start htable hwritable.1.1.1 (fun v hv => hnames v (by simp [hv]))
      (hexprs.subset fun e he => by simp [he])
    have hbody := (ihbody hwritable.2 (fun v hv => hnames v (by simp [hv]))
      (hexprs.subset fun e he => by simp [he]) (depth + 1)).2
    have hinit := Lines.of_closed (ha.opened (t := "for (") (by decide) (by decide)) (t := "; ")
      (by decide) (by decide) (by decide)
    have hcond := Lines.of_closed hc (t := "; ") (by decide) (by decide) (by decide)
    have hpost := Lines.of_closed hd (t := ") ") (by decide) (by decide) (by decide)
    obtain ⟨b, hb, -⟩ := ((hinit.append hcond).append hpost).append (hbody.bracedAt depth)
    have hline : Lines (fun names => Stmt.lines (phrasing names table) result depth
        (.loop init cond post body)) _ :=
      (Lines.lineAt depth hb).of_eq fun names _ => by simp only [Stmt.lines, String.append_assoc]
    simp only [Stmt.exprs, Stmt.inBraces]
    exact ⟨hline, hline⟩
  | discard =>
    have hline := Lines.lineAt depth (.const (t := "discard_fragment();") (by decide))
    simp only [Stmt.lines, Stmt.exprs, Stmt.inBraces]
    exact ⟨hline, hline⟩
  | breakLoop =>
    have hline := Lines.lineAt depth (.const (t := "break;") (by decide))
    simp only [Stmt.lines, Stmt.exprs, Stmt.inBraces]
    exact ⟨hline, hline⟩
  | continueLoop =>
    have hline := Lines.lineAt depth (.const (t := "continue;") (by decide))
    simp only [Stmt.lines, Stmt.exprs, Stmt.inBraces]
    exact ⟨hline, hline⟩

/-! ### Functions and shaders -/

lemma not_mem_paramRendering (htable : Bare table) {v : VarDecl}
    (hname : isIdentifier v.var.name = true) : '(' ∉ (paramRendering table v).toList := by
  unfold paramRendering
  split <;> simp [not_mem_qualifiers_get, not_mem_types_get, htable.get hname, not_mem_extent]

lemma not_mem_joinWith {texts : List String} (h : ∀ t ∈ texts, '(' ∉ t.toList) :
    '(' ∉ (Text.joinWith ", " texts).toList := by
  induction texts with
  | nil => simp [Text.joinWith]
  | cons t texts ih =>
    rw [List.forall_mem_cons] at h
    cases texts with
    | nil => exact h.1
    | cons u texts =>
      rw [Text.joinWith_cons _ _ (by simp)]
      simp [h.1, ih h.2]

/-- The only parenthesis of a signature is behind the name of the function. -/
lemma readless_signature (htable : Bare table) {shader : String}
    (hshader : isIdentifier shader = true) {f : FuncDef} (hf : isIdentifier f.name = true)
    (hne : f.name ≠ sampleFunction) (hparams : ∀ p ∈ f.params, isIdentifier p.var.name = true) :
    Readless (signature functions shader table f) := by
  obtain ⟨hword, hspares⟩ := functions_get_spares hf hne
  have hparts : '(' ∉ (Text.joinWith ", "
      (handles shader f ++ f.params.map (paramRendering table))).toList := by
    refine not_mem_joinWith (List.forall_mem_append.mpr ⟨?_, ?_⟩)
    · unfold handles
      split
      · simp [uniformsName, toList_prefixed, not_mem_of_isIdentifier hshader]
      · simp
    · rw [List.forall_mem_map]
      exact fun p hp => not_mem_paramRendering htable (hparams p hp)
  have htype : Readless (types.get f.returns.name ++ " ") :=
    readless_of_not_mem (by simp [not_mem_types_get])
  have hrest : Readless (Text.joinWith ", "
      (handles shader f ++ f.params.map (paramRendering table)) ++ ")") :=
    readless_of_not_mem (by simpa using hparts)
  have hhead := htype.append_of_ends (readless_call hword hspares)
    (endsApart_append (by decide) (by simp))
  have hall := hhead.append_of_ends hrest (endsApart_append (endsApart_append (by decide) (by simp))
    (by simp))
  simpa only [signature, String.append_assoc] using hall

lemma readless_entrySignature {shader : String} (hshader : isIdentifier shader = true) :
    Readless (entrySignature shader) := by
  have hword := isWordChar_prefixed (isWord_of_isIdentifier hshader).word
    (isWord_of_isIdentifier (by decide : isIdentifier entryPointName = true)).word
  have hinput : Readless (prefixed shader entryPointName ++
      "(FragmentIn _in [[stage_in]], constant ") :=
    readless_word_append hword (Renaming.prefixed_ne_sampleFunction shader entryPointName)
      (by decide +kernel) (by decide)
  have huniforms : Readless (uniformsName shader) := by
    refine readless_of_not_mem ?_
    simp [uniformsName, toList_prefixed, not_mem_of_isIdentifier hshader]
  have hrest : Readless "& _uniforms [[buffer(0)]], sampler _sampler [[sampler(0)]])" := by
    decide +kernel
  have hstart := Readless.append_of_ends (a := "fragment float4 ") (by decide) hinput (by decide)
  rw [← String.append_assoc] at hstart
  exact (hstart.append_of_ends huniforms (endsApart_append (by decide) (by simp))).append_of_closes
    hrest (by decide)

/-- A function as a template with a hole for each texture read of its body. -/
lemma lines_function (htable : Bare table) {shader : String} (hshader : isIdentifier shader = true)
    {f : FuncDef} (hwritable : f.writable .call = true) (hf : isIdentifier f.name = true)
    (hne : f.name ≠ sampleFunction) (hnames : ∀ v ∈ f.variables, isIdentifier v.name = true)
    (hexprs : Spelled (Stmt.exprsOf f.body)) :
    Lines (fun names => functionText names shader table f) (Stmt.exprsOf f.body) := by
  have hbody : ∀ result, (∀ r, result = some r → '(' ∉ r.toList) →
      Lines (fun names => Stmt.linesOf (phrasing names table) result 1 f.body)
        (Stmt.exprsOf f.body) := by
    intro result hresult
    refine lines_linesOf fun s hs => (lines_stmt htable hresult (f := some f.name) s ?_
      (fun v hv => hnames v ?_) (hexprs.subset fun e he => ?_) 1).1
    · rw [FuncDef.writable, Bool.and_eq_true, Stmt.allWritable_eq_true] at hwritable
      exact hwritable.2 s hs
    · rw [FuncDef.variables, Stmt.variablesOf_eq_flatMap]
      exact List.mem_append_right _ (List.mem_flatMap.mpr ⟨s, hs, hv⟩)
    · rw [Stmt.exprsOf_eq_flatMap]
      exact List.mem_flatMap.mpr ⟨s, hs, he⟩
  have haccumulator : '(' ∉ (resultName table f).toList := by
    refine htable.get ?_
    rcases f.accumulator_mem with heq | ⟨v, hv, heq⟩
    · rw [heq]
      decide
    · rw [heq]
      exact hnames v hv
  unfold functionText
  split
  · have hinit : Renders (fun _ => "float4 " ++ resultName table f ++ " = float4(0.0);") [] _ :=
      .const (Readless.append_of_closes (readless_of_not_mem (by simpa using haccumulator))
        (by decide) (by decide))
    have hreturn : Renders (fun _ => "return " ++ resultName table f ++ ";") [] _ :=
      .const (readless_of_not_mem (by simpa using haccumulator))
    have hinside := ((Lines.lineAt 1 hinit).append (hbody (some (resultName table f)) fun r hr => by
      rwa [← Option.some.inj hr])).append (Lines.lineAt 1 hreturn)
    rw [List.nil_append, List.append_nil] at hinside
    have htext := (hinside.bracedAt 0).opened
      ((readless_entrySignature hshader).append_of_closes (b := " ") (by decide) (by decide))
      (endsApart_append (by decide) (by simp))
    exact htext.closed (by decide) (by decide)
  · have hsignature := readless_signature htable hshader hf hne fun p hp =>
      hnames p.var (List.mem_append_left _ (List.mem_map_of_mem hp))
    have htext := ((hbody none (by simp)).bracedAt 0).opened
      (hsignature.append_of_closes (b := " ") (by decide) (by decide))
      (endsApart_append (by decide) (by simp))
    refine (htext.closed (t := "\n\n") (by decide) (by decide)).of_eq fun names hnames => ?_
    rw [FuncDef.text, signature, hnames f.name hne]
    rfl

/-- What a declaration needs to be a template. -/
structure Regular (x : Decl) : Prop where
  writable : x.param? = none → declWritable x = true
  declared : ∀ v ∈ x.variables, isIdentifier v.name = true
  defined : ∀ f, x = .func f → isIdentifier f.name = true ∧ f.name ≠ sampleFunction
  exprs : Spelled (writtenExprs x)

lemma lines_decl {k : Known} (hk : Bare k.variableNames) {shader : String}
    (hshader : isIdentifier shader = true) {x : Decl} (hx : Regular x) :
    Lines (fun names => declText names shader k x) (writtenExprs x) := by
  have hexprs := hx.exprs
  cases x with
  | absent => exact .const (t := "") (by decide) (by decide)
  | var v =>
    have hname : isIdentifier v.var.name = true := hx.declared v.var (List.mem_singleton.mpr rfl)
    unfold declText writtenExprs
    by_cases hparam : v.var.qualifier = .param
    · simp only [hparam, if_true]
      exact .const (by decide) (by decide)
    · simp only [writtenExprs, hparam, if_false] at hexprs ⊢
      unfold globalText
      split
      · obtain ⟨c, hc⟩ := renders_constant hk hname hexprs
        exact .lineAt 0 hc
      · obtain ⟨c, hc⟩ := renders_varDecl hk hname hexprs
        exact .lineAt 0 (((hc.opened (t := "constant ") (by decide) (by decide)).closed (t := ";")
          (by decide) (by decide)))
  | func f =>
    obtain ⟨hf, hne⟩ := hx.defined f rfl
    exact lines_function hk hshader (hx.writable rfl) hf hne hx.declared hexprs

lemma bare_behind {k : Known} (hk : Bare k.variableNames) {x : Decl} (hx : Regular x) :
    Bare (k.behind x).variableNames := by
  unfold Known.behind
  split
  · exact hk
  · rename_i v hv
    split
    · exact hk
    · have hname := not_mem_of_isIdentifier (hx.declared v (Decl.mem_variables_of_param? hv))
      refine List.forall_mem_cons.mpr ⟨by simpa using hname, fun e he => ?_⟩
      exact hk e (List.mem_of_mem_filter he)

lemma lines_decls {k : Known} (hk : Bare k.variableNames) {shader : String}
    (hshader : isIdentifier shader = true) {xs : List Decl} (hxs : ∀ x ∈ xs, Regular x) :
    Lines (fun names => declsText names shader k xs) (xs.flatMap writtenExprs) := by
  induction xs generalizing k with
  | nil => exact .const (t := "") (by decide) (by decide)
  | cons x xs ih =>
    rw [List.forall_mem_cons] at hxs
    exact (lines_decl hk hshader hxs.1).append (ih (bare_behind hk hxs.1) hxs.2)

end Msl

end Shaderwright
