import Mathlib.Data.List.Forall2
import Mathlib.Tactic.Common
import Shaderwright.Proofs.Emit.Rendering
import Shaderwright.Proofs.Msl.Renaming
import Shaderwright.Proofs.Shader.Resized
import Shaderwright.Proofs.Text.Lines

/-!
Texts that the sizes of arrays are woven into. Such a text consists of pieces that are the same for
all sizes and of declarators, in which the size of a variable stands in brackets behind its type and
its name, so it tells nothing of the sizes but there. The declarations and statements of a shader
are rendered in this way, and a change of the names keeps it.
-/

namespace Shaderwright

open Msl (endsApart endsApart_append endsApart_of_append endsApart_indentation)

def Declarator.text (size : Sizes) (d : Declarator) : String :=
  d.type ++ " " ++ d.name ++ "[" ++ toString (size d.var).toInt ++ "]"

/-- A piece of a text: what is the same for all sizes, or the declarator of an array. -/
inductive Piece where
  | plain (text : String)
  | sized (d : Declarator)

namespace Piece

def text (size : Sizes) : Piece → String
  | plain text => text
  | sized d => d.text size

def array? : Piece → Option Declarator
  | plain _ => none
  | sized d => some d

end Piece

/-- The sizes of these arrays stand in the text, in this order, each one in the declarator of its
array. All else is the same for all sizes. The type of a declarator is a word of its own and not the
rest of another one; where it is empty, nothing is known of what stands in front of the name. -/
def Woven (arrays : List Declarator) (text : Sizes → String) : Prop :=
  ∃ pieces : List Piece, pieces.filterMap Piece.array? = arrays ∧
    (∀ size, text size = String.join (pieces.map (Piece.text size))) ∧
    ∀ front d rest, pieces = front ++ .sized d :: rest → d.type ≠ "" →
      ∀ size, endsApart (String.join (front.map (Piece.text size))) = true

namespace Woven

variable {arrays arrays' : List Declarator} {t t' : Sizes → String}

/-! ### Putting texts together -/

lemma of_eq (h : Woven arrays t) (heq : ∀ size, t' size = t size) : Woven arrays t' := by
  obtain rfl : t' = t := funext heq
  exact h

lemma plain (text : String) : Woven [] fun _ => text := by
  refine ⟨[.plain text], rfl, fun size => by simp [Piece.text], fun front d rest hsplit => ?_⟩
  have hmem : Piece.sized d ∈ [Piece.plain text] := by simp [hsplit]
  simp at hmem

lemma append (h : Woven arrays t) (h' : Woven arrays' t')
    (hends : arrays' ≠ [] → ∀ size, endsApart (t size) = true) :
    Woven (arrays ++ arrays') fun size => t size ++ t' size := by
  obtain ⟨pieces, rfl, ht, hapart⟩ := h
  obtain ⟨pieces', rfl, ht', hapart'⟩ := h'
  refine ⟨pieces ++ pieces', List.filterMap_append, fun size => ?_, ?_⟩
  · show t size ++ t' size = _
    rw [ht, ht', List.map_append, String.join_append]
  · intro front d rest hsplit htype size
    rcases List.append_eq_append_iff.mp hsplit with ⟨front', rfl, hpieces'⟩ | ⟨rest', rfl, hrest⟩
    · -- the declarator stands in the second text
      rw [List.map_append, String.join_append, ← ht]
      refine endsApart_append (hapart' front' d rest hpieces' htype size) fun _ => hends ?_ size
      simp [hpieces', Piece.array?]
    · cases rest' with
      | nil =>
        obtain rfl : pieces' = .sized d :: rest := hrest.symm
        rw [List.append_nil] at ht
        rw [← ht]
        exact hends (by simp [Piece.array?]) size
      | cons piece rest' =>
        obtain ⟨rfl, -⟩ := List.cons.inj hrest
        exact hapart front d rest' rfl htype size

lemma behind (text : String) (hends : endsApart text = true) (h : Woven arrays t) :
    Woven arrays fun size => text ++ t size :=
  (plain text).append h fun _ _ => hends

lemma before (h : Woven arrays t) (text : String) : Woven arrays fun size => t size ++ text := by
  have happend := h.append (plain text) fun hne => absurd rfl hne
  rwa [List.append_nil] at happend

lemma sized (text : String) (d : Declarator) (h : d.type ≠ "" → endsApart text = true) :
    Woven [d] fun size => text ++ d.text size := by
  refine ⟨[.plain text, .sized d], rfl, fun size => by simp [Piece.text], ?_⟩
  intro front d' rest hsplit htype size
  obtain ⟨rfl, rfl⟩ : front = [.plain text] ∧ d' = d := by
    rcases front with _ | ⟨piece, _ | ⟨piece', front⟩⟩
    all_goals simp_all
  simpa [Piece.text] using h htype

lemma declared (d : Declarator) :
    Woven d.ifArray fun size => d.type ++ " " ++ d.name ++ (d.var.resized size).extent := by
  unfold Declarator.ifArray
  split
  · rename_i harray
    refine (sized "" d fun _ => by decide).of_eq fun size => ?_
    have hextent : (d.var.resized size).extent = "[" ++ toString (size d.var).toInt ++ "]" :=
      if_pos harray
    simp only [Declarator.text, hextent, String.empty_append, String.append_assoc]
  · rename_i harray
    refine (plain (d.type ++ " " ++ d.name)).of_eq fun size => ?_
    have hextent : (d.var.resized size).extent = "" := if_neg harray
    rw [hextent, String.append_empty]

/-- Many texts, one behind the other. -/
lemma join {β : Type} {items : List β} {arrays : β → List Declarator} {text : Sizes → β → String}
    (h : ∀ x ∈ items, Woven (arrays x) fun size => text size x)
    (hends : ∀ size x, endsApart (text size x) = true) :
    Woven (items.flatMap arrays) fun size => String.join (items.map (text size)) := by
  induction items with
  | nil => exact plain ""
  | cons x items ih =>
    obtain ⟨hx, hitems⟩ := List.forall_mem_cons.mp h
    exact (hx.append (ih hitems) fun _ size => hends size x).of_eq fun size => by
      rw [List.map_cons, String.join_cons]

lemma forall₂_map {β : Type} {items : List β} {arrays : β → List Declarator}
    {text : β → Sizes → String} (h : ∀ x ∈ items, Woven (arrays x) (text x)) :
    List.Forall₂ Woven (items.map arrays) (items.map text) := by
  rw [List.forall₂_map_left_iff, List.forall₂_map_right_iff, List.forall₂_same]
  exact h

lemma joinWith {items : List (Sizes → String)} {arrays : List (List Declarator)}
    (h : List.Forall₂ Woven arrays items) :
    Woven arrays.flatten fun size => Text.joinWith ", " (items.map (· size)) := by
  induction h with
  | nil => exact plain ""
  | @cons a t arrays items ht hitems ih =>
    cases hitems with
    | nil => simpa [Text.joinWith] using ht
    | cons =>
      exact ((ht.before ", ").append ih fun _ size =>
        endsApart_append (by decide) (by simp)).of_eq fun size => rfl

end Woven

/-! ### Other names -/

/-- Texts are changed piece by piece where the name of an array starts, where it ends, and behind
its size. A number stays as it is, and so does a type that is kept if it does not go on from a
word. -/
structure Piecewise (f : String → String) (keeps : String → Bool) : Prop where
  split : ∀ mark ∈ [" ", "[", "]"], ∀ a b, f (a ++ mark ++ b) = f a ++ mark ++ f b
  number : ∀ n : Int, f (toString n) = toString n
  type : ∀ a t, endsApart a = true → keeps t = true → f (a ++ t) = f a ++ t
  apart : ∀ a, endsApart a = true → endsApart (f a) = true

namespace Piecewise

variable {f g : String → String} {keeps : String → Bool}

lemma id (keeps : String → Bool) : Piecewise (fun t => t) keeps :=
  ⟨fun _ _ _ _ => rfl, fun _ => rfl, fun _ _ _ _ => rfl, fun _ h => h⟩

lemma comp (hf : Piecewise f keeps) (hg : Piecewise g keeps) : Piecewise (f ∘ g) keeps where
  split mark hmark a b := by
    rw [Function.comp_apply, hg.split mark hmark, hf.split mark hmark]
    rfl
  number n := by rw [Function.comp_apply, hg.number, hf.number]
  type a t ha ht := by
    rw [Function.comp_apply, hg.type a t ha ht, hf.type _ t (hg.apart a ha) ht]
    rfl
  apart a ha := hf.apart _ (hg.apart a ha)

lemma sized (hf : Piecewise f keeps) (a name b : String) (n : Int) :
    f (a ++ (" " ++ name ++ "[" ++ toString n ++ "]") ++ b) =
      f a ++ (" " ++ f name ++ "[" ++ toString n ++ "]") ++ f b := by
  have hmarks := hf.split
  have hassoc : ∀ x y : String, a ++ (" " ++ x ++ "[" ++ y ++ "]") ++ b =
      a ++ " " ++ (x ++ "[" ++ (y ++ "]" ++ b)) := fun x y => by simp only [String.append_assoc]
  rw [hassoc, hmarks " " (by simp), hmarks "[" (by simp), hmarks "]" (by simp), hf.number]
  simp only [String.append_assoc]

end Piecewise

/-- A declarator under another name. Its type is known only if it is kept. -/
def Declarator.changed (f : String → String) (keeps : String → Bool) (d : Declarator) :
    Declarator :=
  ⟨if keeps d.type then d.type else "", f d.name, d.var⟩

/-- What stands in front of the name is changed as one text if the type in it is not kept. -/
lemma Piecewise.declarator {f : String → String} {keeps : String → Bool} (hf : Piecewise f keeps)
    {a : String} {d : Declarator} (ha : d.type ≠ "" → endsApart a = true) :
    ∃ a', ((d.changed f keeps).type ≠ "" → endsApart a' = true) ∧ ∀ size b,
      f (a ++ d.text size ++ b) = a' ++ (d.changed f keeps).text size ++ f b := by
  have hfront : ∀ size b, a ++ d.text size ++ b = a ++ d.type ++
      (" " ++ d.name ++ "[" ++ toString (size d.var).toInt ++ "]") ++ b := by
    intro size b
    simp only [Declarator.text, String.append_assoc]
  by_cases hkeeps : keeps d.type = true ∧ d.type ≠ ""
  · refine ⟨f a, fun _ => hf.apart a (ha hkeeps.2), fun size b => ?_⟩
    rw [hfront, hf.sized, hf.type a _ (ha hkeeps.2) hkeeps.1]
    simp only [Declarator.text, Declarator.changed, if_pos hkeeps.1, String.append_assoc]
  · have hnone : (d.changed f keeps).type = "" := by
      by_cases htype : keeps d.type = true
      · exact (if_pos htype).trans (not_not.mp fun hne => hkeeps ⟨htype, hne⟩)
      · exact if_neg htype
    refine ⟨f (a ++ d.type), fun hne => absurd hnone hne, fun size b => ?_⟩
    rw [hfront, hf.sized, Declarator.text, hnone, String.empty_append]
    rfl

/-- With other names the sizes stand behind these. -/
lemma Woven.changed {f : String → String} {keeps : String → Bool} (hf : Piecewise f keeps)
    {arrays : List Declarator} {t : Sizes → String} (h : Woven arrays t) :
    Woven (arrays.map (Declarator.changed f keeps)) fun size => f (t size) := by
  obtain ⟨pieces, rfl, ht, hapart⟩ := h
  -- the plain pieces in front of a declarator are changed together
  have hpieces : ∀ a : String, (∀ front d rest, pieces = front ++ .sized d :: rest →
      d.type ≠ "" → ∀ size, endsApart (a ++ String.join (front.map (Piece.text size))) = true) →
      Woven ((pieces.filterMap Piece.array?).map (Declarator.changed f keeps))
        fun size => f (a ++ String.join (pieces.map (Piece.text size))) := by
    clear ht hapart
    induction pieces with
    | nil => exact fun a _ => (Woven.plain (f a)).of_eq fun size => by simp
    | cons piece pieces ih =>
      intro a hapart
      cases piece with
      | plain text =>
        refine (ih (a ++ text) fun front d rest hsplit htype size => ?_).of_eq fun size => ?_
        · simpa [Piece.text, String.append_assoc] using
            hapart (.plain text :: front) d rest (by rw [hsplit, List.cons_append]) htype size
        · rw [List.map_cons, String.join_cons, Piece.text, String.append_assoc]
      | sized d =>
        have hfirst : d.type ≠ "" → endsApart a = true := fun htype => by
          simpa using hapart [] d pieces rfl htype Variable.arraySize
        obtain ⟨a', hends, hchanged⟩ := hf.declarator hfirst
        have hrest := ih "" fun front d' rest hsplit htype size => by
          have hlater := hapart (.sized d :: front) d' rest (by rw [hsplit, List.cons_append]) htype
            size
          rw [List.map_cons, String.join_cons, ← String.append_assoc] at hlater
          simpa using endsApart_of_append hlater
        refine ((Woven.sized a' _ hends).append hrest fun _ size => ?_).of_eq fun size => ?_
        · rw [Declarator.text, ← String.append_assoc]
          exact endsApart_append (by decide) (by simp)
        · rw [List.map_cons, String.join_cons, ← String.append_assoc, String.empty_append]
          exact hchanged size _
  have hall := hpieces "" fun front d rest hsplit htype size => by
    simpa using hapart front d rest hsplit htype size
  exact hall.of_eq fun size => by rw [ht, String.empty_append]

/-! ### Declarations and statements -/

lemma endsApart_lineAt (depth : Nat) (t : String) : endsApart (lineAt depth t) = true := by
  rw [lineAt, ← String.append_assoc]
  exact endsApart_append (by decide) (by simp)

lemma endsApart_bracedAt (depth : Nat) (t : String) : endsApart (bracedAt depth t) = true :=
  endsApart_append (by decide) (by simp)

variable {p : Phrasing} {result : Option String} {arrays : List Declarator} {t : Sizes → String}

lemma VarDecl.woven_text (v : VarDecl) :
    Woven (v.var.declarator p.types p.variableNames).ifArray fun size =>
      (v.resized size).text p := by
  have hends : endsApart (if p.qualifiers.get v.var.qualifier.text = "" then ""
      else p.qualifiers.get v.var.qualifier.text ++ " ") = true := by
    split
    · decide
    · exact endsApart_append (by decide) (by simp)
  refine (((Woven.declared (v.var.declarator p.types p.variableNames)).behind _ hends).before
    (if v.init.isAbsent then "" else " = " ++ v.init.text p)).of_eq fun size => ?_
  simp only [VarDecl.text, String.append_assoc]
  rfl

lemma VarDecl.woven_localText (v : VarDecl) :
    Woven (Stmt.arrays p.types p.variableNames (.decl v)) fun size =>
      (v.resized size).localText p := by
  rw [Stmt.arrays]
  by_cases hconst : v.var.qualifier = .const
  · rw [if_pos hconst]
    exact (Woven.plain (v.constantText p)).of_eq fun size => if_pos hconst
  · rw [if_neg hconst]
    exact (v.woven_text.before ";").of_eq fun size => if_neg hconst

lemma Woven.lineAt (depth : Nat) (h : Woven arrays t) :
    Woven arrays fun size => Shaderwright.lineAt depth (t size) :=
  (h.before "\n").behind _ (endsApart_indentation depth)

lemma Woven.bracedAt (depth : Nat) (h : Woven arrays t) :
    Woven arrays fun size => Shaderwright.bracedAt depth (t size) :=
  ((h.behind _ (by decide)).before _).before _

namespace Stmt

lemma woven_start (p : Phrasing) (s : Stmt) :
    Woven (s.startArrays p.types p.variableNames) fun size => (s.resized size).start p := by
  cases s with
  | decl v => exact v.woven_text
  | expr x => exact .plain (x.text p)
  | _ => exact .plain ""

lemma endsApart_lines (s : Stmt) (depth : Nat) : endsApart (s.lines p result depth) = true := by
  cases s with
  | absent =>
    rw [lines]
    decide
  | block ss =>
    rw [lines]
    exact endsApart_append (by decide) (by simp)
  | _ =>
    rw [lines]
    exact endsApart_lineAt _ _

lemma woven_linesOf {ss : List Stmt} {depth : Nat}
    (h : ∀ s ∈ ss, Woven (s.arrays p.types p.variableNames)
      fun size => (s.resized size).lines p result depth) :
    Woven (arraysOf p.types p.variableNames ss) fun size =>
      linesOf p result depth (resizedAll size ss) := by
  induction ss with
  | nil =>
    rw [arraysOf]
    exact (Woven.plain "").of_eq fun size => by rw [resizedAll, linesOf]
  | cons s ss ih =>
    obtain ⟨hs, hss⟩ := List.forall_mem_cons.mp h
    rw [arraysOf]
    exact (hs.append (ih hss) fun _ size => endsApart_lines _ _).of_eq fun size => by
      rw [resizedAll, linesOf]

/-- The lines of a statement, and what stands in its braces if it is a branch. -/
lemma woven_lines (s : Stmt) : ∀ depth,
    Woven (s.arrays p.types p.variableNames) (fun size => (s.resized size).lines p result depth) ∧
      Woven (s.arrays p.types p.variableNames) fun size => (s.resized size).inBraces
        ((s.resized size).contents p result depth) ((s.resized size).lines p result depth) := by
  -- whatever is no block stands in its braces as a whole
  have hwhole : ∀ {s : Stmt} {depth : Nat},
      (∀ size contents whole, (s.resized size).inBraces contents whole = whole) →
      Woven (s.arrays p.types p.variableNames)
        (fun size => (s.resized size).lines p result depth) →
      Woven (s.arrays p.types p.variableNames)
        (fun size => (s.resized size).lines p result depth) ∧
        Woven (s.arrays p.types p.variableNames) fun size => (s.resized size).inBraces
          ((s.resized size).contents p result depth) ((s.resized size).lines p result depth) := by
    intro s depth hinside hs
    exact ⟨hs, hs.of_eq fun size => hinside size _ _⟩
  induction s using Stmt.inductOn with
  | block ss ih =>
    intro depth
    rw [arrays]
    constructor
    · have hss := woven_linesOf fun s hs => (ih s hs (depth + 1)).1
      refine (((hss.bracedAt depth).behind _ (endsApart_indentation depth)).before "\n").of_eq
        fun size => ?_
      rw [resized, lines]
    · refine (woven_linesOf fun s hs => (ih s hs depth).1).of_eq fun size => ?_
      rw [resized, inBraces, contents]
  | decl v =>
    intro depth
    refine hwhole (fun _ _ _ => rfl) ?_
    exact (v.woven_localText.lineAt depth).of_eq fun size => by rw [resized, lines]
  | ifElse cond yes no hyes hno =>
    intro depth
    refine hwhole (fun _ _ _ => rfl) ?_
    have hthen := ((hyes (depth + 1)).2.bracedAt depth).behind ("if (" ++ cond.text p ++ ") ")
      (endsApart_append (by decide) (by simp))
    rw [arrays]
    cases habsent : no.isAbsent with
    | true =>
      have hnone : no.arrays p.types p.variableNames = [] := by
        cases no with
        | absent => rw [arrays] <;> simp
        | _ => simp [Stmt.isAbsent] at habsent
      rw [hnone, List.append_nil]
      refine (hthen.lineAt depth).of_eq fun size => ?_
      simp only [resized, lines, isAbsent_resized, habsent, if_true, String.append_empty]
    | false =>
      have helse := ((hno (depth + 1)).2.bracedAt depth).behind " else " (by decide)
      refine ((hthen.append helse fun _ size => endsApart_append (endsApart_bracedAt _ _)
        fun _ => endsApart_append (by decide) (by simp)).lineAt depth).of_eq fun size => ?_
      simp only [resized, lines, isAbsent_resized, habsent, Bool.false_eq_true, if_false]
  | loop init cond post body hinit hbody =>
    intro depth
    refine hwhole (fun _ _ _ => rfl) ?_
    have hstart := ((init.woven_start p).behind "for (" (by decide)).before
      ("; " ++ cond.text p ++ "; " ++ post.text p ++ ") ")
    have hends : endsApart ("; " ++ cond.text p ++ "; " ++ post.text p ++ ") ") = true :=
      endsApart_append (by decide) (by simp)
    rw [arrays]
    refine ((hstart.append ((hbody (depth + 1)).2.bracedAt depth) fun _ size =>
      endsApart_append hends (by simp)).lineAt depth).of_eq fun size => ?_
    simp only [resized, lines, String.append_assoc]
  | _ =>
    intro depth
    refine hwhole (fun _ _ _ => rfl) ?_
    exact (Woven.plain _).of_eq fun size => by rw [resized]

lemma woven_body (p : Phrasing) (result : Option String) (ss : List Stmt) (depth : Nat) :
    Woven (arraysOf p.types p.variableNames ss) fun size =>
      linesOf p result depth (resizedAll size ss) :=
  woven_linesOf fun s _ => (s.woven_lines depth).1

end Stmt

/-! ### Functions -/

namespace FuncDef

variable {signature : Sizes → String}

lemma woven_text (p : Phrasing) (h : Woven arrays signature) (f : FuncDef) :
    Woven (arrays ++ Stmt.arraysOf p.types p.variableNames f.body) fun size =>
      (f.resized size).text p (signature size) := by
  refine ((h.before " ").append (((Stmt.woven_body p none f.body 1).bracedAt 0).before
    "\n\n") fun _ size => endsApart_append (by decide) (by simp)).of_eq fun size => ?_
  rw [FuncDef.text, FuncDef.resized, String.append_assoc]

/-- The entry point has no arrays but those of its body. -/
lemma woven_framedText (p : Phrasing) (signature first : String) (result : Option String)
    (last : String) (f : FuncDef) :
    Woven (Stmt.arraysOf p.types p.variableNames f.body) fun size =>
      (f.resized size).framedText p signature first result last := by
  have hbody := ((Stmt.woven_body p result f.body 1).behind _ (endsApart_lineAt 1 first)).before
    (lineAt 1 last)
  exact ((hbody.bracedAt 0).behind (signature ++ " ")
    (endsApart_append (by decide) (by simp))).before "\n\n"

end FuncDef

end Shaderwright
