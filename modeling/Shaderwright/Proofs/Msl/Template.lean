import Mathlib.Data.List.Chain
import Mathlib.Tactic.Common
import Shaderwright.Proofs.Msl.Interchange

/-!
Texts with holes where textures are read. The search for texture reads consumes the character in
front of a read and the parenthesis behind its name, so of two reads that stand directly behind each
other only the first one is found, and a template is routed completely exactly if it has no such
pair.
-/

namespace Shaderwright.Msl

/-! ### Texts without texture reads -/

/-- The words of a text, each with the character in front of it; the first one stands at the start
of a line. -/
def spaced (text : List Char) : List (Char × List Char) := (runs ('\n' :: text)).2

lemma spaced_eq (text : List Char) : spaced text = ('\n', (runs text).1) :: (runs text).2 := by
  have hbreak : isWordChar '\n' = false := by decide
  simp [spaced, runs, hbreak]

lemma spaced_append {text : List Char} (before : List Char)
    (h : text.head?.any isWordChar = false) :
    spaced (before ++ text) = spaced before ++ (runs text).2 := by
  rw [spaced, ← List.cons_append, runs_append _ h, spaced]

lemma runs_cons {c : Char} (hc : isWordChar c = false) (text : List Char) :
    runs (c :: text) = ([], (c, (runs text).1) :: (runs text).2) := by
  simp [runs, hc]

lemma spaced_append_cons {c : Char} (hc : isWordChar c = false) (before text : List Char) :
    spaced (before ++ c :: text) = spaced before ++ (c, (runs text).1) :: (runs text).2 := by
  rw [spaced_append before (by simpa using hc), runs_cons hc]

lemma flatMap_spaced (text : List Char) :
    (spaced text).flatMap (fun (c, word) => c :: word) = '\n' :: text := by
  rw [spaced_eq, List.flatMap_cons, List.cons_append, runs_text]

/-- Two neighbouring words that are not the name of a texture read and what it reads. -/
def NoRead (x y : Char × List Char) : Prop :=
  ¬(separates x.1 = true ∧ x.2 = sampleFunction.toList ∧ y.1 = '(')

instance (x y : Char × List Char) : Decidable (NoRead x y) :=
  inferInstanceAs (Decidable (¬_))

def Readless (t : String) : Prop := (spaced t.toList).IsChain NoRead

instance (t : String) : Decidable (Readless t) := inferInstanceAs (Decidable (List.IsChain _ _))

/-- Whether a text ends the one in front of it: a name there does not go on and is not called. -/
def closes (t : String) : Bool := t.toList.head?.any fun c => !isWordChar c && c != '('

lemma readless_of_not_mem {t : String} (h : '(' ∉ t.toList) : Readless t := by
  refine List.isChain_iff_forall_rel_of_append_cons_cons.mpr ?_
  rintro x y before after hsplit ⟨-, -, hparen⟩
  have hmem : '(' ∈ '\n' :: t.toList := by
    rw [← flatMap_spaced, hsplit]
    simp [hparen]
  exact h (by simpa using hmem)

lemma readless_word_append {name t : String} (hname : ∀ c ∈ name.toList, isWordChar c = true)
    (hne : name ≠ sampleFunction) (ht : Readless t) (hstarts : startsApart t = true) :
    Readless (name ++ t) := by
  have hhead : t.toList.head?.any isWordChar = false := by simpa [startsApart] using hstarts
  rw [Readless, spaced_eq] at ht
  rw [Readless, String.toList_append, spaced_append _ hhead, spaced_eq, runs_word hname,
    List.singleton_append, List.isChain_cons]
  exact ⟨fun y _ hread => hne (String.toList_inj.mp hread.2.1), ht.of_cons⟩

lemma readless_call {name : String} (hname : ∀ c ∈ name.toList, isWordChar c = true)
    (hne : name ≠ sampleFunction) : Readless (name ++ "(") :=
  readless_word_append hname hne (by decide) (by decide)

lemma endsApart_cases {t : String} (h : endsApart t = true) :
    t = "" ∨ ∃ init c, t.toList = init ++ [c] ∧ separates c = true := by
  rcases List.eq_nil_or_concat t.toList with hnil | ⟨init, c, hconcat⟩
  · exact .inl (String.toList_inj.mp hnil)
  · rw [List.concat_eq_append] at hconcat
    exact .inr ⟨init, c, hconcat, by simpa [endsApart, hconcat] using h⟩

lemma Readless.append_of_ends {a b : String} (ha : Readless a) (hb : Readless b)
    (h : endsApart a = true) : Readless (a ++ b) := by
  rcases endsApart_cases h with rfl | ⟨init, c, hinit, hc⟩
  · simpa using hb
  · have hword := not_word_of_separates hc
    have hbreak : separates '\n' = true := by decide
    unfold Readless at ha hb ⊢
    rw [hinit, spaced_append_cons hword] at ha
    rw [spaced_eq] at hb
    rw [String.toList_append, hinit, List.append_assoc, List.singleton_append,
      spaced_append_cons hword]
    refine List.isChain_split.mpr ⟨?_, hb.imp_head fun hy hread => hy ⟨hbreak, hread.2⟩⟩
    -- What comes behind the last character makes no difference to the word in front of it.
    rw [List.isChain_append] at ha ⊢
    refine ⟨ha.1, .singleton _, fun x hx y hy => ?_⟩
    obtain rfl : y = (c, (runs b.toList).1) := by simpa using hy.symm
    exact ha.2.2 x hx (c, []) (by simp [runs])

lemma Readless.append_of_closes {a b : String} (ha : Readless a) (hb : Readless b)
    (h : closes b = true) : Readless (a ++ b) := by
  obtain ⟨c, hhead, hword, hparen⟩ :
      ∃ c, b.toList.head? = some c ∧ isWordChar c = false ∧ c ≠ '(' := by
    simpa [closes, Option.any_eq_true] using h
  obtain ⟨rest, hrest⟩ := List.head?_eq_some_iff.mp hhead
  unfold Readless at ha hb ⊢
  rw [spaced_eq, hrest, runs_cons hword] at hb
  rw [String.toList_append, hrest, spaced_append_cons hword]
  refine List.isChain_append.mpr ⟨ha, hb.of_cons, fun x hx y hy hread => hparen ?_⟩
  obtain rfl : y = (c, (runs rest).1) := by simpa using hy.symm
  exact hread.2.2

lemma closes_ne_empty {t : String} (h : closes t = true) : t ≠ "" := by
  rintro rfl
  simp [closes] at h

/-! ### New names -/

namespace Renaming

/-- A renaming to words that leaves the function alone that reads textures. -/
structure KeepsReads (ρ : Renaming) : Prop where
  shader : ∀ c ∈ ρ.shader.toList, isWordChar c = true
  reads : sampleFunction ∉ ρ.helpers

variable {ρ : Renaming}

lemma spaced_text (hρ : ρ.KeepsReads) (t : String) : spaced (ρ.text t).toList =
    (spaced t.toList).map (renamedBehind (ρ.helpers.map String.toList) ρ.newChars) := by
  rw [spaced, Rewording.text, String.toList_ofList, ← substitute_cons ρ.nil_not_mem (by decide),
    runs_substitute (toWords hρ.shader).newChars, spaced]

lemma endsApart_text {t : String} (h : endsApart t = true) : endsApart (ρ.text t) = true := by
  rcases endsApart_cases h with rfl | ⟨init, c, hinit, hc⟩
  · rw [Rewording.text, String.toList_empty, substitute_nil ρ.nil_not_mem]
    rfl
  · have hhead : [c].head?.any isWordChar = false := by simpa using not_word_of_separates hc
    rw [endsApart, Rewording.text, String.toList_ofList, hinit,
      substitute_append_of_head ρ.nil_not_mem _ hhead, substitute_cons ρ.nil_not_mem hc]
    simpa [substitute_nil ρ.nil_not_mem] using hc

lemma text_eq_empty {t : String} : ρ.text t = "" ↔ t = "" := by
  have hrenamed : ∀ word,
      renamed (ρ.helpers.map String.toList) ρ.newChars word = [] ↔ word = [] := by
    intro word
    unfold renamed
    split
    · rename_i hmem
      refine iff_of_false ?_ ?_
      · rw [Rewording.newChars, ρ.new_eq, toList_prefixed]
        simp
      · rintro rfl
        exact ρ.nil_not_mem hmem
    · rfl
  have hruns : t.toList = [] ↔ (runs t.toList).1 = [] ∧
      (runs t.toList).2.flatMap (fun (c, word) => c :: word) = [] := by
    rw [← List.append_eq_nil_iff, runs_text]
  rw [← String.toList_inj, Rewording.text, String.toList_ofList, String.toList_empty, substitute,
    List.append_eq_nil_iff, hrenamed, substituteRest, ← String.toList_inj, String.toList_empty,
    hruns]
  simp [List.flatMap_eq_nil_iff]

end Renaming

lemma Readless.renamed {ρ : Renaming} (hρ : ρ.KeepsReads) {t : String} (h : Readless t) :
    Readless (ρ.text t) := by
  rw [Readless, Renaming.spaced_text hρ, List.isChain_map]
  refine h.imp fun x y hxy hread => hxy ⟨hread.1, ?_, hread.2.2⟩
  obtain ⟨hsep, heq, -⟩ := hread
  have hdot : x.1 ≠ '.' := ne_dot_of_separates hsep
  simp only [renamedBehind, if_neg hdot] at heq
  have hnew : ∀ n ∈ ρ.old, ρ.new n ≠ sampleFunction := fun n _ =>
    ρ.new_eq ▸ Renaming.prefixed_ne_sampleFunction _ _
  exact (Rewording.renamed_eq_sampleFunction hρ.reads hnew _).mp heq

/-! ### What is routed -/

section Route

/-- What the search makes of a text. At the start of a text, and behind a separating character that
belongs to no read, a read may come first. -/
def routed (detour : List Char) (free : Bool) (text : List Char) : List Char :=
  replaceCalls (sampleFunction.toList ++ ['(']) detour free 0 text

variable {detour : List Char}

lemma isWordChar_sampleFunction : ∀ c ∈ sampleFunction.toList, isWordChar c = true :=
  (isWord_of_isIdentifier (by decide)).word

lemma cons_routed {c : Char} (hc : separates c = true) (text : List Char) :
    c :: routed detour true text =
      redirected sampleFunction.toList detour ((c, (runs text).1) :: (runs text).2) := by
  rw [routed, cons_replaceCalls (by simp) hc, replaceCalls_eq isWordChar_sampleFunction,
    runs_cons (not_word_of_separates hc), List.nil_append]

lemma routed_false (text : List Char) : routed detour false text =
    (runs text).1 ++ redirected sampleFunction.toList detour (runs text).2 :=
  replaceCalls_eq isWordChar_sampleFunction text

lemma cons_routed_true (text : List Char) :
    '\n' :: routed detour true text = redirected sampleFunction.toList detour (spaced text) := by
  rw [cons_routed (by decide), spaced_eq]

lemma redirected_of_isChain {words : List (Char × List Char)} (h : words.IsChain NoRead) :
    redirected sampleFunction.toList detour words = words.flatMap fun (c, word) => c :: word := by
  induction words with
  | nil => rfl
  | cons x words ih =>
    rw [redirected_cons, ih h.of_cons, List.flatMap_cons, List.cons_append]
    rintro ⟨hsep, heq, next, behind, rfl⟩
    exact (List.isChain_cons_cons.mp h).1 ⟨hsep, heq, rfl⟩

/-- Behind words in which nothing is read the search starts anew. -/
lemma redirected_append {words : List (Char × List Char)} {c : Char} {word word' : List Char}
    (h : (words ++ [(c, word)]).IsChain NoRead) (rest : List (Char × List Char)) :
    redirected sampleFunction.toList detour (words ++ (c, word') :: rest) =
      words.flatMap (fun (c, word) => c :: word) ++
        redirected sampleFunction.toList detour ((c, word') :: rest) := by
  induction words with
  | nil => rfl
  | cons x words ih =>
    rw [List.cons_append, redirected_cons, ih h.of_cons, List.flatMap_cons]
    · simp
    · rintro ⟨hsep, heq, next, behind, hnext⟩
      refine (List.isChain_cons.mp h).1 ('(', (words ++ [(c, word)]).head?.elim [] Prod.snd) ?_
        ⟨hsep, heq, rfl⟩
      cases words with
      | nil => simp_all
      | cons y words => simp_all

lemma routed_text {t : String} (free : Bool) (h : Readless t) :
    routed detour free t.toList = t.toList := by
  cases free with
  | true =>
    refine List.cons_injective (?_ : '\n' :: _ = '\n' :: _)
    rw [cons_routed_true, redirected_of_isChain h, flatMap_spaced]
  | false =>
    rw [Readless, spaced_eq] at h
    rw [routed_false, redirected_of_isChain h.of_cons, runs_text]

/-- A text without reads leaves what comes behind it to the search, unless it is empty. -/
lemma routed_append {t : String} (free : Bool) (h : Readless t) (hends : endsApart t = true)
    (text : List Char) : routed detour free (t.toList ++ text) =
      t.toList ++ routed detour (free || t ≠ "") text := by
  rcases endsApart_cases hends with rfl | ⟨init, c, hinit, hc⟩
  · simp
  · have hword := not_word_of_separates hc
    have hne : t ≠ "" := by
      rintro rfl
      simp at hinit
    simp only [hne, ne_eq, not_false_eq_true, decide_true, Bool.or_true]
    rw [Readless, hinit, spaced_append_cons hword] at h
    rw [hinit, List.append_assoc, List.append_assoc, List.singleton_append, List.singleton_append,
      cons_routed hc]
    cases free with
    | true =>
      refine List.cons_injective (?_ : '\n' :: _ = '\n' :: _)
      rw [cons_routed_true, spaced_append_cons hword, redirected_append h, flatMap_spaced,
        List.cons_append]
    | false =>
      rw [spaced_eq, List.cons_append] at h
      rw [routed_false, runs_append init (by simpa using hword), runs_cons hword,
        redirected_append h.of_cons, ← List.append_assoc, runs_text]

/-- A read that may come first is routed, and one right behind it may not. -/
lemma routed_read_true (text : List Char) :
    routed detour true (sampleFunction.toList ++ ['('] ++ text) =
      detour ++ routed detour false text := by
  refine List.cons_injective (?_ : '\n' :: _ = '\n' :: _)
  rw [cons_routed_true, spaced_eq, runs_call isWordChar_sampleFunction, redirected, if_pos
    ⟨by decide, rfl, rfl⟩, routed_false]

/-- One that may not come first stays, and one right behind it is routed. -/
lemma routed_read_false (text : List Char) :
    routed detour false (sampleFunction.toList ++ ['('] ++ text) =
      sampleFunction.toList ++ ['('] ++ routed detour true text := by
  rw [routed_false, runs_call isWordChar_sampleFunction, ← cons_routed (by decide)]
  simp

end Route

/-! ### Templates -/

/-- A text with holes in it. -/
inductive Template where
  | text (t : String)
  /-- A text up to its first hole, and what comes behind the hole. -/
  | hole (t : String) (behind : Template)

namespace Template

open Renaming

def fill (head : String) : Template → String
  | text t => t
  | hole t c => t ++ (head ++ c.fill head)

/-- The text with a detour in every hole, except that a hole directly behind one with a detour in it
keeps the plain text. -/
def alternate (plain detour : String) : Bool → Template → String
  | _, text t => t
  | free, hole t c =>
    t ++ if free || t ≠ "" then detour ++ c.alternate plain detour false
      else plain ++ c.alternate plain detour true

def holes : Template → Nat
  | text _ => 0
  | hole _ c => c.holes + 1

def map (f : String → String) : Template → Template
  | text t => text (f t)
  | hole t c => hole (f t) (c.map f)

def leads : Template → Bool
  | text _ => false
  | hole t _ => t = ""

/-- Whether no hole stands directly behind another one. -/
def spread : Template → Bool
  | text _ => true
  | hole _ c => !c.leads && c.spread

/-- Whether the only texture reads are in the holes, where they can be found. -/
def Sound : Template → Prop
  | text t => Readless t
  | hole t c => Readless t ∧ endsApart t = true ∧ c.Sound

variable {c d : Template}

/-- Routing gives every hole the detour that it can. -/
lemma routed_fill (h : c.Sound) (detour : String) (free : Bool) :
    routed detour.toList free (c.fill (sampleFunction ++ "(")).toList =
      (c.alternate (sampleFunction ++ "(") detour free).toList := by
  induction c generalizing free with
  | text t => exact routed_text free h
  | hole t c ih =>
    obtain ⟨ht, hends, hc⟩ := h
    have hhead : ∀ u : String, (sampleFunction ++ "(" ++ u).toList =
        sampleFunction.toList ++ ['('] ++ u.toList := fun u => by simp
    rw [fill, String.toList_append, routed_append free ht hends, hhead, alternate,
      String.toList_append]
    congr 1
    cases hfree : (free || decide (t ≠ "")) with
    | true => rw [routed_read_true, ih hc, if_pos rfl, String.toList_append]
    | false => rw [routed_read_false, ih hc, if_neg (by simp), hhead]

/-- All holes get the detour exactly if no one stands directly behind another. -/
lemma alternate_eq_fill_iff {plain detour : String} (hne : ∀ a b, plain ++ a ≠ detour ++ b)
    (c : Template) (free : Bool) :
    c.alternate plain detour free = c.fill detour ↔ (free = true ∨ c.leads = false) ∧
      c.spread = true := by
  induction c generalizing free with
  | text t => simp [alternate, fill, leads, spread]
  | hole t c ih =>
    have hfree : (free || decide (t ≠ "")) = true ↔ free = true ∨ leads (hole t c) = false := by
      simp [leads]
    rw [alternate, fill, String.append_right_inj, spread]
    by_cases h : (free || decide (t ≠ "")) = true
    · rw [if_pos h, String.append_right_inj, ih, ← hfree, h]
      simp
    · rw [if_neg h, ← hfree]
      exact iff_of_false (hne _ _) fun hall => h hall.1

/-! ### Renaming -/

variable {ρ : Renaming}

/-- A read keeps its place under the new names. -/
lemma text_fill (hρ : ρ.KeepsReads) (h : c.Sound) :
    ρ.text (c.fill (sampleFunction ++ "(")) = (c.map ρ.text).fill (sampleFunction ++ "(") := by
  induction c with
  | text t => rfl
  | hole t c ih =>
    obtain ⟨-, hends, hc⟩ := h
    have hhead : ρ.text (sampleFunction ++ "(") = sampleFunction ++ "(" := by
      rw [ρ.text_append_of_starts _ (by decide),
        (Rewording.fixes_of_isPunctuation (by decide) : ρ.text "(" = "("),
        (Rewording.fixes_word isWordChar_sampleFunction hρ.reads : ρ.text sampleFunction = _)]
    rw [fill, ρ.text_append_of_ends _ hends, ρ.text_append_of_ends _ (by decide), hhead, ih hc, map,
      fill]

lemma Sound.map (hρ : ρ.KeepsReads) (h : c.Sound) : (c.map ρ.text).Sound := by
  induction c with
  | text t => exact h.renamed hρ
  | hole t c ih => exact ⟨h.1.renamed hρ, Renaming.endsApart_text h.2.1, ih h.2.2⟩

lemma leads_map (c : Template) : (c.map ρ.text).leads = c.leads := by
  cases c with
  | text t => rfl
  | hole t c => simp [map, leads, Renaming.text_eq_empty]

lemma spread_map (c : Template) : (c.map ρ.text).spread = c.spread := by
  induction c with
  | text t => rfl
  | hole t c ih => rw [map, spread, spread, leads_map, ih]

/-! ### Templates from pieces -/

def prepend (t : String) : Template → Template
  | text u => text (t ++ u)
  | hole u c => hole (t ++ u) c

def append : Template → Template → Template
  | text t, d => d.prepend t
  | hole t c, d => hole t (c.append d)

instance : Append Template := ⟨append⟩

def ending : Template → String
  | text t => t
  | hole _ c => c.ending

lemma text_append (t : String) (d : Template) : text t ++ d = d.prepend t := rfl

lemma hole_append (t : String) (c d : Template) : hole t c ++ d = hole t (c ++ d) := rfl

@[simp] lemma fill_prepend (head t : String) (c : Template) :
    (c.prepend t).fill head = t ++ c.fill head := by
  cases c <;> simp [prepend, fill, String.append_assoc]

@[simp] lemma fill_append (head : String) (c d : Template) :
    (c ++ d).fill head = c.fill head ++ d.fill head := by
  induction c with
  | text t => rw [text_append, fill_prepend, fill]
  | hole t c ih => simp only [hole_append, fill, ih, String.append_assoc]

@[simp] lemma holes_prepend (t : String) (c : Template) : (c.prepend t).holes = c.holes := by
  cases c <;> rfl

@[simp] lemma holes_append (c d : Template) : (c ++ d).holes = c.holes + d.holes := by
  induction c with
  | text t => simp [text_append, holes]
  | hole t c ih => simp only [hole_append, holes, ih, Nat.add_right_comm]

lemma Sound.prepend {t : String} (hc : c.Sound) (ht : Readless t) (hends : endsApart t = true) :
    (c.prepend t).Sound := by
  cases c with
  | text u => exact ht.append_of_ends hc hends
  | hole u c =>
    exact ⟨ht.append_of_ends hc.1 hends, endsApart_append hc.2.1 fun _ => hends, hc.2.2⟩

lemma Sound.append (hc : c.Sound) (hd : d.Sound) (hends : endsApart c.ending = true) :
    (c ++ d).Sound := by
  induction c with
  | text t => exact hd.prepend hc hends
  | hole t c ih => exact ⟨hc.1, hc.2.1, ih hc.2.2 hends⟩

lemma Sound.append_text {t : String} (hc : c.Sound) (ht : Readless t) (hcloses : closes t = true) :
    (c ++ text t).Sound := by
  induction c with
  | text u => exact Readless.append_of_closes hc ht hcloses
  | hole u c ih => exact ⟨hc.1, hc.2.1, ih hc.2.2⟩

lemma leads_prepend (t : String) (c : Template) :
    (c.prepend t).leads = (decide (t = "") && c.leads) := by
  cases c <;> simp [prepend, leads]

/-- Where a template starts does not depend on what comes behind it, if it ends with some text. -/
lemma leads_append (h : c.ending ≠ "") (d : Template) : (c ++ d).leads = c.leads := by
  cases c with
  | text t =>
    have hne : decide (t = "") = false := decide_eq_false h
    rw [text_append, leads_prepend, hne, Bool.false_and, leads]
  | hole t c => rfl

lemma leads_append_text (c : Template) (t : String) : (c ++ text t).leads = c.leads := by
  cases c <;> rfl

lemma spread_prepend (t : String) (c : Template) : (c.prepend t).spread = c.spread := by
  cases c <;> rfl

lemma spread_append (h : c.holes ≠ 0 → c.ending ≠ "") (d : Template) :
    (c ++ d).spread = (c.spread && d.spread) := by
  induction c with
  | text t => simp [text_append, spread_prepend, spread]
  | hole t c ih =>
    have hending : c.ending ≠ "" := h (by simp [holes])
    rw [hole_append, spread, leads_append hending, ih fun _ => hending, spread, Bool.and_assoc]

lemma ending_prepend (t : String) (c : Template) :
    (c.prepend t).ending = if c.holes = 0 then t ++ c.ending else c.ending := by
  cases c <;> simp [prepend, ending, holes]

lemma ending_append (c d : Template) :
    (c ++ d).ending = if d.holes = 0 then c.ending ++ d.ending else d.ending := by
  induction c with
  | text t => rw [text_append, ending_prepend, ending]
  | hole t c ih => rw [hole_append, ending, ih, ending]

@[simp] lemma ending_append_text (c : Template) (t : String) :
    (c ++ text t).ending = c.ending ++ t := by
  rw [ending_append, holes, if_pos rfl, ending]

end Template

end Shaderwright.Msl
