import Mathlib.Tactic.Common
import Shaderwright.Document.File
import Shaderwright.Proofs.Document.RoundTrip
import Shaderwright.Proofs.Files.Keeping

/-!
Changing a document and reading it again. Whatever document was read from a text, it is read back
from its own text after any changes whose lines keep to the sections they go into. It makes no
difference, then, whether a file is read and written for each change or once for all of them.
-/

namespace Shaderwright.Document

open Shaderwright.Text

/-! ### Entries -/

variable {key : String → Option String}

instance (key : String → Option String) (e : DocumentEntry) : Decidable (Keyed key e) :=
  match h : e.lines with
  | [] => .isFalse (by simp [Keyed, h])
  | first :: rest =>
    decidable_of_iff (key first = some e.key ∧ ∀ l ∈ rest, key l = none) (by simp [Keyed, h])

/-- The lines in front of the first key line. -/
def Unkeyed (key : String → Option String) (e : DocumentEntry) : Prop :=
  e.key = "" ∧ e.lines ≠ [] ∧ ∀ l ∈ e.lines, key l = none

/-- Entries as they are read: each starts with its key line, but for a first one that has none. -/
def Grouped (key : String → Option String) : List DocumentEntry → Prop
  | [] => True
  | e :: es => (Keyed key e ∨ Unkeyed key e) ∧ ∀ e' ∈ es, Keyed key e'

lemma lines_group (key : String → Option String) (ls : List String) :
    (entriesOf.group key ls).1 ++ (entriesOf.group key ls).2.flatMap DocumentEntry.lines = ls := by
  induction ls with
  | nil => rfl
  | cons l ls ih =>
    rw [entriesOf.group]
    rcases hl : key l with _ | k
    · simp [ih]
    · simp [ih]

lemma keyed_group (key : String → Option String) (ls : List String) :
    (∀ l ∈ (entriesOf.group key ls).1, key l = none) ∧
      ∀ e ∈ (entriesOf.group key ls).2, Keyed key e := by
  induction ls with
  | nil => simp [entriesOf.group]
  | cons l ls ih =>
    obtain ⟨hbody, hothers⟩ := ih
    rw [entriesOf.group]
    rcases hl : key l with _ | k
    · exact ⟨by simpa [hl] using hbody, hothers⟩
    · refine ⟨by simp, ?_⟩
      simp only [List.forall_mem_cons]
      exact ⟨⟨l, _, rfl, hl, hbody⟩, hothers⟩

lemma lines_entriesOf (key : String → Option String) (ls : List String) :
    (entriesOf key ls).flatMap DocumentEntry.lines = ls := by
  cases ls with
  | nil => rfl
  | cons l ls => simp [entriesOf, lines_group]

lemma grouped_entriesOf (key : String → Option String) (ls : List String) :
    Grouped key (entriesOf key ls) := by
  cases ls with
  | nil => trivial
  | cons l ls =>
    obtain ⟨hbody, hothers⟩ := keyed_group key ls
    rw [entriesOf]
    refine ⟨?_, hothers⟩
    rcases hl : key l with _ | k
    · right
      exact ⟨rfl, by simp, by simpa [hl] using hbody⟩
    · left
      exact ⟨l, _, rfl, hl, hbody⟩

/-- Grouped entries are found again in their lines. -/
lemma Grouped.entriesOf_lines {es : List DocumentEntry} (h : Grouped key es) :
    entriesOf key (es.flatMap DocumentEntry.lines) = es := by
  cases es with
  | nil => rfl
  | cons e es =>
    obtain ⟨hkeyed | ⟨hkey, hne, hnone⟩, hes⟩ := h
    · exact entriesOf_flatMap (by simpa using ⟨hkeyed, hes⟩)
    · obtain ⟨k, lines⟩ := e
      obtain ⟨l, body, rfl⟩ := List.exists_cons_of_ne_nil hne
      obtain ⟨hl, hbody⟩ := List.forall_mem_cons.mp hnone
      rw [List.flatMap_cons, List.cons_append, entriesOf, group_append hbody, group_flatMap hes]
      simpa [hl] using hkey.symm

def upserted (k : String) (lines : List String) (es : List DocumentEntry) : List DocumentEntry :=
  if es.any fun e => e.key = k then replaceEntry k lines es else es ++ [⟨k, lines⟩]

section Upserted

variable {k : String} {lines : List String} {e : DocumentEntry} {es : List DocumentEntry}

lemma upserted_cons_of_eq (h : e.key = k) : upserted k lines (e :: es) = ⟨k, lines⟩ :: es := by
  simp [upserted, replaceEntry, h]

lemma upserted_cons_of_ne (h : e.key ≠ k) :
    upserted k lines (e :: es) = e :: upserted k lines es := by
  by_cases hany : es.any fun e => e.key = k
  · simp [upserted, replaceEntry, h, hany]
  · simp only [upserted, List.any_cons, h, decide_false, Bool.false_or, hany, Bool.false_eq_true,
      if_false, List.cons_append]

lemma mem_upserted {d : DocumentEntry} (h : d ∈ upserted k lines es) :
    d ∈ es ∨ d = ⟨k, lines⟩ := by
  induction es with
  | nil => exact .inr (List.mem_singleton.mp h)
  | cons e es ih =>
    by_cases he : e.key = k
    · rw [upserted_cons_of_eq he] at h
      rcases List.mem_cons.mp h with rfl | h
      · exact .inr rfl
      · exact .inl (List.mem_cons_of_mem _ h)
    · rw [upserted_cons_of_ne he] at h
      rcases List.mem_cons.mp h with rfl | h
      · exact .inl List.mem_cons_self
      · exact (ih h).imp_left (List.mem_cons_of_mem _)

/-- An upsert leaves the keys in their places, and a new one goes to the end. -/
lemma keys_upserted (k : String) (lines : List String) (es : List DocumentEntry) :
    (upserted k lines es).map DocumentEntry.key =
      if k ∈ es.map DocumentEntry.key then es.map DocumentEntry.key
      else es.map DocumentEntry.key ++ [k] := by
  induction es with
  | nil => rfl
  | cons e es ih =>
    by_cases he : e.key = k
    · simp [upserted_cons_of_eq he, he]
    · have he' : k ≠ e.key := fun h => he h.symm
      rw [upserted_cons_of_ne he, List.map_cons, List.map_cons, ih]
      by_cases hmem : k ∈ es.map DocumentEntry.key
      · rw [if_pos hmem, if_pos (List.mem_cons_of_mem _ hmem)]
      · rw [if_neg hmem, if_neg (by simp only [List.mem_cons, not_or]; exact ⟨he', hmem⟩),
          List.cons_append]

lemma find?_upserted (k : String) (lines : List String) (es : List DocumentEntry) (s : String) :
    (upserted k lines es).find? (fun e => e.key = s) =
      if k = s then some ⟨k, lines⟩ else es.find? fun e => e.key = s := by
  induction es with
  | nil => by_cases hs : k = s <;> simp [upserted, hs]
  | cons e es ih =>
    by_cases he : e.key = k
    · rw [upserted_cons_of_eq he, List.find?_cons, List.find?_cons, he]
      by_cases hs : k = s <;> simp [hs]
    · rw [upserted_cons_of_ne he, List.find?_cons, List.find?_cons, ih]
      by_cases hs : e.key = s
      · have hk : k ≠ s := fun h => he (hs.trans h.symm)
        simp [hs, hk]
      · simp [hs]

lemma Grouped.upserted (hnew : Keyed key ⟨k, lines⟩) (h : Grouped key es) :
    Grouped key (upserted k lines es) := by
  cases es with
  | nil => exact ⟨.inl hnew, by simp⟩
  | cons e es =>
    obtain ⟨hfirst, hes⟩ := h
    by_cases he : e.key = k
    · rw [upserted_cons_of_eq he]
      exact ⟨.inl hnew, hes⟩
    · -- behind the first entry all that an upsert puts in is keyed, as everything was before
      rw [upserted_cons_of_ne he]
      refine ⟨hfirst, fun d hd => ?_⟩
      rcases mem_upserted hd with hd | rfl
      · exact hes d hd
      · exact hnew

end Upserted

/-! ### Sections in their places -/

variable {sections : List Section} {rest : List String}

/-- What a block of a laid out document is. -/
lemma Laid.block {blocks : List Block} (h : Laid sections blocks rest) {b : Block}
    (hb : b ∈ blocks) :
    b.spec ∈ sections ∧ b.before ≠ [] ∧
      (∀ l ∈ b.entries.flatMap DocumentEntry.lines, isMarker b.spec.closing l = false) ∧
      Grouped b.spec.key b.entries := by
  induction sections generalizing blocks with
  | nil =>
    cases blocks with
    | nil => simp at hb
    | cons c blocks => exact h.elim
  | cons s sections ih =>
    cases blocks with
    | nil => exact h.elim
    | cons c blocks =>
      obtain ⟨hspec, ⟨before, opening, hbefore, -, -⟩, hbody, hentries, -, hrest⟩ := h
      rcases List.mem_cons.mp hb with rfl | hb
      · subst hspec
        refine ⟨List.mem_cons_self, by simp [hbefore], hbody, ?_⟩
        rw [← hentries]
        exact grouped_entriesOf _ _
      · obtain ⟨hmem, hothers⟩ := ih hrest hb
        exact ⟨List.mem_cons_of_mem _ hmem, hothers⟩

/-- Where a text starts does not depend on the entries of a section. -/
lemma head?_lines_replace {b b' : Block} (hbefore : b'.before = b.before) (hne : b.before ≠ [])
    (pre post : List Block) (rest : List String) :
    ((pre ++ b' :: post).flatMap Block.lines ++ rest).head? =
      ((pre ++ b :: post).flatMap Block.lines ++ rest).head? := by
  induction pre with
  | nil =>
    obtain ⟨l, ls, hls⟩ := List.exists_cons_of_ne_nil hne
    simp [Block.lines, hbefore, hls]
  | cons c pre ih =>
    simp only [List.cons_append, List.flatMap_cons, List.append_assoc]
    simp only [List.head?_append] at ih ⊢
    rw [ih]

/-- A section can take up any entries that can be read in its place. -/
lemma Laid.replace {pre post : List Block} {b b' : Block}
    (h : Laid sections (pre ++ b :: post) rest) (hbefore : b'.before = b.before)
    (hspec : b'.spec = b.spec)
    (hbody : ∀ l ∈ b'.entries.flatMap DocumentEntry.lines, isMarker b.spec.closing l = false)
    (hgrouped : Grouped b.spec.key b'.entries) :
    Laid sections (pre ++ b' :: post) rest := by
  induction pre generalizing sections with
  | nil =>
    cases sections with
    | nil => exact h.elim
    | cons s sections =>
      obtain ⟨hs, hopening, -, -, hclosing, hrest⟩ := h
      subst hs
      exact ⟨hspec, by rwa [hbefore], hbody, hgrouped.entriesOf_lines, hclosing, hrest⟩
  | cons c pre ih =>
    cases sections with
    | nil => exact h.elim
    | cons s sections =>
      rw [List.cons_append] at h ⊢
      obtain ⟨hs, hopening, hbody', hentries, ⟨closing, behind, hbehind, hclosing⟩, hrest⟩ := h
      obtain ⟨-, hne, -⟩ := hrest.block (b := b) (by simp)
      have hhead := head?_lines_replace hbefore hne pre post rest
      rw [hbehind, List.head?_cons, List.head?_eq_some_iff] at hhead
      obtain ⟨behind', hbehind'⟩ := hhead
      exact ⟨hs, hopening, hbody', hentries, ⟨closing, behind', hbehind', hclosing⟩, ih hrest⟩

/-! ### Reading -/

lemma splitAtMarker_eq_some {marker line : String} {ls before behind : List String}
    (h : splitAtMarker marker ls = some (before, line, behind)) :
    ls = before ++ line :: behind ∧ (∀ l ∈ before, isMarker marker l = false) ∧
      isMarker marker line = true := by
  induction ls generalizing before with
  | nil => simp [splitAtMarker] at h
  | cons l ls ih =>
    rw [splitAtMarker] at h
    split at h
    · rename_i hl
      simp only [Option.some.injEq, Prod.mk.injEq] at h
      obtain ⟨rfl, rfl, rfl⟩ := h
      exact ⟨rfl, by simp, hl⟩
    · rename_i hl
      rcases hs : splitAtMarker marker ls with _ | ⟨before', line', behind'⟩
      · simp [hs] at h
      · simp only [hs, Option.map_some, Option.some.injEq, Prod.mk.injEq] at h
        obtain ⟨rfl, rfl, rfl⟩ := h
        obtain ⟨rfl, hbefore, hline⟩ := ih hs
        exact ⟨rfl, by simpa [hl] using hbefore, hline⟩

lemma laid_of_ofLines {all ls : List String} {doc : Document}
    (h : ofLines all sections ls = .ok doc) :
    Laid sections doc.blocks doc.rest ∧ doc.lines = ls := by
  induction sections generalizing ls doc with
  | nil =>
    simp only [ofLines, Except.ok.injEq] at h
    subst h
    exact ⟨trivial, rfl⟩
  | cons s sections ih =>
    rw [ofLines] at h
    rcases hopening : splitAtMarker s.opening ls with _ | ⟨before, opening, behind⟩
    · simp [hopening] at h
    rcases hclosing : splitAtMarker s.closing behind with _ | ⟨body, closing, ls'⟩
    · simp [hopening, hclosing] at h
    rcases hrest : ofLines all sections (closing :: ls') with e | doc'
    · simp [hopening, hclosing, hrest, bind, Except.bind] at h
    · simp only [hopening, hclosing, hrest, bind, Except.bind, pure, Except.pure,
        Except.ok.injEq] at h
      subst h
      obtain ⟨hlaid, hlines⟩ := ih hrest
      obtain ⟨rfl, hbefore, hopen⟩ := splitAtMarker_eq_some hopening
      obtain ⟨rfl, hbody, hclose⟩ := splitAtMarker_eq_some hclosing
      have hentries := lines_entriesOf s.key body
      refine ⟨⟨rfl, ⟨before, opening, rfl, hbefore, hopen⟩, ?_, ?_, ⟨closing, ls', hlines, hclose⟩,
        hlaid⟩, ?_⟩
      · rwa [hentries]
      · rw [hentries]
      · simp only [Document.lines] at hlines
        simp [Document.lines, Block.lines, hentries, hlines]

/-- A document that is read back from its own text. -/
structure Readable (sections : List Section) (doc : Document) : Prop where
  laid : Laid sections doc.blocks doc.rest
  ne_nil : doc.lines ≠ []
  isLine : ∀ l ∈ doc.lines, IsLine l

lemma Readable.parse_text {doc : Document} (h : Readable sections doc) :
    parse sections doc.text = .ok doc :=
  Document.parse_text h.laid h.ne_nil h.isLine

lemma lines_of_parse {text : String} {doc : Document} (h : parse sections text = .ok doc) :
    doc.lines = Text.lines text :=
  (laid_of_ofLines h).2

lemma readable_of_parse {text : String} {doc : Document} (h : parse sections text = .ok doc) :
    Readable sections doc := by
  refine ⟨(laid_of_ofLines h).1, ?_, ?_⟩
  · rw [lines_of_parse h]
    exact lines_ne_nil text
  · rw [lines_of_parse h]
    exact fun l hl => notMem_of_mem_pieces hl

/-- A document that was only read has the text that it was read from. -/
lemma text_of_parse {text : String} {doc : Document} (h : parse sections text = .ok doc) :
    doc.text = text := by
  rw [Document.text, lines_of_parse h, unlines_lines]

/-! ### Changes -/

inductive Edit where
  | upsert (name key : String) (lines : List String)
  | set (name : String) (lines : List String)

namespace Edit

def target : Edit → String
  | upsert name _ _ => name
  | set name _ => name

def lines : Edit → List String
  | upsert _ _ lines => lines
  | set _ lines => lines

def apply (e : Edit) (doc : Document) : Except DocumentError Document :=
  match e with
  | upsert name key lines => (doc.upsert name key lines).map Prod.snd
  | set name lines => doc.set name lines

/-- The lines keep to the section they go into: none breaks or closes it, and what is put in under
a key has this key in its first line and no other key line. -/
def Fits (sections : List Section) (e : Edit) : Prop :=
  ∀ s ∈ sections, s.name = e.target →
    (∀ l ∈ e.lines, IsLine l ∧ isMarker s.closing l = false) ∧
    match e with
    | upsert _ key lines => Keyed s.key ⟨key, lines⟩
    | set _ _ => True

instance (sections : List Section) : (e : Edit) → Decidable (e.Fits sections)
  | upsert name key lines => inferInstanceAs (Decidable (∀ s ∈ sections, s.name = name →
      (∀ l ∈ lines, IsLine l ∧ isMarker s.closing l = false) ∧ Keyed s.key ⟨key, lines⟩))
  | set name lines => inferInstanceAs (Decidable (∀ s ∈ sections, s.name = name →
      (∀ l ∈ lines, IsLine l ∧ isMarker s.closing l = false) ∧ True))

def contents (e : Edit) (b : Block) : List DocumentEntry :=
  match e with
  | upsert _ key lines => upserted key lines b.entries
  | set _ lines => entriesOf b.spec.key lines

end Edit

/-- The document after a change. One that is refused leaves it as it is. -/
def edited (doc : Document) (e : Edit) : Document :=
  match e.apply doc with
  | .ok doc' => doc'
  | .error _ => doc

def editedAll (doc : Document) (es : List Edit) : Document := es.foldl edited doc

lemma block?_eq_some {doc : Document} {name : String} {b : Block} (h : doc.block? name = some b) :
    ∃ pre post, doc.blocks = pre ++ b :: post ∧ b.spec.name = name ∧
      ∀ c ∈ post, c.spec.name ≠ name := by
  obtain ⟨hb, post, pre, hblocks, hpost⟩ := List.find?_eq_some_iff_append.mp h
  refine ⟨pre.reverse, post.reverse, ?_, by simpa using hb, ?_⟩
  · rw [← List.reverse_inj, hblocks]
    simp
  · intro c hc
    simpa using hpost c (List.mem_reverse.mp hc)

lemma updateLast_append {name : String} {b : Block} (f : Block → Block) (pre : List Block)
    {post : List Block} (hb : b.spec.name = name) (hpost : ∀ c ∈ post, c.spec.name ≠ name) :
    updateLast name f (pre ++ b :: post) = pre ++ f b :: post := by
  induction pre with
  | nil =>
    have hnone : (post.any fun r => r.spec.name = name) = false := by simpa using hpost
    simp [updateLast, hb, hnone]
  | cons c pre ih =>
    have hlater : ((pre ++ b :: post).any fun r => r.spec.name = name) = true := by simp [hb]
    rw [List.cons_append, updateLast, hlater, ih]
    simp

/-- A change that is not refused gives one section other entries and leaves everything else. -/
lemma apply_eq_ok {e : Edit} {doc doc' : Document} (h : e.apply doc = .ok doc') :
    ∃ pre b post, doc.blocks = pre ++ b :: post ∧ b.spec.name = e.target ∧
      doc' = ⟨pre ++ { b with entries := e.contents b } :: post, doc.rest⟩ := by
  cases e with
  | upsert name key lines =>
    simp only [Edit.apply, upsert] at h
    rcases hb : doc.block? name with _ | b
    · simp [hb, Except.map] at h
    obtain ⟨pre, post, hblocks, hname, hpost⟩ := block?_eq_some hb
    by_cases hkey : key = ""
    · simp [hb, hkey, Except.map] at h
    · simp only [hb, if_neg hkey, Except.map, Except.ok.injEq, hblocks,
        updateLast_append _ pre hname hpost] at h
      exact ⟨pre, b, post, hblocks, hname, h.symm⟩
  | set name lines =>
    simp only [Edit.apply, set] at h
    rcases hb : doc.block? name with _ | b
    · simp [hb] at h
    obtain ⟨pre, post, hblocks, hname, hpost⟩ := block?_eq_some hb
    simp only [hb, Except.ok.injEq, hblocks, updateLast_append _ pre hname hpost] at h
    exact ⟨pre, b, post, hblocks, hname, h.symm⟩

lemma mem_lines_contents {e : Edit} {b : Block} {l : String}
    (h : l ∈ (e.contents b).flatMap DocumentEntry.lines) :
    l ∈ b.entries.flatMap DocumentEntry.lines ∨ l ∈ e.lines := by
  cases e with
  | set name lines =>
    rw [Edit.contents, lines_entriesOf] at h
    exact .inr h
  | upsert name key lines =>
    obtain ⟨d, hd, hl⟩ := List.mem_flatMap.mp h
    rcases mem_upserted hd with hd | rfl
    · exact .inl (List.mem_flatMap.mpr ⟨d, hd, hl⟩)
    · exact .inr hl

lemma grouped_contents {e : Edit} (he : e.Fits sections) {b : Block} (hspec : b.spec ∈ sections)
    (hname : b.spec.name = e.target) (hgrouped : Grouped b.spec.key b.entries) :
    Grouped b.spec.key (e.contents b) := by
  cases e with
  | set name lines => exact grouped_entriesOf _ _
  | upsert name key lines => exact hgrouped.upserted (he b.spec hspec hname).2

/-- A change whose lines keep to their section leaves the document readable. -/
lemma Readable.edited {doc : Document} (h : Readable sections doc) {e : Edit}
    (he : e.Fits sections) : Readable sections (doc.edited e) := by
  unfold Document.edited
  rcases happly : e.apply doc with err | doc'
  · exact h
  obtain ⟨pre, b, post, hblocks, hname, rfl⟩ := apply_eq_ok happly
  have hlaid : Laid sections (pre ++ b :: post) doc.rest := hblocks ▸ h.laid
  obtain ⟨hspec, hbefore, hbody, hgrouped⟩ := hlaid.block (b := b) (by simp)
  obtain ⟨hlines, -⟩ := he b.spec hspec hname
  refine ⟨hlaid.replace rfl rfl ?_ (grouped_contents he hspec hname hgrouped), ?_, ?_⟩
  · intro l hl
    rcases mem_lines_contents hl with hl | hl
    · exact hbody l hl
    · exact (hlines l hl).2
  · simp [Document.lines, Block.lines, hbefore]
  · -- every line was there before or came with the change
    intro l hl
    have hold : ∀ l ∈ doc.lines, IsLine l := h.isLine
    simp only [Document.lines, Block.lines, hblocks, List.flatMap_append, List.flatMap_cons,
      List.mem_append] at hl hold
    rcases hl with (hl | (hl | hl) | hl) | hl
    · exact hold l (.inl (.inl hl))
    · exact hold l (.inl (.inr (.inl (.inl hl))))
    · rcases mem_lines_contents hl with hl | hl
      · exact hold l (.inl (.inr (.inl (.inr hl))))
      · exact (hlines l hl).1
    · exact hold l (.inl (.inr (.inr hl)))
    · exact hold l (.inr hl)

lemma Readable.editedAll {doc : Document} (h : Readable sections doc) {es : List Edit}
    (hes : ∀ e ∈ es, e.Fits sections) : Readable sections (doc.editedAll es) := by
  induction es generalizing doc with
  | nil => exact h
  | cons e es ih =>
    obtain ⟨he, hes⟩ := List.forall_mem_cons.mp hes
    exact ih (h.edited he) hes

end Shaderwright.Document

namespace Shaderwright

/-! ### Files -/

/-- Change the document in a file: it is read, changed and written back. -/
def FileTree.mergeEdit (t : FileTree) (path skeleton : String) (sections : List Section)
    (e : Document.Edit) : FileTree :=
  (t.merge path skeleton sections fun doc => (e.apply doc).map ((), ·)).files

namespace Document

variable {sections : List Section}

lemma read_mergeEdit {t : FileTree} {path text : String} (hread : t.read path = .ok text)
    (hopen : t.Unlocked path) {doc : Document} (hparse : parse sections text = .ok doc)
    (skeleton : String) (e : Edit) :
    (t.mergeEdit path skeleton sections e).read path = .ok (doc.edited e).text := by
  have hor : t.readOr path skeleton = (.ok text, t) := by simp [FileTree.readOr, hread]
  unfold FileTree.mergeEdit FileTree.merge Document.edited
  simp only [hor, hparse]
  rcases e.apply doc with err | doc'
  · simpa [Except.map, text_of_parse hparse] using hread
  · obtain ⟨t', hwrite⟩ := FileTree.write_of_read hread hopen doc'.text
    simpa [Except.map, hwrite] using FileTree.read_write hwrite

lemma read_mergeEdits {t : FileTree} {path text : String} (hread : t.read path = .ok text)
    (hopen : t.Unlocked path) {doc : Document} (hparse : parse sections text = .ok doc)
    (skeleton : String) {es : List Edit} (hes : ∀ e ∈ es, e.Fits sections) :
    (es.foldl (fun t e => t.mergeEdit path skeleton sections e) t).read path =
      .ok (doc.editedAll es).text := by
  induction es generalizing t text doc with
  | nil => simpa [editedAll, text_of_parse hparse] using hread
  | cons e es ih =>
    obtain ⟨he, hes⟩ := List.forall_mem_cons.mp hes
    exact ih (read_mergeEdit hread hopen hparse skeleton e) (hopen.merge _ _ _ _)
      ((readable_of_parse hparse).edited he).parse_text hes

/-- A document that was read from a text is read back from its own text after any changes that keep
to the sections; and the file that held the text, read and written anew for each change, ends up
with the text of the document that all changes were made to, unless it is locked. -/
theorem parse_text_editedAll {text : String} {doc : Document}
    (hparse : parse sections text = .ok doc) {es : List Edit}
    (hes : ∀ e ∈ es, e.Fits sections) :
    parse sections (doc.editedAll es).text = .ok (doc.editedAll es) ∧
      ∀ (t : FileTree) (path skeleton : String), t.read path = .ok text → t.Unlocked path →
        (es.foldl (fun t e => t.mergeEdit path skeleton sections e) t).read path =
          .ok (doc.editedAll es).text :=
  ⟨((readable_of_parse hparse).editedAll hes).parse_text,
    fun _ _ skeleton hread hopen => read_mergeEdits hread hopen hparse skeleton hes⟩

/-- Notes, each under a heading, and behind them links without any. -/
def noteSections : List Section := [
  { name := "notes", opening := "<notes>", closing := "</notes>", key := markedKey? "# " },
  { name := "links", opening := "<links>", closing := "</links>", key := fun _ => none }]

def noteText : String := "<notes>\nloose\n# x\none\n</notes>\n<links>\n</links>\n"

def noteFiles : FileTree := { entries := [(["notes"], .file noteText)] }

/-- A note is added, the links are replaced, an older note is replaced, and a section that is not
there is left alone. -/
def noteEdits : List Edit := [
  .upsert "notes" "y" ["# y", "two"], .set "links" ["<notes>", "up"], .upsert "notes" "x" ["# x"],
  .set "tags" ["</notes>"]]

theorem parse_text_noteEdits :
    ∃ doc, parse noteSections noteText = .ok doc ∧ (∀ e ∈ noteEdits, e.Fits noteSections) ∧
      (doc.editedAll noteEdits).text =
        "<notes>\nloose\n# x\n# y\ntwo\n</notes>\n<links>\n<notes>\nup\n</links>\n" ∧
      parse noteSections (doc.editedAll noteEdits).text = .ok (doc.editedAll noteEdits) ∧
      (noteEdits.foldl (fun t e => t.mergeEdit "notes" "" noteSections e) noteFiles).read "notes" =
        .ok (doc.editedAll noteEdits).text := by
  have hfits : ∀ e ∈ noteEdits, e.Fits noteSections := by decide +kernel
  obtain ⟨doc, hparse, htext⟩ : ∃ doc, parse noteSections noteText = .ok doc ∧
      (doc.editedAll noteEdits).text =
        "<notes>\nloose\n# x\n# y\ntwo\n</notes>\n<links>\n<notes>\nup\n</links>\n" :=
    ⟨_, rfl, by decide +kernel⟩
  obtain ⟨hreread, hfile⟩ := parse_text_editedAll hparse hfits
  exact ⟨doc, hparse, hfits, htext, hreread,
    hfile noteFiles "notes" "" (by decide +kernel) List.not_mem_nil⟩

end Document

end Shaderwright
