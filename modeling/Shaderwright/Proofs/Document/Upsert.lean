import Mathlib.Tactic.Common
import Shaderwright.Proofs.Document.Markers

/-!
What an upsert does to the lines of a text. The lines of the first entry of the key make room for
the new ones; without such an entry the new lines go right in front of the closing marker of the
section. All other lines stay as they are.
-/

namespace Shaderwright.Document

open Shaderwright.Text

/-! ### Entries as lines -/

section Entries

variable {key : String → Option String} {k : String} {e : DocumentEntry} {es : List DocumentEntry}

lemma Grouped.tail (h : Grouped key (e :: es)) : Grouped key es := by
  cases es with
  | nil => trivial
  | cons d es => exact ⟨.inl (h.2 d List.mem_cons_self), fun d' h' => h.2 d' (by simp [h'])⟩

lemma key_ne_of_mem_lines (h : Keyed key e ∨ Unkeyed key e) (hne : e.key ≠ k) :
    ∀ l ∈ e.lines, key l ≠ some k := by
  intro l hl
  rcases h with ⟨first, rest, hlines, hfirst, hrest⟩ | ⟨-, -, hnone⟩
  · rw [hlines] at hl
    rcases List.mem_cons.mp hl with rfl | hl
    · simpa [hfirst] using hne
    · simp [hrest l hl]
  · simp [hnone l hl]

lemma head?_lines_keyed (h : ∀ d ∈ es, Keyed key d) :
    ∀ l ∈ (es.flatMap DocumentEntry.lines).head?, (key l).isSome = true := by
  cases es with
  | nil => simp
  | cons d es =>
    obtain ⟨first, rest, hlines, hfirst, -⟩ := h d List.mem_cons_self
    simp [hlines, hfirst]

/-- The lines of a section after an upsert: the lines of the first entry of the key are replaced,
or the new lines are put behind all others. -/
lemma lines_upserted (hk : k ≠ "") (new : List String) (h : Grouped key es) :
    ((es.any fun e => e.key = k) = true ∧ ∃ before first rest after,
      es.flatMap DocumentEntry.lines = before ++ (first :: rest) ++ after ∧
      (∀ l ∈ before, key l ≠ some k) ∧ key first = some k ∧ (∀ l ∈ rest, key l = none) ∧
      (∀ l ∈ after.head?, (key l).isSome = true) ∧
      (upserted k new es).flatMap DocumentEntry.lines = before ++ new ++ after) ∨
    ((es.any fun e => e.key = k) = false ∧
      (∀ l ∈ es.flatMap DocumentEntry.lines, key l ≠ some k) ∧
      (upserted k new es).flatMap DocumentEntry.lines =
        es.flatMap DocumentEntry.lines ++ new) := by
  induction es with
  | nil => exact .inr ⟨rfl, by simp, by simp [upserted]⟩
  | cons e es ih =>
    by_cases he : e.key = k
    · left
      -- lines in front of the first key line have the empty key
      have hkeyed : Keyed key e := h.1.resolve_right fun hnone => hk (he.symm.trans hnone.1)
      obtain ⟨first, rest, hlines, hfirst, hrest⟩ := hkeyed
      exact ⟨by simp [he], [], first, rest, es.flatMap DocumentEntry.lines, by simp [hlines],
        by simp, he ▸ hfirst, hrest, head?_lines_keyed h.2, by simp [upserted_cons_of_eq he]⟩
    · have hfront := key_ne_of_mem_lines h.1 he
      rw [upserted_cons_of_ne he, List.any_cons, List.flatMap_cons, List.flatMap_cons]
      rcases ih h.tail with ⟨hany, before, first, rest, after, hlines, hbefore, hfirst, hrest,
        hafter, hnew⟩ | ⟨hany, hnone, hnew⟩
      · left
        refine ⟨by simp [hany], e.lines ++ before, first, rest, after, by simp [hlines], ?_, hfirst,
          hrest, hafter, by simp [hnew]⟩
        rw [List.forall_mem_append]
        exact ⟨hfront, hbefore⟩
      · right
        refine ⟨by simp [hany, he], ?_, by simp [hnew]⟩
        rw [List.forall_mem_append]
        exact ⟨hfront, hnone⟩

end Entries

/-! ### Sections as lines -/

variable {all : List String} {sections : List Section} {s : Section} {doc : Document}

/-- The lines of the two markers of a section, each marker in the first line that it can have behind
those before it. -/
def Spans (sections : List Section) (lines : List String) (s : Section) (opening closing : Nat) :
    Prop :=
  ∃ front behind last, sections = front ++ s :: behind ∧ Earliest lines 0 (marks front) last ∧
    FirstAt lines last s.opening opening ∧ FirstAt lines (opening + 1) s.closing closing

/-- The first section that is read starts behind the first possible line of its opening marker and
ends in front of the first possible line of its closing marker. -/
lemma ofLines_cons_eq_ok {start : Nat}
    (h : ofLines all (s :: sections) (all.drop start) = .ok doc) :
    ∃ b doc' opening closing, doc = ⟨b :: doc'.blocks, doc'.rest⟩ ∧ b.spec = s ∧
      FirstAt all start s.opening opening ∧ FirstAt all (opening + 1) s.closing closing ∧
      start + b.before.length = opening + 1 ∧
      opening + 1 + (b.entries.flatMap DocumentEntry.lines).length = closing ∧
      ofLines all sections (all.drop closing) = .ok doc' := by
  rw [ofLines] at h
  rcases hopening : splitAtMarker s.opening (all.drop start) with _ | ⟨before, opening, behind⟩
  · simp [hopening] at h
  obtain ⟨hfirst, -, hbehind⟩ := firstAt_of_splitAtMarker hopening
  simp only [hopening, hbehind] at h
  rcases hclosing : splitAtMarker s.closing (all.drop (start + before.length + 1)) with
    _ | ⟨body, closing, rest⟩
  · simp [hclosing] at h
  obtain ⟨hfirst', hdrop', -⟩ := firstAt_of_splitAtMarker hclosing
  simp only [hclosing, ← hdrop'] at h
  rcases hrest : ofLines all sections (all.drop (start + before.length + 1 + body.length)) with
    e | doc'
  · simp [hrest, bind, Except.bind] at h
  · simp only [hrest, bind, Except.bind, pure, Except.pure, Except.ok.injEq] at h
    refine ⟨⟨before ++ [opening], s, entriesOf s.key body⟩, doc', _, _, h.symm, rfl, hfirst,
      hfirst', ?_, ?_, hrest⟩
    · simp [Nat.add_assoc]
    · rw [lines_entriesOf]

/-- Where the lines of a section stand. -/
lemma block_of_ofLines {front behind : List Section} {start : Nat}
    (h : ofLines all (front ++ s :: behind) (all.drop start) = .ok doc) :
    ∃ pre b post last opening closing, doc.blocks = pre ++ b :: post ∧ b.spec = s ∧
      Earliest all start (marks front) last ∧
      FirstAt all last s.opening opening ∧ FirstAt all (opening + 1) s.closing closing ∧
      start + (pre.flatMap Block.lines ++ b.before).length = opening + 1 ∧
      opening + 1 + (b.entries.flatMap DocumentEntry.lines).length = closing := by
  induction front generalizing start doc with
  | nil =>
    obtain ⟨b, doc', opening, closing, rfl, hspec, hopening, hclosing, hbefore, hbody, -⟩ :=
      ofLines_cons_eq_ok h
    exact ⟨[], b, doc'.blocks, start, opening, closing, rfl, hspec, .nil start, hopening, hclosing,
      by simpa using hbefore, hbody⟩
  | cons f front ih =>
    obtain ⟨c, doc', opening', closing', rfl, -, hopening', hclosing', hbefore', hbody', hrest⟩ :=
      ofLines_cons_eq_ok h
    obtain ⟨pre, b, post, last, opening, closing, hblocks, hspec, hlast, hopening, hclosing,
      hbefore, hbody⟩ := ih hrest
    refine ⟨c :: pre, b, post, last, opening, closing, by simp [hblocks], hspec, ?_, hopening,
      hclosing, ?_, hbody⟩
    · rw [marks_cons]
      exact .cons hopening' (.cons hclosing' hlast)
    · simp only [List.flatMap_cons, List.length_append, Block.lines] at hbefore ⊢
      omega

/-- A section whose name no other section has is found by its name. -/
lemma upsert_of_nodup {pre post : List Block} {b : Block} (hblocks : doc.blocks = pre ++ b :: post)
    (hnames : (doc.blocks.map fun b => b.spec.name).Nodup) {k : String} (hk : k ≠ "")
    (new : List String) :
    doc.upsert b.spec.name k new = .ok (b.entries.any fun e => e.key = k,
      ⟨pre ++ { b with entries := upserted k new b.entries } :: post, doc.rest⟩) := by
  rw [hblocks, List.map_append, List.map_cons, List.nodup_append, List.nodup_cons] at hnames
  have hpost : ∀ c ∈ post, c.spec.name ≠ b.spec.name := by
    intro c hc heq
    exact hnames.2.1.1 (List.mem_map.mpr ⟨c, hc, heq⟩)
  have hfind : doc.block? b.spec.name = some b := by
    refine List.find?_eq_some_iff_append.mpr ⟨by simp, post.reverse, pre.reverse, ?_, ?_⟩
    · simp [hblocks]
    · simpa using hpost
  simp only [upsert, hfind, if_neg hk, hblocks, updateLast_append _ pre rfl hpost]
  rfl

/-- An upsert changes the lines between the markers of its section as it changes the entries. -/
lemma upsert_of_parse {text : String} (hparse : parse sections text = .ok doc)
    (hnames : (sections.map Section.name).Nodup) (hs : s ∈ sections) {k : String} (hk : k ≠ "")
    (new : List String) :
    ∃ opening closing es doc' front behind, Spans sections (Text.lines text) s opening closing ∧
      Grouped s.key es ∧
      Text.lines text = front ++ es.flatMap DocumentEntry.lines ++ behind ∧
      front.length = opening + 1 ∧
      opening + 1 + (es.flatMap DocumentEntry.lines).length = closing ∧
      doc.upsert s.name k new = .ok (es.any fun e => e.key = k, doc') ∧
      doc'.lines = front ++ (upserted k new es).flatMap DocumentEntry.lines ++ behind := by
  obtain ⟨earlier, later, rfl⟩ := List.append_of_mem hs
  have hread : ofLines (Text.lines text) (earlier ++ s :: later) ((Text.lines text).drop 0) =
      .ok doc := hparse
  obtain ⟨pre, b, post, last, opening, closing, hblocks, rfl, hlast, hopening, hclosing, hbefore,
    hbody⟩ := block_of_ofLines hread
  have hlaid := (laid_of_ofLines hparse).1
  obtain ⟨-, -, -, hgrouped⟩ := hlaid.block (b := b) (by simp [hblocks])
  have hnodup : (doc.blocks.map fun b => b.spec.name).Nodup := by
    rw [← specs_of_laid hlaid, List.map_map] at hnames
    exact hnames
  refine ⟨opening, closing, b.entries, _, pre.flatMap Block.lines ++ b.before,
    post.flatMap Block.lines ++ doc.rest, ⟨earlier, later, last, rfl, hlast, hopening, hclosing⟩,
    hgrouped, ?_, by simpa using hbefore, hbody, upsert_of_nodup hblocks hnodup hk new, ?_⟩
  · simp [← lines_of_parse hparse, Document.lines, Block.lines, hblocks]
  · simp [Document.lines, Block.lines]

/-! ### The lines of a text -/

/-- The lines from `i` up to `j` are the first entry of a key between the markers of a section: the
first line with this key, and those behind it up to the next line with any key. -/
structure EntrySpan (lines : List String) (keyOf : String → Option String) (key : String)
    (opening closing i j : Nat) : Prop where
  inside : opening < i ∧ i < j ∧ j ≤ closing
  starts : ∃ line, lines[i]? = some line ∧ keyOf line = some key
  first : ∀ n line, opening < n → n < i → lines[n]? = some line → keyOf line ≠ some key
  body : ∀ n line, i < n → n < j → lines[n]? = some line → keyOf line = none
  ends : j < closing → ∃ line, lines[j]? = some line ∧ (keyOf line).isSome = true

lemma mem_of_getElem?_middle {front middle behind : List String} {n : Nat} {line : String}
    (h : (front ++ middle ++ behind)[n]? = some line) (hfront : front.length ≤ n)
    (hbehind : n < front.length + middle.length) : line ∈ middle := by
  rw [List.append_assoc, List.getElem?_append_right hfront,
    List.getElem?_append_left (by omega)] at h
  exact List.mem_of_getElem? h

/-- The lines of an entry in a list that is put together from them and what is around them. -/
lemma entrySpan_append {keyOf : String → Option String} {k first : String}
    {front before rest after : List String} (behind : List String)
    (hbefore : ∀ l ∈ before, keyOf l ≠ some k) (hfirst : keyOf first = some k)
    (hrest : ∀ l ∈ rest, keyOf l = none) (hafter : ∀ l ∈ after.head?, (keyOf l).isSome = true)
    {opening : Nat} (hfront : front.length = opening + 1) :
    EntrySpan (front ++ (before ++ (first :: rest) ++ after) ++ behind) keyOf k opening
      (opening + 1 + (before ++ (first :: rest) ++ after).length)
      (opening + 1 + before.length) (opening + 1 + before.length + (first :: rest).length) := by
  have hsplit : front ++ (before ++ (first :: rest) ++ after) ++ behind =
      front ++ before ++ (first :: rest) ++ (after ++ behind) := by simp
  refine ⟨by simp; omega, ⟨first, ?_, hfirst⟩, ?_, ?_, ?_⟩
  · rw [hsplit, List.append_assoc, List.getElem?_append_right (by simp [hfront])]
    simp [hfront]
  · intro n line hn hlt hline
    have hmiddle : (front ++ before ++ (first :: rest ++ after ++ behind))[n]? = some line := by
      simpa using hline
    exact hbefore line (mem_of_getElem?_middle hmiddle (by omega) (by omega))
  · intro n line hn hlt hline
    have hmiddle : (front ++ before ++ [first] ++ rest ++ (after ++ behind))[n]? = some line := by
      simpa using hline
    refine hrest line (mem_of_getElem?_middle hmiddle (by simp; omega) ?_)
    simp only [List.length_append, List.length_cons, List.length_nil] at hlt ⊢
    omega
  · intro hlt
    cases after with
    | nil =>
      simp only [List.append_nil, List.length_append] at hlt
      omega
    | cons l after =>
      have hlength : opening + 1 + before.length + (first :: rest).length =
          (front ++ before ++ (first :: rest)).length := by simp [hfront, Nat.add_assoc]
      refine ⟨l, ?_, hafter l rfl⟩
      rw [hsplit, hlength, List.getElem?_append_right (Nat.le_refl _), Nat.sub_self]
      rfl

/-- The text of a document whose lines are those of another text but for some in the middle. -/
lemma text_of_lines_splice {text : String} {before old new after : List String}
    (hsplit : Text.lines text = before ++ old ++ after) (hne : before ≠ [])
    (hdoc : doc.lines = before ++ new ++ after) {i j : Nat} (hi : before.length = i)
    (hj : (before ++ old).length = j) :
    doc.text = unlines ((Text.lines text).take i ++ new ++ (Text.lines text).drop j) ∧
      Text.lines doc.text =
        (Text.lines text).take i ++ new.flatMap Text.lines ++ (Text.lines text).drop j := by
  have htake : (Text.lines text).take i = before := by
    rw [hsplit, List.append_assoc, ← hi, List.take_left]
  have hdrop : (Text.lines text).drop j = after := by
    rw [hsplit, ← hj, List.drop_left]
  have hlines : ∀ l ∈ before ++ old ++ after, IsLine l := by
    rw [← hsplit]
    exact fun l hl => notMem_of_mem_pieces hl
  have hbefore : before.flatMap Text.lines = before :=
    flatMap_lines fun l hl => hlines l (by simp [hl])
  have hafter : after.flatMap Text.lines = after :=
    flatMap_lines fun l hl => hlines l (by simp [hl])
  rw [Document.text, hdoc, htake, hdrop]
  refine ⟨rfl, ?_⟩
  rw [lines_unlines_flatMap (by simp [hne]), List.flatMap_append, List.flatMap_append, hbefore,
    hafter]

/-- An upsert of a key into a section replaces the lines of the first entry that the section has
under the key, or it puts the new lines right in front of the closing marker if there is none, and
tells which of the two it did. No other line of the text changes, and without an upsert none does.
A new line that holds line breaks counts as several. -/
theorem upsert_replaces_own_lines {text : String} (hparse : parse sections text = .ok doc)
    (hnames : (sections.map Section.name).Nodup) (hs : s ∈ sections) {key : String}
    (hkey : key ≠ "") (new : List String) :
    doc.text = text ∧ ∃ opening closing, Spans sections (Text.lines text) s opening closing ∧
      ∃ replaced doc' i j, doc.upsert s.name key new = .ok (replaced, doc') ∧
        doc'.text = unlines ((Text.lines text).take i ++ new ++ (Text.lines text).drop j) ∧
        Text.lines doc'.text =
          (Text.lines text).take i ++ new.flatMap Text.lines ++ (Text.lines text).drop j ∧
        ((replaced = true ∧ EntrySpan (Text.lines text) s.key key opening closing i j) ∨
          (replaced = false ∧ i = closing ∧ j = closing ∧
            ∀ n line, opening < n → n < closing → (Text.lines text)[n]? = some line →
              s.key line ≠ some key)) := by
  refine ⟨text_of_parse hparse, ?_⟩
  obtain ⟨opening, closing, es, doc', front, behind, hspans, hgrouped, hlines, hfront, hbody,
    hupsert, hnew⟩ := upsert_of_parse hparse hnames hs hkey new
  refine ⟨opening, closing, hspans, ?_⟩
  have hne : front ≠ [] := List.ne_nil_of_length_eq_add_one hfront
  rcases lines_upserted hkey new hgrouped with ⟨hany, before, first, rest, after, hentries, hbefore,
    hfirst, hrest, hafter, hupserted⟩ | ⟨hany, hnone, hupserted⟩
  · have hspan := entrySpan_append behind hbefore hfirst hrest hafter hfront
    rw [← hentries, ← hlines, hbody] at hspan
    have hold : Text.lines text = front ++ before ++ (first :: rest) ++ (after ++ behind) := by
      simp [hlines, hentries]
    have hdoc' : doc'.lines = front ++ before ++ new ++ (after ++ behind) := by
      simp [hnew, hupserted]
    obtain ⟨htext, htextLines⟩ := text_of_lines_splice hold (by simp [hne]) hdoc'
      (by rw [List.length_append, hfront]) (by rw [List.length_append, List.length_append, hfront])
    exact ⟨true, doc', _, _, hany ▸ hupsert, htext, htextLines, .inl ⟨rfl, hspan⟩⟩
  · have hold : Text.lines text =
        front ++ es.flatMap DocumentEntry.lines ++ [] ++ behind := by simp [hlines]
    have hdoc' : doc'.lines = front ++ es.flatMap DocumentEntry.lines ++ new ++ behind := by
      simp [hnew, hupserted]
    obtain ⟨htext, htextLines⟩ := text_of_lines_splice hold (by simp [hne]) hdoc'
      (by rw [List.length_append, hfront, hbody])
      (by rw [List.append_nil, List.length_append, hfront, hbody])
    refine ⟨false, doc', closing, closing, hany ▸ hupsert, htext, htextLines,
      .inr ⟨rfl, rfl, rfl, ?_⟩⟩
    intro n line hn hlt hline
    rw [hlines] at hline
    exact hnone line (mem_of_getElem?_middle hline (by omega) (by omega))

/-- Notes with a line in front of the first heading, a heading that comes twice and a line that
ends in a carriage return. -/
def looseNotes : String := "<notes>\r\nloose\n# x\none\n# x\n</notes>\n<links>\n</links>"

theorem upsert_replaces_own_lines_looseNotes :
    ∃ doc doc', parse noteSections looseNotes = .ok doc ∧ (noteSections.map Section.name).Nodup ∧
      doc.upsert "notes" "x" ["# x", "two"] = .ok (true, doc') ∧ doc.text = looseNotes ∧
      doc'.text = "<notes>\r\nloose\n# x\ntwo\n# x\n</notes>\n<links>\n</links>" ∧
      ∃ s ∈ noteSections, ∃ opening closing i j,
        Spans noteSections (Text.lines looseNotes) s opening closing ∧
        EntrySpan (Text.lines looseNotes) s.key "x" opening closing i j ∧
        Text.lines doc'.text = (Text.lines looseNotes).take i ++ ["# x", "two"] ++
          (Text.lines looseNotes).drop j := by
  obtain ⟨doc, doc', hparse, hupsert, htext⟩ : ∃ doc doc',
      parse noteSections looseNotes = .ok doc ∧
      doc.upsert "notes" "x" ["# x", "two"] = .ok (true, doc') ∧
      doc'.text = "<notes>\r\nloose\n# x\ntwo\n# x\n</notes>\n<links>\n</links>" :=
    ⟨_, _, rfl, rfl, by decide +kernel⟩
  have hnames : (noteSections.map Section.name).Nodup := by decide
  obtain ⟨hsame, opening, closing, hspans, replaced, doc'', i, j, hupsert', -, hlines, hentry⟩ :=
    upsert_replaces_own_lines hparse hnames List.mem_cons_self (by decide : "x" ≠ "") ["# x", "two"]
  obtain ⟨rfl, rfl⟩ := Prod.mk.inj (Except.ok.inj (hupsert'.symm.trans hupsert))
  refine ⟨doc, _, hparse, hnames, hupsert, hsame, htext, _, List.mem_cons_self, opening, closing, i,
    j, hspans, ?_, hlines⟩
  exact (hentry.resolve_right fun h => Bool.noConfusion h.1).2

end Shaderwright.Document
