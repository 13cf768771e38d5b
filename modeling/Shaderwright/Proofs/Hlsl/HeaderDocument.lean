import Mathlib.Data.List.Induction
import Mathlib.Tactic.Common
import Shaderwright.Hlsl.Header
import Shaderwright.Proofs.Document.Edits
import Shaderwright.Proofs.Lists

/-!
The target header as a document. Its text is determined by the shaders recorded in it: it is read
back as the document it was written from, and recording a shader changes one record.
-/

namespace Shaderwright.Hlsl

open Shaderwright.Text Shaderwright.Document

/-- A name that stands for itself between quotes and at the end of a line. -/
structure PlainName (s : String) : Prop where
  ne_empty : s ≠ ""
  plain : ∀ c ∈ s.toList, escape c = [c]
  last : ∀ c, s.toList.getLast? = some c → isBlank c = false

lemma PlainName.of_all {s : String} (hne : s ≠ "")
    (hplain : (s.toList.all fun c => escape c == [c]) = true)
    (hlast : (s.toList.getLast?.all fun c => !isBlank c) = true) : PlainName s := by
  simp only [List.all_eq_true, beq_iff_eq] at hplain
  simp only [Option.all_eq_true, Bool.not_eq_true'] at hlast
  exact ⟨hne, hplain, hlast⟩

/-- The shaders of a header in their order, each with its bindings. -/
abbrev Records := List (String × List Binding)

/-- Record a shader in its old place, or at the end if it has none. -/
def Records.put : Records → String → List Binding → Records
  | [], shader, bs => [(shader, bs)]
  | r :: rs, shader, bs => if r.1 = shader then (shader, bs) :: rs else r :: put rs shader bs

def tableEntry (r : String × List Binding) : DocumentEntry := ⟨r.1, tableLines r.1 r.2⟩

def rowEntry (r : String × List Binding) : DocumentEntry := ⟨r.1, [registryLine r.1 r.2.length]⟩

def headerFront (p : HeaderPlace) : List String := [
  "// Generated by shadergen. Do not edit.", "#pragma once", "", "#include " ++ quote p.common, "",
  "namespace " ++ p.target ++ " \x7b", ""]

def headerMiddle : List String :=
  [collectionsClosing, "", "static const ShaderResourceTable kShaderResourceTables[] = \x7b"]

def headerEnd (p : HeaderPlace) : List String := [
  registryClosing, "    \x7b nullptr, nullptr, 0 \x7d,", "\x7d;", "",
  "\x7d // namespace " ++ p.target,
  ""]

/-- The target header that holds these records. -/
def headerDocument (p : HeaderPlace) (rs : Records) : Document where
  blocks := [
    ⟨headerFront p ++ [collectionsOpening], collections, rs.map tableEntry⟩,
    ⟨headerMiddle ++ [registryOpening], registry, rs.map rowEntry⟩]
  rest := headerEnd p

lemma headerDocument_nil_text (p : HeaderPlace) :
    (headerDocument p []).text = targetHeaderText p.target p.common := rfl

/-! ### Key lines and marker lines -/

def headOf (line : String) : Option Char := (line.toList.dropWhile isBlank).head?

lemma isMarker_eq_false {marker line : String} {c : Char} (hm : marker.toList.head? = some c)
    (hl : headOf line ≠ some c) : isMarker marker line = false := by
  by_contra h
  obtain ⟨tail, htail⟩ := isPrefix_of_isMarker (by simpa using h)
  apply hl
  unfold headOf
  rw [← htail]
  cases hs : marker.toList with
  | nil => simp [hs] at hm
  | cons a as => simpa [hs] using hm

lemma markedKey?_eq_none {mark line : String} {c : Char} (hm : mark.toList.head? = some c)
    (hl : headOf line ≠ some c) : markedKey? mark line = none := by
  by_contra h
  obtain ⟨k, hk⟩ := Option.ne_none_iff_exists'.mp h
  obtain ⟨rest, hrest, -⟩ := Option.map_eq_some_iff.mp hk
  obtain ⟨tail, htail⟩ := trimChars_isPrefix line.toList
  rw [behind?_eq_some, trim, String.toList_ofList] at hrest
  apply hl
  unfold headOf
  rw [← htail, hrest]
  cases hs : mark.toList with
  | nil => simp [hs] at hm
  | cons a as => simpa [hs] using hm

lemma headOf_append {s : String} {c : Char} (h : headOf s = some c) (t : String) :
    headOf (s ++ t) = some c := by
  unfold headOf at h ⊢
  rw [String.toList_append, List.dropWhile_append]
  rcases hs : s.toList.dropWhile isBlank with _ | ⟨d, ds⟩
  · simp [hs] at h
  · simpa [hs] using h

lemma collections_key (line : String) : collections.key line = markedKey? tableMark line := by
  simp only [collections]

lemma registry_key (line : String) : registry.key line = registryKey? line := by
  simp only [registry]

lemma collections_key_tableMark {shader : String} (h : PlainName shader) :
    collections.key (tableMark ++ shader) = some shader := by
  have hne : shader.toList ≠ [] := fun e => h.ne_empty (String.toList_injective (by simpa using e))
  have htrim : trim (tableMark ++ shader) = tableMark ++ shader := by
    unfold trim
    rw [trimChars_eq_self, String.ofList_toList]
    · intro c hc
      obtain rfl : '/' = c := by simpa [tableMark] using hc
      decide
    · intro c hc
      rw [String.toList_append, List.getLast?_append, Option.or_of_isSome (by simp [hne])] at hc
      exact h.last c hc
  simp [collections_key, markedKey?, htrim, behind?_append]

lemma quote_notMem {shader : String} (h : PlainName shader) : '"' ∉ shader.toList := by
  intro hq
  have hesc : escape '"' = ['\\', '"'] := by decide
  have := h.plain _ hq
  rw [hesc] at this
  simp at this

lemma registry_key_registryLine {shader : String} (h : PlainName shader) (count : Nat) :
    registry.key (registryLine shader count) = some shader := by
  have hne : shader.toList ≠ [] := fun e => h.ne_empty (String.toList_injective (by simpa using e))
  have hq := quote_notMem h
  have hall : ∀ c ∈ shader.toList, decide (c ≠ '"') = true := by
    intro c hc
    have : c ≠ '"' := fun e => hq (e ▸ hc)
    simpa using this
  obtain ⟨tail, htail⟩ : ∃ tail, (registryLine shader count).toList =
      "    \x7b \"".toList ++ (shader.toList ++ '"' :: ',' :: tail) := by
    exact ⟨_, by simp [registryLine, quote_of_plain h.plain]; rfl⟩
  have hdrop : (registryLine shader count).toList.dropWhile isRowBlank =
      "\x7b \"".toList ++ (shader.toList ++ '"' :: ',' :: tail) := by
    rw [htail]
    rfl
  have htake : (shader.toList ++ '"' :: ',' :: tail).takeWhile (· ≠ '"') = shader.toList := by
    rw [List.takeWhile_append_of_pos hall]
    simp
  have hbehind : (shader.toList ++ '"' :: ',' :: tail).dropWhile (· ≠ '"') =
      '"' :: ',' :: tail := by
    rw [List.dropWhile_append_of_pos hall]
    simp
  rw [registry_key, registryKey?, hdrop, behind?_append]
  simp only [Option.bind_eq_bind, Option.bind_some, htake, hbehind]
  simp [hne]

/-! ### The entries of a record -/

lemma headOf_indented (line : String) : headOf ("    " ++ line) = headOf line := by
  simp [headOf, isBlank]

lemma headOf_row (b : Binding) : headOf ("    " ++ b.row ++ ",") = some '\x7b' := by
  rw [String.append_assoc, headOf_indented, Binding.row]
  repeat apply headOf_append
  decide

lemma headOf_registryLine (shader : String) (count : Nat) :
    headOf (registryLine shader count) = some '\x7b' := by
  unfold registryLine
  repeat apply headOf_append
  decide

lemma tableLines_cons (shader : String) (b : Binding) (bs : List Binding) :
    tableLines shader (b :: bs) = (tableMark ++ shader) ::
      (("static const ShaderResourceBinding " ++ tableName shader ++ "[] = \x7b") ::
        ((b :: bs).map (fun b => "    " ++ b.row ++ ",") ++ ["\x7d;", ""])) := by
  simp [tableLines]

/-- Behind its first line a table has no line that starts like a comment. -/
lemma tableLines_eq_cons (shader : String) (bs : List Binding) :
    ∃ rest, tableLines shader bs = (tableMark ++ shader) :: rest ∧
      ∀ l ∈ rest, headOf l ≠ some '/' := by
  have hempty : headOf "" ≠ some '/' := by decide
  have hclose : headOf "\x7d;" ≠ some '/' := by decide
  cases bs with
  | nil =>
    refine ⟨_, rfl, ?_⟩
    have htable : headOf ("static const ShaderResourceBinding* const " ++ tableName shader ++
        " = nullptr;") = some 's' := by
      repeat apply headOf_append
      decide
    simp [htable, hempty]
  | cons b bs =>
    refine ⟨_, tableLines_cons shader b bs, ?_⟩
    have htable : headOf
        ("static const ShaderResourceBinding " ++ tableName shader ++ "[] = \x7b") =
        some 's' := by
      repeat apply headOf_append
      decide
    intro l hl
    simp only [List.mem_cons, List.mem_append, List.mem_map, List.not_mem_nil, or_false] at hl
    rcases hl with rfl | ⟨b', -, rfl⟩ | rfl | rfl
    · simp [htable]
    · simp [headOf_row]
    · exact hclose
    · exact hempty

lemma keyed_tableEntry {r : String × List Binding} (h : PlainName r.1) :
    Keyed collections.key (tableEntry r) := by
  obtain ⟨rest, hlines, hrest⟩ := tableLines_eq_cons r.1 r.2
  have hmark : tableMark.toList.head? = some '/' := by decide
  refine ⟨tableMark ++ r.1, rest, hlines, collections_key_tableMark h, ?_⟩
  intro l hl
  rw [collections_key]
  exact markedKey?_eq_none hmark (hrest l hl)

lemma keyed_rowEntry {r : String × List Binding} (h : PlainName r.1) :
    Keyed registry.key (rowEntry r) :=
  ⟨_, [], rfl, registry_key_registryLine h _, by simp⟩

lemma not_isMarker_table (r : String × List Binding) :
    ∀ l ∈ (tableEntry r).lines, isMarker collectionsClosing l = false := by
  obtain ⟨rest, hlines, hrest⟩ := tableLines_eq_cons r.1 r.2
  have hmark : collectionsClosing.toList.head? = some '/' := by decide
  intro l hl
  rw [tableEntry, hlines] at hl
  rcases List.mem_cons.mp hl with rfl | hl
  · -- the mark of a table and the closing marker part at their fourth character
    by_contra hm
    obtain ⟨tail, htail⟩ := isPrefix_of_isMarker (by simpa using hm)
    simp [collectionsClosing, tableMark, isBlank] at htail
  · exact isMarker_eq_false hmark (hrest l hl)

lemma not_isMarker_row (r : String × List Binding) :
    ∀ l ∈ (rowEntry r).lines, isMarker registryClosing l = false := by
  have hmark : registryClosing.toList.head? = some '/' := by decide
  intro l hl
  obtain rfl : l = registryLine r.1 r.2.length := by simpa [rowEntry] using hl
  exact isMarker_eq_false hmark (by rw [headOf_registryLine]; decide)

lemma isLine_tableEntry {r : String × List Binding} (hname : IsLine r.1) :
    ∀ l ∈ (tableEntry r).lines, IsLine l := by
  have hrow : ∀ b : Binding, IsLine ("    " ++ b.row ++ ",") := by
    intro b
    have hcategory : IsLine b.category.text := by
      cases b.category with
      | other => exact (by decide : IsLine "Unknown")
      | _ => decide
    simp only [Binding.row, isLine_append, isLine_quote, isLine_int, hcategory, and_true]
    decide
  have hmark : IsLine (tableMark ++ r.1) := isLine_append.mpr ⟨by decide, hname⟩
  intro l hl
  unfold tableEntry at hl
  cases hbs : r.2 with
  | nil =>
    rw [hbs] at hl
    simp only [tableLines, List.cons_append, List.nil_append, List.mem_cons, List.not_mem_nil,
      or_false] at hl
    rcases hl with rfl | rfl | rfl
    · exact hmark
    · simp only [tableName, isLine_append, hname]
      decide
    · decide
  | cons b bs =>
    rw [hbs, tableLines_cons] at hl
    simp only [List.mem_cons, List.mem_append, List.mem_map, List.not_mem_nil, or_false] at hl
    rcases hl with rfl | rfl | ⟨b', -, rfl⟩ | rfl | rfl
    · exact hmark
    · simp only [tableName, isLine_append, hname]
      decide
    · exact hrow b'
    · decide
    · decide

lemma isLine_rowEntry {r : String × List Binding} (hname : IsLine r.1) :
    ∀ l ∈ (rowEntry r).lines, IsLine l := by
  intro l hl
  obtain rfl : l = registryLine r.1 r.2.length := by simpa [rowEntry] using hl
  simp only [registryLine, tableName, isLine_append, isLine_quote, isLine_nat, hname, and_true]
  decide

/-! ### The whole document -/

lemma not_isMarker_front (p : HeaderPlace) :
    ∀ l ∈ headerFront p, isMarker collectionsOpening l = false := by
  have hmark : collectionsOpening.toList.head? = some '/' := by decide
  have hinclude : headOf ("#include " ++ quote p.common) = some '#' := headOf_append (by decide) _
  have hname : headOf ("namespace " ++ p.target ++ " \x7b") = some 'n' := by
    repeat apply headOf_append
    decide
  intro l hl
  simp only [headerFront, List.mem_cons, List.not_mem_nil, or_false] at hl
  rcases hl with rfl | rfl | rfl | rfl | rfl | rfl | rfl
  · decide
  · decide
  · decide
  · exact isMarker_eq_false hmark (by rw [hinclude]; decide)
  · decide
  · exact isMarker_eq_false hmark (by rw [hname]; decide)
  · decide

lemma flatMap_map_lines {f : String × List Binding → DocumentEntry} {rs : Records}
    {P : String → Prop} (h : ∀ r ∈ rs, ∀ l ∈ (f r).lines, P l) :
    ∀ l ∈ (rs.map f).flatMap DocumentEntry.lines, P l := by
  intro l hl
  obtain ⟨e, he, hl⟩ := List.mem_flatMap.mp hl
  obtain ⟨r, hr, rfl⟩ := List.mem_map.mp he
  exact h r hr l hl

/-- The target header with any entries in its two sections. -/
def headerWith (p : HeaderPlace) (tables rows : List DocumentEntry) : Document where
  blocks := [
    ⟨headerFront p ++ [collectionsOpening], collections, tables⟩,
    ⟨headerMiddle ++ [registryOpening], registry, rows⟩]
  rest := headerEnd p

lemma laid_headerWith (p : HeaderPlace) {tables rows : List DocumentEntry}
    (htables : entriesOf collections.key (tables.flatMap DocumentEntry.lines) = tables)
    (hrows : entriesOf registry.key (rows.flatMap DocumentEntry.lines) = rows)
    (hopen : ∀ l ∈ tables.flatMap DocumentEntry.lines, isMarker collectionsClosing l = false)
    (hopen' : ∀ l ∈ rows.flatMap DocumentEntry.lines, isMarker registryClosing l = false) :
    Laid headerSections (headerWith p tables rows).blocks (headerWith p tables rows).rest :=
  ⟨rfl, ⟨_, _, rfl, not_isMarker_front p, by decide⟩, hopen, htables, ⟨_, _, rfl, by decide⟩,
    rfl, ⟨_, _, rfl, by decide, by decide⟩, hopen', hrows, ⟨_, _, rfl, by decide⟩, trivial⟩

/-- The header is laid out for its sections, whatever it holds. -/
lemma laid_headerDocument (p : HeaderPlace) {rs : Records} (h : ∀ r ∈ rs, PlainName r.1) :
    Laid headerSections (headerDocument p rs).blocks (headerDocument p rs).rest := by
  have htables : entriesOf collections.key ((rs.map tableEntry).flatMap DocumentEntry.lines) =
      rs.map tableEntry := by
    apply entriesOf_flatMap
    intro e he
    obtain ⟨r, hr, rfl⟩ := List.mem_map.mp he
    exact keyed_tableEntry (h r hr)
  have hrows : entriesOf registry.key ((rs.map rowEntry).flatMap DocumentEntry.lines) =
      rs.map rowEntry := by
    apply entriesOf_flatMap
    intro e he
    obtain ⟨r, hr, rfl⟩ := List.mem_map.mp he
    exact keyed_rowEntry (h r hr)
  exact laid_headerWith p htables hrows (flatMap_map_lines fun r _ => not_isMarker_table r)
    (flatMap_map_lines fun r _ => not_isMarker_row r)

lemma isLine_headerFront {p : HeaderPlace} (hp : IsLine p.target) :
    ∀ l ∈ headerFront p ++ [collectionsOpening], IsLine l := by
  simp only [headerFront, List.cons_append, List.nil_append, List.forall_mem_cons, isLine_append,
    isLine_quote, hp]
  decide

lemma isLine_headerMiddle : ∀ l ∈ headerMiddle ++ [registryOpening], IsLine l := by decide

lemma isLine_headerEnd {p : HeaderPlace} (hp : IsLine p.target) :
    ∀ l ∈ headerEnd p, IsLine l := by
  simp only [headerEnd, List.forall_mem_cons, isLine_append, hp]
  decide

lemma isLine_headerWith {p : HeaderPlace} (hp : IsLine p.target) {tables rows : List DocumentEntry}
    (htables : ∀ l ∈ tables.flatMap DocumentEntry.lines, IsLine l)
    (hrows : ∀ l ∈ rows.flatMap DocumentEntry.lines, IsLine l) :
    ∀ l ∈ (headerWith p tables rows).lines, IsLine l := by
  intro l hl
  simp only [Document.lines, headerWith, List.flatMap_cons, List.flatMap_nil, List.append_nil,
    Block.lines, List.mem_append] at hl
  rcases hl with ((hl | hl) | (hl | hl)) | hl
  · exact isLine_headerFront hp l (List.mem_append.mpr hl)
  · exact htables l hl
  · exact isLine_headerMiddle l (List.mem_append.mpr hl)
  · exact hrows l hl
  · exact isLine_headerEnd hp l hl

lemma headerWith_lines_ne_nil (p : HeaderPlace) (tables rows : List DocumentEntry) :
    (headerWith p tables rows).lines ≠ [] := by
  simp [Document.lines, headerWith, headerEnd]

/-- A header is read back as the document that it was written from. -/
lemma parse_headerDocument {p : HeaderPlace} (hp : IsLine p.target) {rs : Records}
    (h : ∀ r ∈ rs, PlainName r.1) :
    parse headerSections (headerDocument p rs).text = .ok (headerDocument p rs) := by
  have hline : ∀ r ∈ rs, IsLine r.1 := fun r hr => isLine_of_plain (h r hr).plain
  refine parse_text (laid_headerDocument p h) (headerWith_lines_ne_nil p _ _) ?_
  exact isLine_headerWith hp (flatMap_map_lines fun r hr => isLine_tableEntry (hline r hr))
    (flatMap_map_lines fun r hr => isLine_rowEntry (hline r hr))

lemma outside_headerDocument (p : HeaderPlace) (rs rs' : Records) :
    (headerDocument p rs).outside = (headerDocument p rs').outside := rfl

lemma keys_headerDocument (p : HeaderPlace) {rs : Records} (h : ∀ r ∈ rs, PlainName r.1) :
    (headerDocument p rs).keys "collections" = .ok (rs.map Prod.fst) ∧
      (headerDocument p rs).keys "registry" = .ok (rs.map Prod.fst) := by
  have hfilter : (rs.map Prod.fst).filter (· ≠ "") = rs.map Prod.fst := by
    rw [List.filter_eq_self]
    intro s hs
    obtain ⟨r, hr, rfl⟩ := List.mem_map.mp hs
    simpa using (h r hr).ne_empty
  constructor
  · rw [← hfilter]
    simp [keys, block?, headerDocument, collections, registry, tableEntry, Function.comp_def]
  · rw [← hfilter]
    simp [keys, block?, headerDocument, registry, rowEntry, Function.comp_def]

lemma find?_map_entry (f : String × List Binding → DocumentEntry) (hf : ∀ r, (f r).key = r.1)
    (rs : Records) (s : String) :
    (rs.map f).find? (fun e => e.key = s) = (rs.find? fun r => r.1 = s).map f := by
  rw [List.find?_map]
  simp only [Function.comp_def, hf]

/-- The entries of a shader are those of its record. -/
lemma entryOf_headerDocument (p : HeaderPlace) (rs : Records) (s : String) :
    Document.entry? (headerDocument p rs) "collections" s =
        (rs.find? fun r => r.1 = s).map tableEntry ∧
      Document.entry? (headerDocument p rs) "registry" s =
        (rs.find? fun r => r.1 = s).map rowEntry := by
  rw [← find?_map_entry tableEntry (fun _ => rfl), ← find?_map_entry rowEntry (fun _ => rfl)]
  unfold Document.entry?
  constructor <;> simp [block?, headerDocument, collections, registry]

/-! ### Recording a shader -/

/-- An upsert of an entry that a record stands for is a change of that record. -/
lemma upserted_map (f : String × List Binding → DocumentEntry) (hf : ∀ r, (f r).key = r.1)
    (rs : Records) (shader : String) (bs : List Binding) :
    upserted shader (f (shader, bs)).lines (rs.map f) = (rs.put shader bs).map f := by
  have hnew : DocumentEntry.mk shader (f (shader, bs)).lines = f (shader, bs) := by
    have hkey := hf (shader, bs)
    generalize f (shader, bs) = e at hkey ⊢
    obtain ⟨k, ls⟩ := e
    obtain rfl : k = shader := hkey
    rfl
  induction rs with
  | nil => simp [Records.put, upserted, hnew]
  | cons r rs ih =>
    by_cases hr : r.1 = shader
    · rw [List.map_cons, upserted_cons_of_eq ((hf r).trans hr), Records.put, if_pos hr,
        List.map_cons, hnew]
    · have hkey : (f r).key ≠ shader := fun h => hr ((hf r).symm.trans h)
      rw [List.map_cons, upserted_cons_of_ne hkey, ih, Records.put, if_neg hr, List.map_cons]

/-- Recording a shader changes an entry in each of the two sections. -/
lemma recordShader_blocks (tables rows : Block) (htables : tables.spec = collections)
    (hrows : rows.spec = registry) (rest : List String) {shader : String} (hs : shader ≠ "")
    (bs : List Binding) :
    ∃ replaced, recordShader shader bs ⟨[tables, rows], rest⟩ = .ok (replaced, ⟨[
      { tables with entries := upserted shader (tableLines shader bs) tables.entries },
      { rows with entries := upserted shader [registryLine shader bs.length] rows.entries }],
      rest⟩) := by
  obtain ⟨front, _, entries⟩ := tables
  obtain ⟨middle, _, entries'⟩ := rows
  obtain rfl := htables
  obtain rfl := hrows
  refine ⟨entries'.any fun e => e.key = shader, ?_⟩
  simp only [recordShader, upsert, block?]
  simp [collections, registry, hs, updateLast, upserted, Bind.bind, Except.bind]

/-- Recording a shader in a header changes its record. -/
lemma recordShader_headerDocument (p : HeaderPlace) (rs : Records) {shader : String}
    (hs : shader ≠ "") (bs : List Binding) :
    ∃ replaced, recordShader shader bs (headerDocument p rs) =
      .ok (replaced, headerDocument p (rs.put shader bs)) := by
  have htables := upserted_map tableEntry (fun _ => rfl) rs shader bs
  have hrows := upserted_map rowEntry (fun _ => rfl) rs shader bs
  obtain ⟨replaced, hrecord⟩ := recordShader_blocks
    ⟨headerFront p ++ [collectionsOpening], collections, rs.map tableEntry⟩
    ⟨headerMiddle ++ [registryOpening], registry, rs.map rowEntry⟩ rfl rfl
    (headerEnd p) hs bs
  refine ⟨replaced, hrecord.trans ?_⟩
  simp only [headerDocument, ← htables, ← hrows]
  rfl

/-! ### What the records are -/

def recordsOf (cs : List (String × List Binding)) : Records :=
  cs.foldl (fun rs c => rs.put c.1 c.2) []

lemma recordsOf_concat (cs : List (String × List Binding)) (c : String × List Binding) :
    recordsOf (cs ++ [c]) = (recordsOf cs).put c.1 c.2 := by
  simp [recordsOf]

lemma names_put (rs : Records) (shader : String) (bs : List Binding) :
    (rs.put shader bs).map Prod.fst =
      if shader ∈ rs.map Prod.fst then rs.map Prod.fst else rs.map Prod.fst ++ [shader] := by
  induction rs with
  | nil => simp [Records.put]
  | cons r rs ih =>
    by_cases hr : r.1 = shader
    · simp [Records.put, hr]
    · have hr' : shader ≠ r.1 := fun e => hr e.symm
      rw [Records.put, if_neg hr, List.map_cons, ih, List.map_cons]
      by_cases hmem : shader ∈ rs.map Prod.fst
      · rw [if_pos hmem, if_pos (List.mem_cons_of_mem _ hmem)]
      · rw [if_neg hmem, if_neg (by simp only [List.mem_cons, not_or]; exact ⟨hr', hmem⟩),
          List.cons_append]

/-- The recorded names are the compiled ones, in the order of their first compiles. -/
lemma names_recordsOf (cs : List (String × List Binding)) :
    (recordsOf cs).map Prod.fst = (cs.map Prod.fst).eraseDups := by
  induction cs using List.reverseRecOn with
  | nil => rfl
  | append_singleton cs c ih =>
    rw [recordsOf_concat, names_put, ih, List.map_append, List.map_singleton, eraseDups_concat]
    simp only [List.mem_eraseDups]

lemma find?_put (rs : Records) (shader : String) (bs : List Binding) (s : String) :
    (rs.put shader bs).find? (fun r => r.1 = s) =
      if shader = s then some (shader, bs) else rs.find? fun r => r.1 = s := by
  induction rs with
  | nil => by_cases hs : shader = s <;> simp [Records.put, hs]
  | cons r rs ih =>
    by_cases hr : r.1 = shader
    · rw [Records.put, if_pos hr, List.find?_cons, List.find?_cons, hr]
      by_cases hs : shader = s <;> simp [hs]
    · rw [Records.put, if_neg hr, List.find?_cons, List.find?_cons, ih]
      by_cases hs : r.1 = s
      · have : shader ≠ s := fun e => hr (hs.trans e.symm)
        simp [hs, this]
      · simp [hs]

/-- The record of a shader is its latest compile. -/
lemma find?_recordsOf (cs : List (String × List Binding)) (s : String) :
    (recordsOf cs).find? (fun r => r.1 = s) = cs.reverse.find? fun r => r.1 = s := by
  induction cs using List.reverseRecOn with
  | nil => rfl
  | append_singleton cs c ih =>
    rw [recordsOf_concat, find?_put, ih, List.reverse_append, List.reverse_singleton,
      List.singleton_append, List.find?_cons]
    obtain ⟨shader, bs⟩ := c
    by_cases hs : shader = s <;> simp [hs]

end Shaderwright.Hlsl
