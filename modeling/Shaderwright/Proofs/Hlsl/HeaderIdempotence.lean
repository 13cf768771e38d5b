import Mathlib.Data.List.TakeWhile
import Mathlib.Tactic.Common
import Shaderwright.Proofs.Document.Placement
import Shaderwright.Proofs.Hlsl.HeaderDocument
import Shaderwright.Proofs.Hlsl.HeaderFiles
import Shaderwright.Proofs.Text.Quoted

/-!
Recording a shader once more. A header can always be read again, but the shader is found in it
only if its name can be read back from both of its entries, and then recording it again changes
nothing. Any other name is recorded anew each time, so the header grows.
-/

namespace Shaderwright.Hlsl

open Shaderwright.Text Shaderwright.Document

/-! ### Keys that are read back -/

lemma isBlank_last_of_key {shader : String}
    (h : collections.key (tableMark ++ shader) = some shader) {c : Char}
    (hc : shader.toList.getLast? = some c) : isBlank c = false := by
  obtain ⟨rest, hrest, hname⟩ := Option.map_eq_some_iff.mp (collections_key _ ▸ h)
  obtain rfl : rest = shader.toList := by rw [← hname, String.toList_ofList]
  rw [behind?_eq_some, trim, String.toList_ofList] at hrest
  have hlast : (trimChars (tableMark ++ shader).toList).getLast? = some c := by
    rw [hrest, List.getLast?_append, hc]
    rfl
  exact isBlank_last_trimChars hlast

/-- The key of a row is what stands between its first quote and the next one. -/
lemma registry_key_eq_some {line k : String} (h : registry.key line = some k) :
    ∃ row, line.toList.dropWhile isRowBlank = "\x7b \"".toList ++ row ∧
      k.toList = row.takeWhile (· ≠ '"') := by
  rw [registry_key, registryKey?, Option.bind_eq_bind, Option.bind_eq_some_iff] at h
  obtain ⟨row, hrow, h⟩ := h
  refine ⟨row, behind?_eq_some.mp hrow, ?_⟩
  dsimp only at h
  split at h
  · simp at h
  · rw [← Option.some.inj h, String.toList_ofList]

lemma escape_of_key {shader : String} {count : Nat}
    (h : registry.key (registryLine shader count) = some shader) :
    ∀ c ∈ shader.toList, escape c = [c] := by
  let tail := (", " ++ tableName shader ++ ", " ++ toString count ++ " \x7d,").toList
  have hline : (registryLine shader count).toList.dropWhile isRowBlank =
      "\x7b \"".toList ++ (shader.toList.flatMap escape ++ '"' :: tail) := by
    simp [registryLine, quote, quoteChars, isRowBlank, tail]
  obtain ⟨row, hrow, hname⟩ := registry_key_eq_some h
  obtain rfl := List.append_cancel_left (hline.symm.trans hrow)
  -- what was taken has no quote in it, so the name has none, so all of it was taken
  have hquote : ∀ c ∈ shader.toList, c ≠ '"' := by
    intro c hc
    rw [hname] at hc
    simpa using List.mem_takeWhile_imp hc
  have hall : ∀ c ∈ shader.toList.flatMap escape, decide (c ≠ '"') = true := by
    intro c hc
    obtain ⟨d, hd, hc⟩ := List.mem_flatMap.mp hc
    have hne : c ≠ '"' := by
      rintro rfl
      exact hquote d hd ((escaped_escape d).eq_quote hc)
    simpa using hne
  rw [List.takeWhile_append_of_pos hall, List.takeWhile_cons_of_neg (by simp), List.append_nil]
    at hname
  exact escape_of_length (Nat.le_of_eq (congrArg List.length hname.symm))

/-- Both entries of a shader are found again exactly if its name is a plain one. -/
lemma plainName_iff {shader : String} (hs : shader ≠ "") (count : Nat) :
    PlainName shader ↔ collections.key (tableMark ++ shader) = some shader ∧
      registry.key (registryLine shader count) = some shader :=
  ⟨fun h => ⟨collections_key_tableMark h, registry_key_registryLine h count⟩,
    fun h => ⟨hs, escape_of_key h.2, fun _ hc => isBlank_last_of_key h.1 hc⟩⟩

lemma isLine_of_collections_key {line k : String} (hline : IsLine line)
    (h : collections.key line = some k) : IsLine k := by
  obtain ⟨rest, hrest, rfl⟩ := Option.map_eq_some_iff.mp (collections_key _ ▸ h)
  rw [behind?_eq_some, trim, String.toList_ofList] at hrest
  intro hmem
  rw [String.toList_ofList] at hmem
  have htrimmed : '\n' ∈ trimChars line.toList := hrest ▸ List.mem_append_right _ hmem
  exact hline ((List.dropWhile_suffix _).subset ((trimChars_isPrefix _).subset htrimmed))

lemma isLine_of_registry_key {line k : String} (hline : IsLine line)
    (h : registry.key line = some k) : IsLine k := by
  obtain ⟨row, hrow, hname⟩ := registry_key_eq_some h
  intro hmem
  rw [hname] at hmem
  have hrest : '\n' ∈ line.toList.dropWhile isRowBlank :=
    hrow ▸ List.mem_append_right _ ((List.takeWhile_prefix _).subset hmem)
  exact hline ((List.dropWhile_suffix _).subset hrest)

/-! ### Reading a header again -/

variable {p : HeaderPlace} {shader : String} {bs : List Binding}

/-- The markers of a header stand in its text in their order, whatever is recorded in it. -/
lemma marked_headerDocument (p : HeaderPlace) (rs : Records) :
    Marked headerSections (Text.lines (headerDocument p rs).text) := by
  have hne : (headerDocument p rs).lines ≠ [] := by simp [Document.lines, headerDocument, headerEnd]
  -- names and records may break lines, but no marker does
  have hopening : Text.lines collectionsOpening = [collectionsOpening] :=
    lines_of_isLine (by decide)
  have hclosing : Text.lines collectionsClosing = [collectionsClosing] :=
    lines_of_isLine (by decide)
  have hopening' : Text.lines registryOpening = [registryOpening] := lines_of_isLine (by decide)
  have hclosing' : Text.lines registryClosing = [registryClosing] := lines_of_isLine (by decide)
  let tables := ((rs.map tableEntry).flatMap DocumentEntry.lines).flatMap Text.lines
  let rows := ((rs.map rowEntry).flatMap DocumentEntry.lines).flatMap Text.lines
  let middle := headerMiddle.tail.flatMap Text.lines
  let ending := (headerEnd p).tail.flatMap Text.lines
  have hlines : Text.lines (headerDocument p rs).text =
      (headerFront p).flatMap Text.lines ++ collectionsOpening :: (tables ++ collectionsClosing ::
        (middle ++ registryOpening :: (rows ++ registryClosing :: ending))) := by
    rw [Document.text, lines_unlines_flatMap hne]
    simp [Document.lines, headerDocument, Block.lines, headerMiddle, headerEnd, hopening, hclosing,
      hopening', hclosing', tables, rows, middle, ending]
  exact ⟨_, _, _, _, ⟨_, hlines.symm⟩, by decide, List.suffix_append _ _, by decide, _, _, _, _,
    List.suffix_append (collectionsClosing :: middle) _, by decide, List.suffix_append _ _,
    by decide, trivial⟩

lemma exists_parse_headerDocument (p : HeaderPlace) (rs : Records) :
    ∃ doc, parse headerSections (headerDocument p rs).text = .ok doc :=
  exists_ofLines (marked_headerDocument p rs) _

lemma blocks_of_laid {blocks : List Block} {rest : List String}
    (h : Laid headerSections blocks rest) :
    ∃ tables rows, blocks = [tables, rows] ∧ tables.spec = collections ∧ rows.spec = registry := by
  obtain ⟨tables, blocks, rfl, htables, hblocks⟩ := List.map_eq_cons_iff.mp (specs_of_laid h)
  obtain ⟨rows, blocks, rfl, hrows, hblocks⟩ := List.map_eq_cons_iff.mp hblocks
  obtain rfl := List.map_eq_nil_iff.mp hblocks
  exact ⟨tables, rows, rfl, htables, hrows⟩

/-! ### Recording a shader again -/

/-- A header that holds one shader, as it is read again, and the entries that its sections get
when the shader is recorded once more. -/
structure Again (p : HeaderPlace) (shader : String) (bs : List Binding) (tables rows : Block)
    (rest : List String) (newTables newRows : List DocumentEntry) : Prop where
  parse : parse headerSections (headerDocument p [(shader, bs)]).text = .ok ⟨[tables, rows], rest⟩
  spec : tables.spec = collections ∧ rows.spec = registry
  tables : upserted shader (tableLines shader bs) tables.entries = tables.entries ++ newTables
  rows : upserted shader [registryLine shader bs.length] rows.entries = rows.entries ++ newRows
  new : newTables ++ newRows = [] ↔ PlainName shader
  lines : ∀ e ∈ newTables ++ newRows, e.lines ≠ []

lemma tableLines_ne_nil (shader : String) (bs : List Binding) : tableLines shader bs ≠ [] := by
  obtain ⟨rest, hlines, -⟩ := tableLines_eq_cons shader bs
  simp [hlines]

/-- The table of a shader under the key that is read from it. -/
def tableAsRead (shader : String) (bs : List Binding) : DocumentEntry :=
  ⟨(collections.key (tableMark ++ shader)).getD "", tableLines shader bs⟩

def rowAsRead (shader : String) (bs : List Binding) : DocumentEntry :=
  ⟨(registry.key (registryLine shader bs.length)).getD "", [registryLine shader bs.length]⟩

lemma entriesOf_tableLines (shader : String) (bs : List Binding) :
    entriesOf collections.key (tableLines shader bs) = [tableAsRead shader bs] := by
  have hmark : tableMark.toList.head? = some '/' := by decide
  obtain ⟨rest, hlines, hrest⟩ := tableLines_eq_cons shader bs
  rw [tableAsRead, hlines]
  apply entriesOf_of_first
  intro l hl
  rw [collections_key]
  exact markedKey?_eq_none hmark (hrest l hl)

/-- A header is read under the keys that its lines show. -/
lemma parse_of_isLine (hp : IsLine p.target) (hline : IsLine shader) (bs : List Binding) :
    parse headerSections (headerDocument p [(shader, bs)]).text =
      .ok (headerWith p [tableAsRead shader bs] [rowAsRead shader bs]) := by
  have htable : [tableAsRead shader bs].flatMap DocumentEntry.lines =
      (tableEntry (shader, bs)).lines := by simp [tableAsRead, tableEntry]
  have hrow : [rowAsRead shader bs].flatMap DocumentEntry.lines =
      (rowEntry (shader, bs)).lines := by simp [rowAsRead, rowEntry]
  have hlaid : Laid headerSections
      (headerWith p [tableAsRead shader bs] [rowAsRead shader bs]).blocks
      (headerWith p [tableAsRead shader bs] [rowAsRead shader bs]).rest := by
    apply laid_headerWith p <;> simp only [htable, hrow]
    · exact entriesOf_tableLines shader bs
    · exact entriesOf_of_first (by simp)
    · exact not_isMarker_table (shader, bs)
    · exact not_isMarker_row (shader, bs)
  have hlines : ∀ l ∈ (headerWith p [tableAsRead shader bs] [rowAsRead shader bs]).lines,
      IsLine l := by
    apply isLine_headerWith hp <;> simp only [htable, hrow]
    · exact isLine_tableEntry hline
    · exact isLine_rowEntry hline
  -- the keys do not show in the text
  have htext : (headerDocument p [(shader, bs)]).text =
      (headerWith p [tableAsRead shader bs] [rowAsRead shader bs]).text := by
    simp only [Document.text, Document.lines, headerWith, headerDocument, Block.lines,
      List.map_cons, List.map_nil, htable, hrow, List.flatMap_cons, List.flatMap_nil]
    simp
  rw [htext]
  exact parse_text hlaid (headerWith_lines_ne_nil p _ _) hlines

/-- A name without line ends leaves the header in its shape, under keys that may not be the name. -/
lemma again_of_isLine (hp : IsLine p.target) (hs : shader ≠ "") (hline : IsLine shader)
    (bs : List Binding) : ∃ tables rows rest newTables newRows,
      Again p shader bs tables rows rest newTables newRows := by
  have hgetD : ∀ o : Option String, o.getD "" = shader ↔ o = some shader := by
    intro o
    cases o with
    | none => simpa using hs.symm
    | some s => simp
  refine ⟨⟨headerFront p ++ [collectionsOpening], collections, [tableAsRead shader bs]⟩,
    ⟨headerMiddle ++ [registryOpening], registry, [rowAsRead shader bs]⟩, headerEnd p, _, _,
    parse_of_isLine hp hline bs, ⟨rfl, rfl⟩, upserted_singleton _ _ _, upserted_singleton _ _ _,
    ?_, ?_⟩
  · rw [plainName_iff hs bs.length, ← hgetD, ← hgetD, List.append_eq_nil_iff]
    simp
  · intro e he
    rcases List.mem_append.mp he with he | he
    · split at he
      · simp at he
      · rw [List.mem_singleton.mp he]
        exact tableLines_ne_nil shader bs
    · split at he
      · simp at he
      · rw [List.mem_singleton.mp he]
        simp

/-- A name with line ends is the key of no entry, since keys are read from lines. -/
lemma again_of_not_isLine (hs : shader ≠ "") (hline : ¬ IsLine shader)
    (bs : List Binding) : ∃ tables rows rest newTables newRows,
      Again p shader bs tables rows rest newTables newRows := by
  obtain ⟨⟨blocks, rest⟩, hparse⟩ := exists_parse_headerDocument p [(shader, bs)]
  have hreadable := readable_of_parse hparse
  obtain ⟨tables, rows, rfl, htables, hrows⟩ := blocks_of_laid hreadable.laid
  have hkeys : ∀ b ∈ [tables, rows],
      (∀ l k, IsLine l → b.spec.key l = some k → IsLine k) → ∀ e ∈ b.entries, e.key ≠ shader := by
    rintro b hb hkey e he rfl
    obtain ⟨-, -, -, hgrouped⟩ := hreadable.laid.block hb
    rcases key_of_grouped hgrouped he with hempty | ⟨l, hl, hl'⟩
    · exact hs hempty
    · refine hline (hkey l _ (hreadable.isLine l ?_) hl')
      refine List.mem_append_left _ (List.mem_flatMap.mpr ⟨b, hb, ?_⟩)
      exact List.mem_append_right _ hl
  have htables' := hkeys tables (by simp) fun l k hl h => isLine_of_collections_key hl (htables ▸ h)
  have hrows' := hkeys rows (by simp) fun l k hl h => isLine_of_registry_key hl (hrows ▸ h)
  refine ⟨tables, rows, rest, _, _, hparse, ⟨htables, hrows⟩, upserted_of_ne htables' _,
    upserted_of_ne hrows' _, ?_, ?_⟩
  · simpa using fun h : PlainName shader => hline (isLine_of_plain h.plain)
  · simp [tableLines_ne_nil]

/-- Further entries make a text longer. -/
lemma length_text_lt {tables rows : Block} {rest : List String}
    (hne : (Document.mk [tables, rows] rest).lines ≠ []) {newTables newRows : List DocumentEntry}
    (hnew : newTables ++ newRows ≠ []) (hlines : ∀ e ∈ newTables ++ newRows, e.lines ≠ []) :
    (Document.mk [tables, rows] rest).text.length <
      (Document.mk [{ tables with entries := tables.entries ++ newTables },
        { rows with entries := rows.entries ++ newRows }] rest).text.length := by
  have hpos : 0 < extent ((newTables ++ newRows).flatMap DocumentEntry.lines) := by
    obtain ⟨e, es, he⟩ := List.exists_cons_of_ne_nil hnew
    exact extent_pos fun h =>
      hlines e (by simp [he]) (List.flatMap_eq_nil_iff.mp h e (by simp [he]))
  unfold Document.text
  refine length_unlines_lt hne ?_
  simp only [Document.lines, Block.lines, List.flatMap_cons, List.flatMap_nil, List.append_nil,
    List.flatMap_append, extent_append] at hpos ⊢
  omega

/-- Recording the shader of a header once more leaves its text exactly if the name is plain. -/
lemma record_again (hp : IsLine p.target) (hs : shader ≠ "") (bs : List Binding) :
    ∃ doc replaced doc', parse headerSections (headerDocument p [(shader, bs)]).text = .ok doc ∧
      recordShader shader bs doc = .ok (replaced, doc') ∧
      (doc'.text = (headerDocument p [(shader, bs)]).text ↔ PlainName shader) := by
  obtain ⟨tables, rows, rest, newTables, newRows, h⟩ : ∃ tables rows rest newTables newRows,
      Again p shader bs tables rows rest newTables newRows := by
    by_cases hline : IsLine shader
    · exact again_of_isLine hp hs hline bs
    · exact again_of_not_isLine hs hline bs
  obtain ⟨replaced, hrecord⟩ := recordShader_blocks tables rows h.spec.1 h.spec.2 rest hs bs
  refine ⟨_, replaced, _, h.parse, hrecord, ?_⟩
  rw [h.tables, h.rows, ← text_of_parse h.parse, ← h.new]
  constructor
  · intro htext
    by_contra hnew
    have hlt := length_text_lt (readable_of_parse h.parse).ne_nil hnew h.lines
    rw [htext] at hlt
    exact Nat.lt_irrefl _ hlt
  · intro hnew
    obtain ⟨htables, hrows⟩ := List.append_eq_nil_iff.mp hnew
    rw [htables, hrows, List.append_nil, List.append_nil]

/-! ### The file -/

lemma recordMerge_of_read {t : FileTree} {text : String}
    (hread : t.read p.targetPath = .ok text) (hopen : t.Unlocked p.targetPath)
    {doc doc' : Document} {replaced : Bool} (hparse : parse headerSections text = .ok doc)
    (hrecord : recordShader shader bs doc = .ok (replaced, doc')) :
    (recordMerge p shader bs t).error = none ∧
      (recordMerge p shader bs t).files.read p.targetPath = .ok doc'.text := by
  have hor : t.readOr p.targetPath (targetHeaderText p.target p.common) = (.ok text, t) := by
    simp [FileTree.readOr, hread]
  obtain ⟨t', hwrite⟩ := FileTree.write_of_read hread hopen doc'.text
  have hmerge : recordMerge p shader bs t =
      { files := t', report := some replaced, error := none } := by
    simp only [recordMerge, FileTree.merge, hor, hparse, hrecord, hwrite]
  rw [hmerge]
  exact ⟨rfl, FileTree.read_write hwrite⟩

/-- A shader is recorded in the skeleton of a target header that is not locked, and then once more.
Neither fails, and the header stays the same the second time exactly if no character of the name is
escaped between quotes and the name does not end in white space. -/
theorem recordMerge_twice {p : HeaderPlace} (hp : IsLine p.target) {shader : String}
    (hs : shader ≠ "") (bs : List Binding) {t : FileTree}
    (ht : t.read p.targetPath = .ok (targetHeaderText p.target p.common))
    (hopen : t.Unlocked p.targetPath) :
    let once := recordMerge p shader bs t
    let twice := recordMerge p shader bs once.files
    once.error = none ∧ twice.error = none ∧
      ∃ text text', once.files.read p.targetPath = .ok text ∧
        twice.files.read p.targetPath = .ok text' ∧
        (text' = text ↔ quote shader = "\"" ++ shader ++ "\"" ∧
          ∀ c, shader.toList.getLast? = some c → isBlank c = false) := by
  intro once twice
  obtain ⟨replaced, hrecord⟩ := recordShader_headerDocument p [] hs bs
  rw [Records.put] at hrecord
  rw [← headerDocument_nil_text] at ht
  obtain ⟨herror, hread⟩ :=
    recordMerge_of_read ht hopen (parse_headerDocument hp (List.forall_mem_nil _)) hrecord
  obtain ⟨doc, replaced', doc', hparse, hrecord', hiff⟩ := record_again hp hs bs
  obtain ⟨herror', hread'⟩ := recordMerge_of_read hread (hopen.merge _ _ _ _) hparse hrecord'
  refine ⟨herror, herror', _, _, hread, hread', hiff.trans ?_⟩
  constructor
  · intro h
    exact ⟨quote_of_plain h.plain, h.last⟩
  · rintro ⟨hquote, hlast⟩
    exact ⟨hs, escape_of_quote hquote, hlast⟩

def emberPlace : HeaderPlace := ⟨"gen", "Ember", "Common.h"⟩

def emberFiles : FileTree where
  entries := [(["gen"], .directory),
    (["gen", targetHeaderName "Ember"], .file (targetHeaderText "Ember" "Common.h"))]

def emberOnce (shader : String) (bs : List Binding) : Merge Bool :=
  recordMerge emberPlace shader bs emberFiles

def emberTwice (shader : String) (bs : List Binding) : Merge Bool :=
  recordMerge emberPlace shader bs (emberOnce shader bs).files

/-- A name whose second line closes the section that it is recorded in. -/
def closingName : String := "Glow\n" ++ collectionsClosing

/-- Such a name is recorded twice, and a plain one with a blank in it only once. -/
theorem recordMerge_twice_closingName :
    IsLine emberPlace.target ∧
      emberFiles.read emberPlace.targetPath = .ok (targetHeaderText "Ember" "Common.h") ∧
      emberFiles.Unlocked emberPlace.targetPath ∧
      (∀ shader ∈ [closingName, "Warm glow"], shader ≠ "" ∧ ∀ bs,
        (emberOnce shader bs).error = none ∧ (emberTwice shader bs).error = none) ∧
      (∀ bs, (emberTwice closingName bs).files.read emberPlace.targetPath ≠
        (emberOnce closingName bs).files.read emberPlace.targetPath) ∧
      ∀ bs, (emberTwice "Warm glow" bs).files.read emberPlace.targetPath =
        (emberOnce "Warm glow" bs).files.read emberPlace.targetPath := by
  have hp : IsLine emberPlace.target := by decide
  have hread : emberFiles.read emberPlace.targetPath =
      .ok (targetHeaderText emberPlace.target emberPlace.common) := by decide +kernel
  have hopen : emberFiles.Unlocked emberPlace.targetPath := List.not_mem_nil
  have hquote : quote closingName ≠ "\"" ++ closingName ++ "\"" := by decide +kernel
  have hplain : quote "Warm glow" = "\"" ++ "Warm glow" ++ "\"" := by decide +kernel
  refine ⟨hp, hread, hopen, fun shader hmem => ?_, fun bs => ?_, fun bs => ?_⟩
  · have hs : shader ≠ "" := by
      revert shader
      decide
    refine ⟨hs, fun bs => ?_⟩
    obtain ⟨herror, herror', -⟩ := recordMerge_twice hp hs bs hread hopen
    exact ⟨herror, herror'⟩
  · obtain ⟨-, -, text, text', htext, htext', hiff⟩ :=
      recordMerge_twice hp (by decide : closingName ≠ "") bs hread hopen
    intro hsame
    exact hquote (hiff.mp (Except.ok.inj (htext'.symm.trans (hsame.trans htext)))).1
  · obtain ⟨-, -, text, text', htext, htext', hiff⟩ :=
      recordMerge_twice hp (by decide : "Warm glow" ≠ "") bs hread hopen
    have hlast : "Warm glow".toList.getLast? = some 'w' := by decide +kernel
    obtain rfl : text' = text := hiff.mpr ⟨hplain, fun c hc => by
      obtain rfl := Option.some.inj (hlast.symm.trans hc)
      decide⟩
    exact htext'.trans htext.symm

end Shaderwright.Hlsl
