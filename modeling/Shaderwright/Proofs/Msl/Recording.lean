import Mathlib.Tactic.Common
import Shaderwright.Proofs.Document.Placement
import Shaderwright.Proofs.Msl.LibraryHistory

/-!
Recording a shader in a library never fails. The markers of a metadata header stand at its end, so
its skeleton can be read whatever the name of the common header does to the lines in front of them,
and nothing that is recorded takes a section away.
-/

namespace Shaderwright.Msl

open Shaderwright.Text Shaderwright.Document

def Sectioned (doc : Document) : Prop := doc.blocks.map Block.spec = metadataSections

lemma Sectioned.exists_eq {doc : Document} (h : Sectioned doc) :
    ∃ before shaders before' dispatch rest,
      doc = ⟨[⟨before, metadataSection, shaders⟩, ⟨before', dispatchSection, dispatch⟩], rest⟩ := by
  obtain ⟨blocks, rest⟩ := doc
  obtain ⟨⟨before, spec, shaders⟩, blocks, rfl, hspec, hblocks⟩ := List.map_eq_cons_iff.mp h
  obtain ⟨⟨before', spec', dispatch⟩, blocks, rfl, hspec', hblocks⟩ :=
    List.map_eq_cons_iff.mp hblocks
  obtain rfl := List.map_eq_nil_iff.mp hblocks
  obtain rfl : spec = metadataSection := hspec
  obtain rfl : spec' = dispatchSection := hspec'
  exact ⟨before, shaders, before', dispatch, rest, rfl⟩

lemma marked_metadataHeaderText (v : Variant) (common : String) :
    Marked metadataSections (Text.lines (metadataHeaderText v common)) := by
  have hsuffix : [metadataOpening, metadataClosing, "", dispatchOpening, dispatchClosing, ""] <:+
      Text.lines (metadataHeaderText v common) := by
    have hmarkers : [metadataOpening, metadataClosing, "", dispatchOpening, dispatchClosing,
        ""].flatMap Text.lines =
          [metadataOpening, metadataClosing, "", dispatchOpening, dispatchClosing, ""] :=
      flatMap_lines (by decide)
    rw [metadataHeaderText, lines_unlines_flatMap (by simp), ← hmarkers]
    exact ⟨[_, _, _, _, _, _, _].flatMap Text.lines, List.flatMap_append.symm⟩
  refine Marked.mono ?_ hsuffix
  exact ⟨_, _, _, _, List.suffix_rfl, by decide, List.suffix_rfl, by decide, _, _, _, _,
    ⟨[metadataClosing, ""], rfl⟩, by decide, List.suffix_rfl, by decide, trivial⟩

lemma exists_parse_metadataHeaderText (v : Variant) (common : String) :
    ∃ doc, parse metadataSections (metadataHeaderText v common) = .ok doc ∧ Sectioned doc := by
  obtain ⟨doc, hdoc⟩ := exists_ofLines (marked_metadataHeaderText v common) _
  exact ⟨doc, hdoc, specs_of_laid (laid_of_ofLines hdoc).1⟩

lemma exists_recordIn {doc : Document} (hdoc : Sectioned doc) {shader : String} (h : shader ≠ "")
    (us : List Uniform) :
    ∃ doc', Library.recordIn doc shader us = .ok doc' ∧ Sectioned doc' ∧
      doc'.blocks.map Block.before = doc.blocks.map Block.before := by
  obtain ⟨before, shaders, before', dispatch, rest, rfl⟩ := hdoc.exists_eq
  simp [Library.recordIn, upsert, keys, Document.set, block?, updateLast, h, metadataSection,
    dispatchSection, metadataSections, Sectioned, Bind.bind, Except.bind]

namespace Library

/-- Every header that was begun has its sections, and every header has a file name. -/
structure Ready (l : Library) : Prop where
  sections : ∀ v doc, l.document? v = some doc → Sectioned doc
  named : ∀ v, ∃ name, l.metadataHeaders.lookup v = some name

lemma Ready.openDocument {l : Library} (hl : l.Ready) (v : Variant) :
    ∃ doc, l.openDocument v = .ok doc ∧ Sectioned doc := by
  unfold Library.openDocument
  rcases hdoc : l.document? v with _ | doc
  · exact exists_parse_metadataHeaderText v l.commonHeader
  · exact ⟨doc, rfl, hl.sections v doc hdoc⟩

/-- A shader with a name is recorded, and the library is ready for the next one. -/
lemma Ready.record {l : Library} (hl : l.Ready) {shader : String} (h : shader ≠ "") (v : Variant)
    (us : List Uniform) :
    (l.record shader v us).1 = .ok () ∧ (l.record shader v us).2.Ready := by
  obtain ⟨doc, hopen, hdoc⟩ := hl.openDocument v
  obtain ⟨doc', hrecord, hdoc', -⟩ := exists_recordIn hdoc h us
  rw [record_eq_ok hopen hrecord]
  refine ⟨rfl, fun u d hd => ?_, hl.named⟩
  have hd' : (if u = v then some doc' else l.document? u) = some d :=
    (document?_setDocument l v u doc').symm.trans hd
  split at hd'
  · exact Option.some.inj hd' ▸ hdoc'
  · exact hl.sections u d hd'

end Library

end Shaderwright.Msl
