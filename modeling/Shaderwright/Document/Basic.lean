import Shaderwright.Text.Basic
import Shaderwright.Text.Quoted

/-!
Marked documents: texts in which marker lines bound sections that a program maintains. Inside a
section the lines form entries, each started by a line that carries its key. Everything outside
the sections is kept as it is.
-/

namespace Shaderwright

/-- A section between two marker lines. -/
structure Section where
  name : String
  opening : String
  closing : String
  /-- The key of a line that starts an entry. -/
  key : String → Option String

structure DocumentEntry where
  key : String
  lines : List String
  deriving DecidableEq, Repr, Inhabited

/-- A section with the lines in front of it, the opening marker among them. The closing marker
belongs to the text behind the section. -/
structure Block where
  before : List String
  spec : Section
  entries : List DocumentEntry

structure Document where
  blocks : List Block
  /-- The text behind the last section. -/
  rest : List String

inductive DocumentError where
  | missingMarker (marker : String)
  | markerOrder (marker : String)
  | unknownSection (name : String)
  | emptyKey (sectionName : String)
  deriving DecidableEq, Repr

namespace DocumentError

def message : DocumentError → String
  | missingMarker marker => "missing sentinel line: " ++ Text.quote marker
  | markerOrder marker => "sentinel lines out of order: " ++ Text.quote marker
  | unknownSection name => "unknown section: " ++ Text.quote name
  | emptyKey sectionName => "empty entry key in section " ++ Text.quote sectionName

end DocumentError

namespace Document

def isMarker (marker line : String) : Bool := Text.trim line == marker

def splitAtMarker (marker : String) : List String → Option (List String × String × List String)
  | [] => none
  | line :: rest =>
    if isMarker marker line then some ([], line, rest)
    else
      (splitAtMarker marker rest).map fun (before, found, behind) =>
        (line :: before, found, behind)

/-- Group lines into entries: a line with a key starts one, and the lines in front of the first
key line form one without a key. -/
def entriesOf (key : String → Option String) : List String → List DocumentEntry
  | [] => []
  | line :: rest =>
    let (body, others) := group key rest
    ⟨(key line).getD "", line :: body⟩ :: others
where
  /-- The lines up to the next key line, and the entries from there on. -/
  group (key : String → Option String) : List String → List String × List DocumentEntry
    | [] => ([], [])
    | line :: rest =>
      let (body, others) := group key rest
      match key line with
      | none => (line :: body, others)
      | some k => ([], ⟨k, line :: body⟩ :: others)

/-- A marker that cannot be placed: it stands too early, or nowhere. -/
def unplaced (all : List String) (marker : String) : DocumentError :=
  if all.any (isMarker marker) then .markerOrder marker else .missingMarker marker

/-- Read the sections in their order from the lines that are left of all lines. -/
def ofLines (all : List String) : List Section → List String → Except DocumentError Document
  | [], lines => .ok ⟨[], lines⟩
  | s :: sections, lines =>
    match splitAtMarker s.opening lines with
    | none => .error (unplaced all s.opening)
    | some (before, opening, behind) =>
      match splitAtMarker s.closing behind with
      | none => .error (unplaced all s.closing)
      | some (body, closing, rest) => do
        let doc ← ofLines all sections (closing :: rest)
        return { doc with blocks := ⟨before ++ [opening], s, entriesOf s.key body⟩ :: doc.blocks }

def parse (sections : List Section) (text : String) : Except DocumentError Document :=
  ofLines (Text.lines text) sections (Text.lines text)

def Block.lines (b : Block) : List String :=
  b.before ++ b.entries.flatMap DocumentEntry.lines

def lines (doc : Document) : List String :=
  doc.blocks.flatMap Block.lines ++ doc.rest

def text (doc : Document) : String := Text.unlines doc.lines

def sectionNames (doc : Document) : List String := doc.blocks.map fun b => b.spec.name

/-- The section of this name; of several with one name the last. -/
def block? (doc : Document) (name : String) : Option Block :=
  doc.blocks.reverse.find? fun b => b.spec.name = name

def updateLast (name : String) (f : Block → Block) : List Block → List Block
  | [] => []
  | b :: rest =>
    if b.spec.name = name && !(rest.any fun r => r.spec.name = name) then f b :: rest
    else b :: updateLast name f rest

def keys (doc : Document) (name : String) : Except DocumentError (List String) :=
  match doc.block? name with
  | none => .error (.unknownSection name)
  | some b => .ok ((b.entries.map DocumentEntry.key).filter (· ≠ ""))

def entry? (doc : Document) (name key : String) : Option DocumentEntry := do
  (← doc.block? name).entries.find? fun e => e.key = key

def replaceEntry (key : String) (lines : List String) : List DocumentEntry → List DocumentEntry
  | [] => []
  | e :: rest =>
    if e.key = key then { e with lines := lines } :: rest else e :: replaceEntry key lines rest

/-- Give the entry of a key these lines, or add an entry at the end of the section. The answer
tells whether there was one to replace. -/
def upsert (doc : Document) (name key : String) (lines : List String) :
    Except DocumentError (Bool × Document) :=
  match doc.block? name with
  | none => .error (.unknownSection name)
  | some b =>
    if key = "" then .error (.emptyKey name)
    else
      let replaced := b.entries.any fun e => e.key = key
      let entries :=
        if replaced then replaceEntry key lines b.entries else b.entries ++ [⟨key, lines⟩]
      .ok (replaced,
        { doc with blocks := updateLast name (fun b => { b with entries := entries }) doc.blocks })

def set (doc : Document) (name : String) (lines : List String) : Except DocumentError Document :=
  match doc.block? name with
  | none => .error (.unknownSection name)
  | some _ =>
    .ok { doc with
      blocks := updateLast name (fun b => { b with entries := entriesOf b.spec.key lines })
        doc.blocks }

end Document

def markedKey? (mark line : String) : Option String :=
  (Text.behind? mark.toList (Text.trim line).toList).map String.ofList

end Shaderwright
