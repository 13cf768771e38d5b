import Shaderwright.Config.Format
import Shaderwright.Toml.Definition
import Shaderwright.Toml.Document

/-!
Configurations in TOML. The statements of a text are carried out one after another, and the first
that cannot be ends it. A key that no setting has is passed over and reported at the end.
-/

namespace Shaderwright.Config

open Toml

/-! ### Finding settings -/

/-- What the settings below a table hold. Keys are compared in lower case. -/
def shapeBelow : List String → String → Option Shape
  | [], "log_level" => some .text
  | [], "hlsl" => some .table
  | [], "msl" => some .table
  | ["hlsl"], "header_dir" => some .text
  | ["hlsl"], "target_type" => some .text
  | ["hlsl"], "common_header" => some .text
  | ["hlsl"], "slot_budget" => some .integer
  | ["hlsl"], "budget_policy" => some .text
  | ["hlsl"], "paint_function" => some .text
  | ["hlsl"], "paint_signature" => some .texts
  | ["msl"], "header_dir" => some .text
  | ["msl"], "common_header" => some .text
  | ["msl"], "ios_marker" => some .text
  | ["msl"], "metadata_headers" => some .table
  | ["msl", "metadata_headers"], "macos" => some .text
  | ["msl", "metadata_headers"], "ios" => some .text
  | _, _ => none

/-- Where a path of keys leads. -/
inductive Reach where
  | setting (path : List String) (shape : Shape)
  | unknown
  /-- Beyond a setting that is no table. -/
  | below (shape : Shape)
  deriving DecidableEq, Repr

/-- Follow keys from the table at `path`. -/
def reach (path : List String) : List String → Reach
  | [] => .setting path .table
  | key :: rest =>
    let key := Text.lower key
    match shapeBelow path key with
    | none => .unknown
    | some .table => reach (path ++ [key]) rest
    | some shape => if rest.isEmpty then .setting (path ++ [key]) shape else .below shape

/-! ### Giving values -/

def setText (c : Config) (s : String) : List String → Config
  | ["log_level"] => { c with logLevel := s }
  | ["hlsl", "header_dir"] => { c with hlsl.headerDir := s }
  | ["hlsl", "target_type"] => { c with hlsl.targetType := s }
  | ["hlsl", "common_header"] => { c with hlsl.commonHeader := s }
  | ["hlsl", "budget_policy"] => { c with hlsl.budgetPolicy := s }
  | ["hlsl", "paint_function"] => { c with hlsl.paintFunction := s }
  | ["msl", "header_dir"] => { c with msl.headerDir := s }
  | ["msl", "common_header"] => { c with msl.commonHeader := s }
  | ["msl", "ios_marker"] => { c with msl.iosMarker := s }
  | ["msl", "metadata_headers", "macos"] => { c with msl.metadataHeaders.macOS := s }
  | ["msl", "metadata_headers", "ios"] => { c with msl.metadataHeaders.iOS := s }
  | _ => c

structure Progress where
  config : Config
  hasUnknown : Bool := false

def malformedToml {α : Type} : Except ReadError α := .error (.malformed .toml)

def itemText? : Value → Option String
  | .text s => some s
  | _ => none

/-- Give a value that is no table to what keys lead to. -/
def assignSingle (p : Progress) : Reach → Value → Except ReadError Progress
  | .unknown, _ => .ok { p with hasUnknown := true }
  | .below shape, _ => .error (.belowSetting shape)
  | .setting path .text, .text s => .ok { p with config := setText p.config s path }
  | .setting _ .integer, .integer n =>
    if Number.isInt64 n then
      .ok { p with config := { p.config with hlsl.slotBudget := Int64.ofInt n } }
    else malformedToml
  | .setting _ .texts, .array items =>
    match items.mapM itemText? with
    | some texts => .ok { p with config := { p.config with hlsl.paintSignature := texts } }
    | none => malformedToml
  | .setting _ _, _ => malformedToml

mutual

/-- Give a value to the setting that keys lead to from the table at `path`. -/
def assignValue (path key : List String) (p : Progress) : Value → Except ReadError Progress
  | .table fields =>
    match reach path key with
    | .setting path .table => assignFields path p fields
    | r => assignSingle p r (.table [])
  | v => assignSingle p (reach path key) v

def assignFields (path : List String) (p : Progress) :
    List (List String × Value) → Except ReadError Progress
  | [] => .ok p
  | (key, v) :: rest => do assignFields path (← assignValue path key p v) rest

end

/-! ### Carrying out statements -/

/-- What the keys of the next statements are below of. -/
inductive OpenTable where
  | settings (path : List String)
  /-- A setting that is no table, so that it takes no keys. -/
  | single (shape : Shape)
  /-- A table that is passed over, whatever it holds. -/
  | unknown
  deriving DecidableEq, Repr

structure Reading where
  progress : Progress
  definitions : Definitions := []
  /-- The table that is open, as it was written. -/
  path : List String := []
  table : OpenTable := .settings []

namespace Reading

def define (r : Reading) (ds : Option Definitions) (path : List String) :
    Except ReadError Reading :=
  match ds with
  | some ds => .ok { r with definitions := ds, path := path }
  | none => malformedToml

def openUnknown (r : Reading) : Reading :=
  { r with table := .unknown, progress := { r.progress with hasUnknown := true } }

/-- Open a table. A setting that is no table can be opened as well, but nothing can be put into
it; a list stands for its last item. -/
def openTable (r : Reading) (path : List String) : Except ReadError Reading := do
  let r ← r.define (r.definitions.openTable path) path
  let isEmptyList (shape : Shape) : Bool :=
    shape = .texts && r.progress.config.hlsl.paintSignature.isEmpty
  match reach [] path with
  | .unknown => return r.openUnknown
  | .below shape => if isEmptyList shape then malformedToml else .error .tableBelowSetting
  | .setting path .table => return { r with table := .settings path }
  | .setting _ shape =>
    if isEmptyList shape then malformedToml
    else return { r with table := .single (if shape = .texts then .text else shape) }

/-- Open one more table of an array. An array of texts gets an empty text, and loses the standard
ones on the first time. -/
def openRepeated (r : Reading) (path : List String) : Except ReadError Reading := do
  let isFirst := (r.definitions.lookup path).isNone
  let r ← r.define (r.definitions.openRepeated path) path
  match reach [] path with
  | .unknown => return r.openUnknown
  | .below _ => .error .tableBelowSetting
  | .setting _ .texts =>
    let c := r.progress.config
    let texts := (if isFirst then [] else c.hlsl.paintSignature) ++ [""]
    let c : Config := { c with hlsl.paintSignature := texts }
    return { r with table := .single .text, progress := { r.progress with config := c } }
  | .setting _ _ => malformedToml

/-- Give a value to a key below the table that is open. -/
def assign (r : Reading) (key : List String) (v : Value) : Except ReadError Reading := do
  match r.table with
  | .unknown => return r
  | .single shape =>
    let _ ← r.define (r.definitions.assign r.path key) r.path
    if v.isDistinct then .error (.belowSetting shape) else malformedToml
  | .settings path =>
    let r ← r.define (r.definitions.assign r.path key) r.path
    if v.isDistinct then return { r with progress := ← assignValue path key r.progress v }
    else malformedToml

def carryOut (r : Reading) : Statement → Except ReadError Reading
  | .table path => r.openTable path
  | .repeated path => r.openRepeated path
  | .assign key v => r.assign key v

end Reading

def ofToml (c : Config) (text : String) : Except ReadError Config := do
  let source := Toml.read text
  let r ← source.statements.foldlM Reading.carryOut { progress := { config := c } }
  if !source.isComplete then malformedToml
  else if r.progress.hasUnknown then .error (.unknownField .toml)
  else .ok r.progress.config

end Shaderwright.Config
