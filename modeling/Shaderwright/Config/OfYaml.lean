import Shaderwright.Config.Format
import Shaderwright.Yaml.Decode

/-!
Configurations in YAML. What a text does not set keeps its standard value, and a key that no
setting has is an error.
-/

namespace Shaderwright.Config

open Yaml

def yamlHlsl (h : HlslSettings) (fields : Fields) : Decoding HlslSettings := do
  let headerDir ← field fields "header_dir" Node.text?
  let targetType ← field fields "target_type" Node.text?
  let commonHeader ← field fields "common_header" Node.text?
  let slotBudget ← field fields "slot_budget" Node.int?
  let budgetPolicy ← field fields "budget_policy" Node.text?
  let paintFunction ← field fields "paint_function" Node.text?
  let paintSignature ← field fields "paint_signature" (Node.items? Node.text?)
  onlyKeys ["header_dir", "target_type", "common_header", "slot_budget", "budget_policy",
    "paint_function", "paint_signature"] fields
  return {
    headerDir := headerDir.getD h.headerDir
    targetType := targetType.getD h.targetType
    commonHeader := commonHeader.getD h.commonHeader
    slotBudget := (slotBudget.map Int64.ofInt).getD h.slotBudget
    budgetPolicy := budgetPolicy.getD h.budgetPolicy
    paintFunction := paintFunction.getD h.paintFunction
    paintSignature := paintSignature.getD h.paintSignature }

def yamlMetadata (m : MetadataSettings) (fields : Fields) : Decoding MetadataSettings := do
  let macOS ← field fields "macos" Node.text?
  let iOS ← field fields "ios" Node.text?
  onlyKeys ["macos", "ios"] fields
  return ⟨macOS.getD m.macOS, iOS.getD m.iOS⟩

def yamlMsl (m : MslSettings) (fields : Fields) : Decoding MslSettings := do
  let headerDir ← field fields "header_dir" Node.text?
  let commonHeader ← field fields "common_header" Node.text?
  let iosMarker ← field fields "ios_marker" Node.text?
  let metadata ← field fields "metadata_headers" (Node.record? (yamlMetadata m.metadataHeaders))
  onlyKeys ["header_dir", "common_header", "ios_marker", "metadata_headers"] fields
  return {
    headerDir := headerDir.getD m.headerDir
    commonHeader := commonHeader.getD m.commonHeader
    iosMarker := iosMarker.getD m.iosMarker
    metadataHeaders := metadata.getD m.metadataHeaders }

def yamlConfig (c : Config) (fields : Fields) : Decoding Config := do
  let logLevel ← field fields "log_level" Node.text?
  let hlsl ← field fields "hlsl" (Node.record? (yamlHlsl c.hlsl))
  let msl ← field fields "msl" (Node.record? (yamlMsl c.msl))
  onlyKeys ["log_level", "hlsl", "msl"] fields
  return ⟨logLevel.getD c.logLevel, hlsl.getD c.hlsl, msl.getD c.msl⟩

/-- A text without any document sets every setting to nothing. -/
def ofYaml (c : Config) (text : String) : Except ReadError Config :=
  match Yaml.read text with
  | .error _ => .error (.malformed .yaml)
  | .ok none => .ok unset
  | .ok (some document) =>
    match document.node.fields >>= yamlConfig c with
    | .ok c => .ok c
    | .error .mismatch => .error (.malformed .yaml)
    | .error .unknownField => .error (.unknownField .yaml)

end Shaderwright.Config
