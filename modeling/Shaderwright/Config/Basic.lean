import Shaderwright.Config.Level
import Shaderwright.Hlsl.Compile
import Shaderwright.Msl.Compile

/-!
The configuration of a build, and which configurations are valid.
-/

namespace Shaderwright

structure HlslSettings where
  headerDir : String
  targetType : String
  commonHeader : String
  slotBudget : Int64
  budgetPolicy : String
  paintFunction : String
  paintSignature : List String
  deriving DecidableEq, Repr, Inhabited

structure MetadataSettings where
  macOS : String
  iOS : String
  deriving DecidableEq, Repr, Inhabited

structure MslSettings where
  headerDir : String
  commonHeader : String
  iosMarker : String
  metadataHeaders : MetadataSettings
  deriving DecidableEq, Repr, Inhabited

structure Config where
  logLevel : String
  hlsl : HlslSettings
  msl : MslSettings
  deriving DecidableEq, Repr, Inhabited

/-- The first setting that is wrong. -/
inductive SettingError where
  | level (text : String) (why : LevelFault)
  | targetUnset
  | hlslCommonUnset
  | budgetNotPositive (budget : Int64)
  | policy (text : String)
  | paintFunctionUnset
  | signature (index : Nat) (name : String)
  | mslCommonUnset
  | metadataUnset
  | metadataEqual (name : String)
  deriving DecidableEq, Repr

namespace SettingError

def message : SettingError → String
  | level text why => "log_level: " ++ why.message text
  | targetUnset => "hlsl.target_type must be set"
  | hlslCommonUnset => "hlsl.common_header must be set"
  | budgetNotPositive n => "hlsl.slot_budget must be positive, got " ++ toString n.toInt
  | policy text => "hlsl.budget_policy must be \"fatal\" or \"warn\", got " ++ Text.quote text
  | paintFunctionUnset => "hlsl.paint_function must be set"
  | signature i name =>
    "hlsl.paint_signature[" ++ toString i ++ "]: " ++ Text.quote name ++ " is not a numeric type"
  | mslCommonUnset => "msl.common_header must be set"
  | metadataUnset => "msl.metadata_headers.macos and msl.metadata_headers.ios must be set"
  | metadataEqual name => "msl metadata headers must differ, both are " ++ Text.quote name

end SettingError

namespace Config

/-- The settings that compile without writing any header. -/
def standard : Config where
  logLevel := "warn"
  hlsl :=
    let o : Hlsl.Options := {}
    { headerDir := o.headerDir
      targetType := o.target
      commonHeader := o.commonHeader
      slotBudget := o.slotBudget
      budgetPolicy := o.budgetPolicy.text
      paintFunction := o.paintFunction
      paintSignature := o.paintSignature.map ShaderType.name }
  msl :=
    { headerDir := ""
      commonHeader := Msl.defaultCommonHeader
      iosMarker := ({} : Msl.Options).iosMarker
      metadataHeaders :=
        { macOS := (Msl.defaultMetadataHeaders.lookup .macOS).getD ""
          iOS := (Msl.defaultMetadataHeaders.lookup .iOS).getD "" } }

/-- Nothing set at all. -/
def unset : Config where
  logLevel := ""
  hlsl := ⟨"", "", "", 0, "", "", []⟩
  msl := ⟨"", "", "", ⟨"", ""⟩⟩

def level (c : Config) : Except SettingError Threshold :=
  (Threshold.parse c.logLevel).mapError (.level c.logLevel)

end Config

namespace HlslSettings

def policy (h : HlslSettings) : Except SettingError Hlsl.BudgetPolicy :=
  match Hlsl.BudgetPolicy.parse? h.budgetPolicy with
  | some p => .ok p
  | none => .error (.policy h.budgetPolicy)

/-- The types that names from position `i` on stand for. -/
def signatureFrom (i : Nat) : List String → Except SettingError (List ShaderType)
  | [] => .ok []
  | name :: rest =>
    match ShaderType.parse? name with
    | some t =>
      if t.isNumeric then (signatureFrom (i + 1) rest).map (t :: ·) else .error (.signature i name)
    | none => .error (.signature i name)

def signature (h : HlslSettings) : Except SettingError (List ShaderType) :=
  signatureFrom 0 h.paintSignature

def options (h : HlslSettings) : Except SettingError Hlsl.Options := do
  let policy ← h.policy
  let signature ← h.signature
  return {
    target := h.targetType
    headerDir := h.headerDir
    commonHeader := h.commonHeader
    slotBudget := h.slotBudget
    budgetPolicy := policy
    paintFunction := h.paintFunction
    paintSignature := signature }

def validate (h : HlslSettings) : Except SettingError Unit := do
  if h.targetType = "" then throw .targetUnset
  if h.commonHeader = "" then throw .hlslCommonUnset
  if h.slotBudget ≤ 0 then throw (.budgetNotPositive h.slotBudget)
  discard h.policy
  if h.paintFunction = "" then throw .paintFunctionUnset
  discard h.signature

end HlslSettings

namespace MslSettings

def metadataNames (m : MslSettings) : List (Msl.Variant × String) :=
  [(.macOS, m.metadataHeaders.macOS), (.iOS, m.metadataHeaders.iOS)]

def library (m : MslSettings) : Msl.Library :=
  Msl.Library.new m.commonHeader (some m.metadataNames)

def validate (m : MslSettings) : Except SettingError Unit := do
  if m.commonHeader = "" then throw .mslCommonUnset
  if m.metadataHeaders.macOS = "" || m.metadataHeaders.iOS = "" then throw .metadataUnset
  if m.metadataHeaders.macOS = m.metadataHeaders.iOS then
    throw (.metadataEqual m.metadataHeaders.macOS)

end MslSettings

/-- The settings are checked in the order in which they are listed. -/
def Config.validate (c : Config) : Except SettingError Unit := do
  discard c.level
  c.hlsl.validate
  c.msl.validate

end Shaderwright
