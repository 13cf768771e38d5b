import Shaderwright.Build.World
import Shaderwright.Config.Level
import Shaderwright.Text.Basic

/-!
Log records as lines of `key=value` pairs.
-/

namespace Shaderwright

/-- Whether a character can only stand between quotes. -/
def needsQuotes (c : Char) : Bool :=
  if c.toNat < 0x80 then c.toNat ≤ 0x20 || c == '=' || c == '"'
  else c == '\ufffd' || Text.isBlank c || !Text.isPrintable c

/-- A text as the value of a pair, between quotes if it needs them. -/
def bareOrQuoted (s : String) : String :=
  if s.toList.isEmpty || s.toList.any needsQuotes then Text.quote s else s

namespace LogValue

def line : LogValue → String
  | text s => bareOrQuoted s
  | number n => toString n

end LogValue

namespace LogRecord

def line (r : LogRecord) : String :=
  let lead := ["level=" ++ r.level.text, "msg=" ++ bareOrQuoted r.message]
  Text.joinWith " " (lead ++ r.attributes.map fun a => a.1 ++ "=" ++ a.2.line) ++ "\n"

end LogRecord

def logText (threshold : Threshold) (log : List LogRecord) : String :=
  String.join ((log.filter fun r => threshold.toInt ≤ r.level.weight).map LogRecord.line)

end Shaderwright
