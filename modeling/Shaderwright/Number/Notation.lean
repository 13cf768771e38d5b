import Shaderwright.Number.Shortest

/-!
How a floating-point number is written: positionally while its decimal exponent is between -4
and 5, and with an exponent of at least two digits beyond that.
-/

namespace Shaderwright

/-- The decisions that a notation for floating-point numbers makes. -/
structure FloatNotation where
  /-- The least decimal exponent that is written positionally. -/
  leastPlain : Int
  /-- The greatest decimal exponent that is written positionally. -/
  greatestPlain : Int
  infinity : String
  minusInfinity : String
  nan : String

def generalNotation : FloatNotation := ⟨-4, 5, "+Inf", "-Inf", "NaN"⟩

/-- `d.ddde+xx` -/
def scientificText (digits : List Char) (exponent : Int) : String :=
  let fraction := if digits.tail.isEmpty then "" else "." ++ String.ofList digits.tail
  let power := toString exponent.natAbs
  String.ofList (digits.take 1) ++ fraction ++ (if exponent < 0 then "e-" else "e+") ++
    (if power.length < 2 then "0" ++ power else power)

/-- The digits with the point behind the first `point` of them. -/
def positionalText (digits : List Char) (point : Int) : String :=
  if point ≤ 0 then
    "0." ++ String.ofList (List.replicate point.natAbs '0' ++ digits)
  else
    let n := point.toNat
    let whole := digits.take n ++ List.replicate (n - digits.length) '0'
    let fraction := digits.drop n
    String.ofList whole ++ (if fraction.isEmpty then "" else "." ++ String.ofList fraction)

def FloatNotation.write (f : FloatNotation) : Binary64 → String
  | .nan => f.nan
  | .infinite negative => if negative then f.minusInfinity else f.infinity
  | .finite negative m e =>
    let sign := if negative then "-" else ""
    if m = 0 then sign ++ "0"
    else
      let d := Binary64.shortest m e
      let digits := (toString d.digits).toList
      let exponent := d.point - 1
      if exponent < f.leastPlain || f.greatestPlain < exponent
      then sign ++ scientificText digits exponent
      else sign ++ positionalText digits d.point

def Binary64.text (x : Binary64) : String := generalNotation.write x

end Shaderwright
