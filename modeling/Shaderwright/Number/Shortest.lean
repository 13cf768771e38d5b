import Shaderwright.Number.Binary64

/-!
The shortest decimal digits that read back as a number: of all decimal grids that hold a value
which rounds to the number the coarsest, and on it the value nearest to the number.
-/

namespace Shaderwright

/-- The digits of `0.digits · 10 ^ point`, as a natural number. -/
structure Decimal where
  digits : Nat
  point : Int
  deriving DecidableEq, Repr

namespace Binary64

/-- The values that round to `m · 2 ^ e`, from below and from above. At a power of two the
neighbour below is only half as far away as the one above. -/
def neighbourhood (m : Nat) (e : Int) : Ratio × Ratio :=
  let below := if m = leastFull && leastExponent < e then 4 * m - 1 else 4 * m - 2
  (.scaled below 2 (e - 2), .scaled (4 * m + 2) 2 (e - 2))

/-- The first exponent of ten from the candidate on that is greater than the value. -/
def pointFrom (v : Ratio) : Nat → Int → Int
  | 0, k => k
  | steps + 1, k => if v.lt (.scaled 1 10 k) then k else pointFrom v steps (k + 1)

/-- The `k` with `10 ^ (k - 1) ≤ v < 10 ^ k`. -/
def decimalPoint (v : Ratio) : Int :=
  let log2 : Int := (Nat.log2 v.num : Int) - (Nat.log2 v.den : Int)
  pointFrom v 8 ((log2 * 30103).fdiv 100000 - 2)

/-- A value on the grid of `count` digits that rounds to the number, if there is one. -/
def onGrid? (v : Ratio) (bounds : Ratio × Ratio) (closed : Bool) (point : Int) (count : Nat) :
    Option Nat :=
  let unit := point - (count : Int)
  let x := v.scale 10 (-unit)
  let below := x.floor
  let reads (d : Nat) : Bool :=
    let r := Ratio.scaled d 10 unit
    if closed then bounds.1.le r && r.le bounds.2 else bounds.1.lt r && r.lt bounds.2
  match reads below, reads (below + 1) with
  | true, true => some x.round
  | true, false => some below
  | false, true => some (below + 1)
  | false, false => none

/-- The coarsest grid with a hit. Seventeen digits always suffice. -/
def firstGrid (v : Ratio) (bounds : Ratio × Ratio) (closed : Bool) (point : Int) :
    Nat → Nat → Nat × Nat
  | 0, count => ((v.scale 10 ((count : Int) - point)).round, count)
  | more + 1, count =>
    match onGrid? v bounds closed point count with
    | some d => (d, count)
    | none => firstGrid v bounds closed point more (count + 1)

def dropZeros : Nat → Nat → Nat
  | 0, n => n
  | fuel + 1, n => if n ≠ 0 && n % 10 = 0 then dropZeros fuel (n / 10) else n

def shortest (m : Nat) (e : Int) : Decimal :=
  let v := Ratio.scaled m 2 e
  let point := decimalPoint v
  let (d, count) := firstGrid v (neighbourhood m e) (m % 2 = 0) point 17 1
  -- rounding up may have carried into a further digit
  let point := if d = Nat.pow 10 count then point + 1 else point
  ⟨dropZeros 20 d, point⟩

end Binary64

end Shaderwright
