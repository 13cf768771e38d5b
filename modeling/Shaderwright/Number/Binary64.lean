/-!
Floating-point numbers of 64 bits, as exact values: reading a decimal fraction rounds to the
nearest of them, a half to the even one.
-/

namespace Shaderwright

/-- A finite number is `mantissa · 2 ^ exponent`, with the mantissa below `2 ^ 53` and the
exponent at least -1074. -/
inductive Binary64 where
  | finite (negative : Bool) (mantissa : Nat) (exponent : Int)
  | infinite (negative : Bool)
  | nan
  deriving DecidableEq, Repr, Inhabited

structure Ratio where
  num : Nat
  den : Nat
  deriving DecidableEq, Repr

namespace Ratio

/-- `n · base ^ e`, also for a negative exponent. -/
def scaled (n base : Nat) (e : Int) : Ratio :=
  if 0 ≤ e then ⟨n * Nat.pow base e.toNat, 1⟩ else ⟨n, Nat.pow base (-e).toNat⟩

def scale (r : Ratio) (base : Nat) (e : Int) : Ratio :=
  if 0 ≤ e then ⟨r.num * Nat.pow base e.toNat, r.den⟩ else ⟨r.num, r.den * Nat.pow base (-e).toNat⟩

def floor (r : Ratio) : Nat := r.num / r.den

/-- The nearest natural number, the even one of two. -/
def round (r : Ratio) : Nat :=
  let q := r.num / r.den
  let twice := 2 * (r.num % r.den)
  if twice < r.den then q else if r.den < twice then q + 1 else if q % 2 = 0 then q else q + 1

def le (r s : Ratio) : Bool := r.num * s.den ≤ s.num * r.den

def lt (r s : Ratio) : Bool := r.num * s.den < s.num * r.den

end Ratio

namespace Binary64

def precision : Nat := 53

def leastFull : Nat := Nat.pow 2 (precision - 1)

def leastExponent : Int := -1074

def greatestExponent : Int := 971

def zero (negative : Bool) : Binary64 := finite negative 0 leastExponent

/-- The number nearest to a positive ratio, or none if that is beyond the greatest one. -/
def ofRatio? (negative : Bool) (r : Ratio) : Option Binary64 :=
  let guess : Int := (Nat.log2 r.num : Int) - (Nat.log2 r.den : Int) - 52
  -- the guess is at most one too large
  let exact := if (r.scale 2 (-guess)).floor < leastFull then guess - 1 else guess
  let e := max leastExponent exact
  let m := (r.scale 2 (-e)).round
  let (m, e) := if m = 2 * leastFull then (leastFull, e + 1) else (m, e)
  if greatestExponent < e then none else some (finite negative m e)

/-- The number nearest to `digits · 10 ^ exponent`. A fraction that is far out of reach is
recognized by the number of its digits. -/
def ofDecimal? (negative : Bool) (digits : Nat) (exponent : Int) : Option Binary64 :=
  let size := ((Nat.toDigits 10 digits).length : Int) + exponent
  if digits = 0 then some (zero negative)
  else if 400 < size then none
  else if size < -400 then some (zero negative)
  else ofRatio? negative (.scaled digits 10 exponent)

def ofBinary? (negative : Bool) (digits : Nat) (exponent : Int) : Option Binary64 :=
  let size := (Nat.log2 digits : Int) + exponent
  if digits = 0 then some (zero negative)
  else if 1100 < size then none
  else if size < -1200 then some (zero negative)
  else ofRatio? negative (.scaled digits 2 exponent)

def truncate? : Binary64 → Option Int
  | finite negative m e =>
    let n : Int := (Ratio.scaled m 2 e).floor
    some (if negative then -n else n)
  | _ => none

end Binary64

end Shaderwright
