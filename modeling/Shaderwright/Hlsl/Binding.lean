import Shaderwright.Text.Basic
import Shaderwright.Text.Quoted

/-!
The root signature: which register each resource of a shader is bound to, and how many 32-bit
values the bindings take up. Costs are counted in machine words, so a huge array wraps around.
-/

namespace Shaderwright.Hlsl

inductive Category where
  | const32
  | const64
  | const96
  | const128
  | texture
  | sampler
  | other (code : Nat)
  deriving DecidableEq, Repr, Inhabited

inductive RegisterClass where
  | constant
  | texture
  | sampler
  deriving DecidableEq, Repr, Inhabited

namespace RegisterClass

def ofCode : Nat → RegisterClass
  | 1 => texture
  | 2 => sampler
  | _ => constant

def text : RegisterClass → String
  | constant => "c"
  | texture => "t"
  | sampler => "s"

def register (r : RegisterClass) (slot : Int64) : String :=
  "register(" ++ r.text ++ toString slot.toInt ++ ")"

end RegisterClass

namespace Category

def ofCode : Nat → Category
  | 0 => const32
  | 1 => const64
  | 2 => const96
  | 3 => const128
  | 4 => texture
  | 5 => sampler
  | n => other n

def text : Category → String
  | const32 => "Const32"
  | const64 => "Const64"
  | const96 => "Const96"
  | const128 => "Const128"
  | texture => "Texture"
  | sampler => "Sampler"
  | other _ => "Unknown"

def ofComponents? : Int → Option Category
  | 1 => some const32
  | 2 => some const64
  | 3 => some const96
  | 4 => some const128
  | _ => none

def registerClass : Category → RegisterClass
  | texture => .texture
  | sampler => .sampler
  | _ => .constant

/-- The cost of one element: its components, or one table entry for anything but a constant. -/
def dwords : Category → Int64
  | const64 => 2
  | const96 => 3
  | const128 => 4
  | _ => 1

end Category

structure Binding where
  name : String
  category : Category
  slot : Int64
  count : Int64
  deriving DecidableEq, Repr, Inhabited

namespace Binding

def dwords (b : Binding) : Int64 := b.category.dwords * b.count

def row (b : Binding) : String :=
  "\x7b " ++ Text.quote b.name ++ ", ShaderResourceCategory::" ++ b.category.text ++ ", " ++
    toString b.slot.toInt ++ ", " ++ toString b.count.toInt ++ " \x7d"

/-- How a binding is named in a complaint about the budget. -/
def summary (b : Binding) : String :=
  b.name ++ " (" ++ b.category.text ++ ", slot " ++ toString b.slot.toInt ++ ", " ++
    toString b.dwords.toInt ++ " DWORDs)"

end Binding

def slotUsage (bs : List Binding) : Int64 :=
  bs.foldl (fun total b => total + b.dwords) 0

/-- The bindings from the first one on with which the running total exceeds the budget. -/
def overBudgetFrom (budget total : Int64) : List Binding → Option (List Binding)
  | [] => none
  | b :: rest =>
    if total + b.dwords ≤ budget then overBudgetFrom budget (total + b.dwords) rest
    else some (b :: rest)

structure Overflow where
  used : Int64
  budget : Int64
  excess : List Binding
  deriving DecidableEq, Repr

def Overflow.message (o : Overflow) : String :=
  "bindings use " ++ toString o.used.toInt ++ " of " ++ toString o.budget.toInt ++
    " root signature DWORDs; over budget: " ++ Text.joinWith ", " (o.excess.map Binding.summary)

def overflow? (bs : List Binding) (budget : Int64) : Option Overflow :=
  (overBudgetFrom budget 0 bs).map fun excess => ⟨slotUsage bs, budget, excess⟩

/-- The number of 32-bit values that a root signature can hold. -/
def defaultSlotBudget : Int64 := 64

end Shaderwright.Hlsl
