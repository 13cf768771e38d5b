/-!
The pattern that helpers are searched with. Their names are the alternatives of one pattern, and
neighbouring names that start alike share what they start with, level by level. A pattern that is
nested too deep, has too many characters or is too large as a whole is refused, and then no name is
replaced at all.
-/

namespace Shaderwright.Msl.Pattern

/-! ### The shape of a pattern -/

/-- A part of a pattern. A set stands for alternatives of one character each. -/
inductive Branch where
  | blank
  | chars (count : Nat)
  | set (count : Nat)
  /-- What several names start with, and what follows it in them. -/
  | group (lead : Nat) (rest : List Branch)
  deriving Repr

namespace Branch

/-- Put a branch in front of others. Neighbouring sets are one set, and nothing at all is an
alternative only once. -/
def onto : Branch → List Branch → List Branch
  | blank, blank :: rest => blank :: rest
  | set m, set n :: rest => set (m + n) :: rest
  | b, rest => b :: rest

def tidy (bs : List Branch) : List Branch := bs.foldr onto []

end Branch

/-- Neighbouring names that are read together: those that start with the same character, each
without it, or outside all groups those of one character. -/
inductive Run where
  | blank
  | set (chars : List Char)
  | alike (start : Char) (tail : List Char) (others : List (List Char))
  deriving DecidableEq, Repr

def common : List Char → List Char → List Char
  | a :: as, b :: bs => if a = b then a :: common as bs else []
  | _, _ => []

def sharedLength (name : List Char) (others : List (List Char)) : Nat :=
  (others.foldl common name).length

namespace Run

def ofName : List Char → Run
  | [] => blank
  | c :: tail => alike c tail []

/-- Put a run in front of others, as one with the first of these if they are read together. -/
def onto : Run → List Run → List Run
  | set chars, set chars' :: rest => set (chars ++ chars') :: rest
  | alike c tail others, alike c' tail' others' :: rest =>
    if c = c' then alike c tail (others ++ tail' :: others') :: rest
    else alike c tail others :: alike c' tail' others' :: rest
  | r, rest => r :: rest

def join (runs : List Run) : List Run := runs.foldr onto []

def weight : Run → Nat
  | blank => 0
  | set chars => chars.length
  | alike _ tail others => (tail :: others).flatten.length + (others.length + 1)

def weights : List Run → Nat
  | [] => 0
  | r :: rs => r.weight + weights rs

@[simp] theorem weights_cons (r : Run) (rs : List Run) :
    weights (r :: rs) = r.weight + weights rs := rfl

theorem weights_onto (r : Run) (rs : List Run) : weights (r.onto rs) = r.weight + weights rs := by
  fun_cases onto r rs with
  | case1 => simp [weight, Nat.add_assoc]
  | case2 =>
    simp only [weights_cons, weight, List.flatten_cons, List.flatten_append, List.length_append,
      List.length_cons]
    omega
  | case3 => simp
  | case4 => simp

theorem weights_join (rs : List Run) : weights (join rs) = weights rs := by
  induction rs with
  | nil => rfl
  | cons r rs ih => rw [join, List.foldr_cons, weights_onto, ← join, ih, weights_cons]

theorem weight_le_weights {r : Run} {rs : List Run} (h : r ∈ rs) : r.weight ≤ weights rs := by
  induction rs with
  | nil => simp at h
  | cons r' rs ih =>
    rw [weights_cons]
    rcases List.mem_cons.mp h with rfl | h
    · omega
    · exact Nat.le_trans (ih h) (Nat.le_add_left ..)

@[simp] theorem weight_ofName (name : List Char) : (ofName name).weight = name.length := by
  cases name <;> simp [ofName, weight]

/-- What names are left with behind the start that all of them share. -/
def rest (tail : List Char) (others : List (List Char)) : List Run :=
  join ((tail :: others).map fun t => ofName (t.drop (sharedLength tail others)))

theorem weights_ofName_le (k : Nat) (names : List (List Char)) :
    weights (names.map fun t => ofName (t.drop k)) ≤ names.flatten.length := by
  induction names with
  | nil => exact Nat.le_refl _
  | cons t names ih =>
    simp only [List.map_cons, weights_cons, weight_ofName, List.length_drop, List.flatten_cons,
      List.length_append]
    omega

/-- Each of several names is left with less. -/
theorem weights_rest_lt (start : Char) (tail : List Char) (others : List (List Char)) :
    weights (rest tail others) < (alike start tail others).weight := by
  have hle := weights_ofName_le (sharedLength tail others) (tail :: others)
  rw [rest, weights_join, weight]
  omega

def branch : Run → Branch
  | blank => .blank
  | set _ => .set 1
  | alike _ [] [] => .set 1
  | alike _ tail [] => .chars (tail.length + 1)
  | alike start tail (other :: others) =>
    .group (sharedLength tail (other :: others) + 1)
      (Branch.tidy ((rest tail (other :: others)).attach.map fun r => r.1.branch))
termination_by r => r.weight
decreasing_by
  exact Nat.lt_of_le_of_lt (weight_le_weights r.2) (weights_rest_lt start tail _)

def ofOutermost : List Char → Run
  | [c] => set [c]
  | name => ofName name

/-- A set of one character is that character. -/
def settle : Run → Run
  | set (c :: chars) => if chars.all (· = c) then alike c [] [] else set (c :: chars)
  | r => r

end Run

def outermost (names : List (List Char)) : List Run :=
  Run.join ((Run.join (names.map Run.ofOutermost)).map Run.settle)

def branches (names : List (List Char)) : List Branch :=
  Branch.tidy ((outermost names).map Run.branch)

/-- Whether there is one alternative only, before any names are put together by what they start
with. -/
def isSingle (names : List (List Char)) : Bool :=
  names.length = 1 || names.all (·.length = 1)

/-! ### Depth -/

mutual

def Branch.height : Branch → Nat
  | .group _ rest => Branch.tallest rest + (if rest.length = 1 then 1 else 2)
  | _ => 1

def Branch.tallest : List Branch → Nat
  | [] => 0
  | b :: bs => max b.height (tallest bs)

end

def maxDepth : Nat := 1000

/-- How deep the whole pattern is nested, with what stands around the names. -/
def depth (names : List (List Char)) : Nat :=
  let bs := branches names
  1 + max 3 (Branch.tallest bs + (if bs.length = 1 then 1 else 2))

/-! ### Characters -/

def maxChars : Nat := 33554432

/-- How many ranges of characters a set consists of, by the characters that start one. The rest is
what is left of the characters of the set. -/
def spans (set : List Char) : List Char → Nat
  | [] => 0
  | c :: rest =>
    spans set rest + if rest.contains c || set.any fun d => d.toNat + 1 = c.toNat then 0 else 1

/-- The characters that are held for a pattern. Each is read and then put with the others of its
name, and an alternative that is the only one is taken once more. -/
def charCount (names : List (List Char)) : Nat :=
  24 + 2 * names.flatten.length +
    if isSingle names then
      match outermost names with
      | [.set chars] => 2 * spans chars chars
      | _ => (names.head?.map List.length).getD 0
    else 0

/-! ### Size -/

def maxSize : Nat := 3355443

/-- The parts that were made for a pattern. Sizes are only measured once very many were made. A
part that is not needed any more is used again, and if it was measured before, that measure
stays. -/
structure Pool where
  made : Nat := 6
  /-- For each part that may be used again whether it was measured. -/
  spare : List Bool := []
  measuring : Bool := false
  exceeded : Bool := false
  deriving DecidableEq, Repr

namespace Pool

def take (p : Pool) : Bool × Pool :=
  match p.spare with
  | [] => (false, { p with made := p.made + 1 })
  | measured :: spare => (measured, { p with spare := spare })

def give (measured : Bool) (p : Pool) : Pool := { p with spare := measured :: p.spare }

/-- Check the limit, with a part of this size among those that there are. -/
def check (size : Nat) (p : Pool) : Pool :=
  let measuring := p.measuring || decide (maxSize ≤ p.made)
  { p with measuring, exceeded := p.exceeded || (measuring && decide (maxSize < size)) }

def add (p : Pool) : Pool := p.take.2.check 0

def drop (p : Pool) : Pool := p.give p.measuring

/-- One more character of a name, which is put with those before. -/
def extend (p : Pool) : Pool := p.take.2.drop.check 0

def read (p : Pool) : Nat → Pool
  | 0 | 1 => p.add
  | n + 2 => (Nat.repeat extend n p.add.add).drop.check 0

/-- Read the names behind another one. Two neighbours of one character become one set. -/
def readBehind : List Char → List (List Char) → Pool → Pool
  | _, [], p => p
  | before, name :: names, p =>
    let p := p.read name.length
    readBehind name names (if before.length = 1 && name.length = 1 then p.drop else p)

def readAll : List (List Char) → Pool → Pool
  | [], p => p
  | [name], p => p.read name.length
  | name :: names, p => readBehind name names (p.read name.length).add

end Pool

mutual

/-- The length of the longest name that a branch stands for. -/
def Branch.reach : Branch → Nat
  | .chars count => count
  | .group lead rest => lead + Branch.longest rest
  | _ => 1

def Branch.longest : List Branch → Nat
  | [] => 0
  | b :: bs => max b.reach (longest bs)

end

/-- How many parts are left over in the sets among some branches. -/
def Branch.leftOver : List Branch → Nat
  | [] => 0
  | .set count :: bs => count - 1 + leftOver bs
  | _ :: bs => leftOver bs

/-- A branch that was built: its size, whether it is taken for the size of an older part, and what
is there then. -/
structure Built where
  size : Nat
  measured : Bool := false
  pool : Pool

/-- The size that a branch counts with. -/
def Built.counted (b : Built) : Nat := if b.measured then 1 else b.size

mutual

def Branch.build : Branch → Pool → Built
  | .chars count, p => { size := count, pool := p }
  | .group lead rest, p =>
    let (leadMeasured, p) := p.take
    let p := p.check (Branch.longest rest)
    let before := p.measuring
    let (restMeasured, p) := p.take
    let (total, p) := Branch.buildAll rest p
    let p := Nat.repeat (Pool.give before) (Branch.leftOver rest) p
    let (size, p) :=
      if rest.length = 1 then (total, p.give restMeasured)
      else (if restMeasured then 1 else total + (rest.length - 1), p)
    let (measured, p) := p.take
    { size := (if leadMeasured then 1 else lead) + size, measured, pool := p }
  | _, p => { size := 1, pool := p }

/-- Build branches one after the other, with the sizes that they count with added up. -/
def Branch.buildAll : List Branch → Pool → Nat × Pool
  | [], p => (0, p)
  | b :: bs, p =>
    let built := b.build p
    let (total, p) := buildAll bs built.pool
    (built.counted + total, p)

end

def buildNames (names : List (List Char)) (p : Pool) : Nat × Pool :=
  if isSingle names then (max 1 (Branch.longest (branches names)), p)
  else
    let (measured, p) := p.take
    match branches names with
    | [b] =>
      let built := b.build p
      (built.size, built.pool.give measured)
    | bs =>
      let (total, p) := Branch.buildAll bs p
      (total + (bs.length - 1), p)

/-- The parts of the whole pattern, with what stands around the names. -/
def buildPattern (names : List (List Char)) : Pool :=
  let p := (Pool.readAll names {}).check (((names.map List.length).max?).getD 0)
  let (size, p) := buildNames names p
  (p.check size).add.take.2.check (8 + size)

def admits (names : List (List Char)) : Bool :=
  decide (depth names ≤ maxDepth) && decide (charCount names ≤ maxChars) &&
    !(buildPattern names).exceeded

end Shaderwright.Msl.Pattern
