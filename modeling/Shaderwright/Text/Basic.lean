/-!
Texts: their lines, the white space at their ends, what stands in them, and how far one is from
another.
-/

namespace Shaderwright.Text

/-! ### Lines -/

/-- The pieces between the separators; a text with `n` separators has `n + 1` pieces. -/
def splitOn (separator : Char) : List Char → List (List Char)
  | [] => [[]]
  | c :: cs =>
    if c = separator then [] :: splitOn separator cs
    else
      match splitOn separator cs with
      | [] => [[c]]
      | piece :: rest => (c :: piece) :: rest

def pieces (separator : Char) (s : String) : List String :=
  (splitOn separator s.toList).map String.ofList

def lines (s : String) : List String := pieces '\n' s

/-- The texts one after another, with `separator` between two of them. -/
def joinWith (separator : String) : List String → String
  | [] => ""
  | [s] => s
  | s :: rest => s ++ separator ++ joinWith separator rest

/-- The lines as one text, with a break between two lines and none after the last. -/
def unlines : List String → String := joinWith "\n"

/-! ### White space -/

/-- White space in the sense of Unicode: tab to carriage return, the blank, and the wider
blanks and separators outside ASCII. Zero-width characters are not white space. -/
def isBlank (c : Char) : Bool :=
  c == ' ' || ('\t' ≤ c && c ≤ '\r') || c == '\u0085' || c == '\u00a0' || c == '\u1680' ||
    ('\u2000' ≤ c && c ≤ '\u200a') || c == '\u2028' || c == '\u2029' || c == '\u202f' ||
    c == '\u205f' || c == '\u3000'

def trimEnd (cs : List Char) : List Char :=
  (cs.reverse.dropWhile isBlank).reverse

def trimChars (cs : List Char) : List Char :=
  trimEnd (cs.dropWhile isBlank)

def trim (s : String) : String :=
  String.ofList (trimChars s.toList)

/-! ### One text inside another -/

def behind? : List Char → List Char → Option (List Char)
  | [], text => some text
  | a :: part, c :: text => if a = c then behind? part text else none
  | _ :: _, [] => none

/-- The text without `c` at its start, if it has one there. -/
def strip (c : Char) : List Char → List Char
  | d :: text => if c = d then text else d :: text
  | [] => []

def occursIn (part : List Char) : List Char → Bool
  | [] => part.isEmpty
  | c :: text => (behind? part (c :: text)).isSome || occursIn part text

def contains (text part : String) : Bool :=
  occursIn part.toList text.toList

/-! ### Edit distance -/

variable {α : Type} [DecidableEq α]

/-- The rest of the next row of distances. `left` is the distance just found, `diagonal` the one
above it, and the list has those further right in the row above. -/
def distances (c : α) (left diagonal : Nat) : List Nat → List α → List Nat
  | above :: row, d :: target =>
    let here := min (diagonal + if c = d then 0 else 1) (min above left + 1)
    here :: distances c here above row target
  | _, _ => []

/-- The distances to the starts of `target` when one more element is put behind the source. -/
def nextDistances (target : List α) (row : List Nat) (c : α) : List Nat :=
  match row with
  | first :: row => (first + 1) :: distances c (first + 1) first row target
  | [] => []

/-- How many insertions, removals and replacements of single elements turn one list into the other
at least. -/
def editDistance (source target : List α) : Nat :=
  (source.foldl (nextDistances target) (List.range (target.length + 1))).getLast?.getD 0

end Shaderwright.Text
