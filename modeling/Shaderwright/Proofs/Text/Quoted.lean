import Mathlib.Tactic.Common
import Shaderwright.Text.Quoted

/-!
Quoting loses nothing. An escape tells which character it stands for and where it ends, so a quoted
text can be read off any text that starts with it.
-/

namespace Shaderwright.Text

/-! ### Hexadecimal digits -/

lemma length_hexDigits (width n : Nat) : (hexDigits width n).length = width := by
  induction width generalizing n with
  | zero => rfl
  | succ width ih => simp [hexDigits, ih]

lemma hexDigit_inj {m n : Nat} (hm : m < 16) (hn : n < 16) (h : hexDigit m = hexDigit n) :
    m = n := by
  have hall : ∀ m < 16, ∀ n < 16, hexDigit m = hexDigit n → m = n := by decide
  exact hall m hm n hn h

lemma hexDigits_inj {width m n : Nat} (h : hexDigits width m = hexDigits width n)
    (hrest : m >>> (4 * width) = n >>> (4 * width)) : m = n := by
  induction width generalizing m n with
  | zero => simpa using hrest
  | succ width ih =>
    have hshift : ∀ k : Nat, (k / 16) >>> (4 * width) = k >>> (4 * (width + 1)) := by
      intro k
      have hfour : k >>> 4 = k / 16 := Nat.shiftRight_eq_div_pow k 4
      rw [Nat.mul_succ, Nat.add_comm, Nat.shiftRight_add, hfour]
    rw [hexDigits, hexDigits] at h
    obtain ⟨hdigits, hlast⟩ := List.append_inj' h rfl
    have hquot : m / 16 = n / 16 := ih hdigits (by rw [hshift, hshift, hrest])
    have hmod : m % 16 = n % 16 :=
      hexDigit_inj (Nat.mod_lt _ (by omega)) (Nat.mod_lt _ (by omega)) (by simpa using hlast)
    omega

/-! ### Escapes -/

/-- The characters that have a letter of their own behind the backslash. -/
def escapeLetters : List (Char × Char) := [
  ('"', '"'), ('\\', '\\'), ('\x07', 'a'), ('\x08', 'b'), ('\x0c', 'f'), ('\n', 'n'), ('\r', 'r'),
  ('\t', 't'), ('\x0b', 'v')]

/-- The letters that announce digits, with the number of digits. -/
def escapeWidths : List (Char × Nat) := [('x', 2), ('u', 4), ('U', 8)]

/-- What an escape looks like: the character itself, a letter for it, or its digits. -/
inductive Escaped (c : Char) : List Char → Prop
  | plain : c ≠ '"' → c ≠ '\\' → Escaped c [c]
  | letter {e : Char} : (c, e) ∈ escapeLetters → Escaped c ['\\', e]
  | digits {k : Char} {width : Nat} : (k, width) ∈ escapeWidths → c.toNat >>> (4 * width) = 0 →
    Escaped c ('\\' :: k :: hexDigits width c.toNat)

lemma shiftRight_eq_zero_of_lt {n bound : Nat} (width : Nat) (h : n < bound)
    (hbound : (bound - 1) >>> (4 * width) = 0) : n >>> (4 * width) = 0 := by
  rw [Nat.shiftRight_eq_div_pow] at hbound ⊢
  have hle : n ≤ bound - 1 := by omega
  exact Nat.le_zero.mp (hbound ▸ Nat.div_le_div_right hle)

lemma toNat_lt (c : Char) : c.toNat < 0x110000 := by
  have hvalid := c.valid
  simp only [UInt32.isValidChar, Nat.isValidChar] at hvalid
  simp only [Char.toNat]
  omega

lemma escaped_escape (c : Char) : Escaped c (escape c) := by
  have hletter : ∀ {d e : Char}, (c == d) = true → (d, e) ∈ escapeLetters →
      Escaped c ['\\', e] := by
    intro d e hc he
    rw [eq_of_beq hc]
    exact .letter he
  have hbranch : ∀ {p : Prop} [Decidable p] {a b : List Char}, (p → Escaped c a) →
      (¬p → Escaped c b) → Escaped c (if p then a else b) := by
    intro p _ a b ha hb
    split
    · exact ha ‹_›
    · exact hb ‹_›
  unfold escape
  refine hbranch (fun h => ?_) fun hplain => hbranch (fun _ => ?_) fun _ =>
    hbranch (fun h => hletter h (by decide)) fun _ =>
    hbranch (fun h => hletter h (by decide)) fun _ =>
    hbranch (fun h => hletter h (by decide)) fun _ =>
    hbranch (fun h => hletter h (by decide)) fun _ =>
    hbranch (fun h => hletter h (by decide)) fun _ =>
    hbranch (fun h => hletter h (by decide)) fun _ =>
    hbranch (fun h => hletter h (by decide)) fun _ =>
    hbranch (fun h => ?_) fun _ => hbranch (fun h => ?_) fun _ => ?_
  · rcases Bool.or_eq_true_iff.mp h with h | h
    · obtain rfl := eq_of_beq h
      exact .letter (by decide)
    · obtain rfl := eq_of_beq h
      exact .letter (by decide)
  · simp only [Bool.or_eq_true, beq_iff_eq, not_or] at hplain
    exact .plain hplain.1 hplain.2
  · have hsmall : c.toNat < 0x80 := by
      simp only [Bool.or_eq_true, decide_eq_true_eq, beq_iff_eq] at h
      omega
    exact .digits (by decide) (shiftRight_eq_zero_of_lt 2 hsmall (by decide))
  · exact .digits (by decide) (shiftRight_eq_zero_of_lt 4 h (by decide))
  · exact .digits (by decide) (shiftRight_eq_zero_of_lt 8 (toNat_lt c) (by decide))

/-- Of two texts that start with an escape and are equal, the escapes are those of one character. -/
lemma Escaped.inj {c d : Char} {cs ds u v : List Char} (hc : Escaped c cs) (hd : Escaped d ds)
    (h : cs ++ u = ds ++ v) : c = d := by
  have hletters : ∀ p ∈ escapeLetters, ∀ q ∈ escapeLetters, p.2 = q.2 → p = q := by decide
  have hapart : ∀ p ∈ escapeLetters, ∀ q ∈ escapeWidths, p.2 ≠ q.1 := by decide
  have hwidths : ∀ p ∈ escapeWidths, ∀ q ∈ escapeWidths, p.1 = q.1 → p = q := by decide
  cases hc with
  | plain _ hslash =>
    cases hd with
    | plain => exact (List.cons.inj h).1
    | letter => exact absurd (List.cons.inj h).1 hslash
    | digits => exact absurd (List.cons.inj h).1 hslash
  | letter he =>
    cases hd with
    | plain _ hslash => exact absurd (List.cons.inj h).1.symm hslash
    | letter he' =>
      have hsame := (List.cons.inj (List.cons.inj h).2).1
      exact congrArg Prod.fst (hletters _ he _ he' hsame)
    | digits hk => exact absurd (List.cons.inj (List.cons.inj h).2).1 (hapart _ he _ hk)
  | digits hk hsmall =>
    cases hd with
    | plain _ hslash => exact absurd (List.cons.inj h).1.symm hslash
    | letter he => exact absurd (List.cons.inj (List.cons.inj h).2).1.symm (hapart _ he _ hk)
    | digits hk' hsmall' =>
      obtain ⟨hsame, htail⟩ := List.cons.inj (List.cons.inj h).2
      obtain ⟨rfl, rfl⟩ := Prod.mk.inj (hwidths _ hk _ hk' hsame)
      obtain ⟨hdigits, -⟩ := List.append_inj htail (by rw [length_hexDigits, length_hexDigits])
      exact Char.toNat_inj.mp (hexDigits_inj hdigits (by rw [hsmall, hsmall']))

lemma Escaped.head_ne {c : Char} {cs : List Char} (h : Escaped c cs) (u v : List Char) :
    cs ++ u ≠ '"' :: v := by
  intro heq
  cases h with
  | plain hquote => exact hquote (List.cons.inj heq).1
  | letter => exact absurd (List.cons.inj heq).1 (by decide)
  | digits => exact absurd (List.cons.inj heq).1 (by decide)

lemma quote_notMem_hexDigits (width n : Nat) : '"' ∉ hexDigits width n := by
  induction width generalizing n with
  | zero => simp [hexDigits]
  | succ width ih =>
    have hdigit : ∀ m < 16, hexDigit m ≠ '"' := by decide
    simp only [hexDigits, List.mem_append, List.mem_singleton, not_or]
    exact ⟨ih _, (hdigit _ (Nat.mod_lt _ (by omega))).symm⟩

lemma Escaped.eq_quote {c : Char} {cs : List Char} (h : Escaped c cs) (hmem : '"' ∈ cs) :
    c = '"' := by
  have hletters : ∀ p ∈ escapeLetters, p.2 = '"' → p.1 = '"' := by decide
  have hwidths : ∀ p ∈ escapeWidths, p.1 ≠ '"' := by decide
  cases h with
  | plain => exact (List.mem_singleton.mp hmem).symm
  | letter he =>
    refine hletters _ he ?_
    simpa [eq_comm] using hmem
  | digits hk =>
    simp only [List.mem_cons, quote_notMem_hexDigits, or_false] at hmem
    rcases hmem with hmem | hmem
    · exact absurd hmem (by decide)
    · exact absurd hmem.symm (hwidths _ hk)

lemma Escaped.length {c : Char} {cs : List Char} (h : Escaped c cs) : cs = [c] ∨ 2 ≤ cs.length := by
  cases h with
  | plain => exact .inl rfl
  | letter => exact .inr (by simp)
  | digits => exact .inr (by simp)

/-! ### Quoted texts -/

lemma length_le_flatMap_escape (cs : List Char) : cs.length ≤ (cs.flatMap escape).length := by
  induction cs with
  | nil => simp
  | cons c cs ih =>
    have hc : 1 ≤ (escape c).length := by
      rcases (escaped_escape c).length with hc | hc
      · simp [hc]
      · omega
    rw [List.flatMap_cons, List.length_append, List.length_cons]
    omega

lemma escape_of_length {cs : List Char} (h : (cs.flatMap escape).length ≤ cs.length) :
    ∀ c ∈ cs, escape c = [c] := by
  induction cs with
  | nil => simp
  | cons c cs ih =>
    have hrest := length_le_flatMap_escape cs
    rw [List.flatMap_cons, List.length_append, List.length_cons] at h
    rcases (escaped_escape c).length with hc | hc
    · rw [hc, List.length_singleton] at h
      exact List.forall_mem_cons.mpr ⟨hc, ih (by omega)⟩
    · omega

lemma escape_of_quote {s : String} (h : quote s = "\"" ++ s ++ "\"") :
    ∀ c ∈ s.toList, escape c = [c] := by
  have hchars := congrArg String.toList h
  simp only [quote, quoteChars, String.toList_append, String.toList_ofList] at hchars
  have hsame : s.toList.flatMap escape = s.toList := by simpa using hchars
  exact escape_of_length (Nat.le_of_eq (congrArg List.length hsame))


lemma flatMap_escape_inj {cs ds u v : List Char}
    (h : cs.flatMap escape ++ '"' :: u = ds.flatMap escape ++ '"' :: v) : cs = ds ∧ u = v := by
  induction cs generalizing ds with
  | nil =>
    cases ds with
    | nil => exact ⟨rfl, (List.cons.inj h).2⟩
    | cons d ds =>
      rw [List.flatMap_cons, List.append_assoc] at h
      exact absurd h.symm ((escaped_escape d).head_ne _ _)
  | cons c cs ih =>
    rw [List.flatMap_cons, List.append_assoc] at h
    cases ds with
    | nil => exact absurd h ((escaped_escape c).head_ne _ _)
    | cons d ds =>
      rw [List.flatMap_cons, List.append_assoc] at h
      obtain rfl := (escaped_escape c).inj (escaped_escape d) h
      obtain ⟨rfl, rfl⟩ := ih (List.append_cancel_left h)
      exact ⟨rfl, rfl⟩

/-- Texts that start with quoted texts are equal only if they quote the same and go on alike. -/
lemma quote_append_inj {s t u v : String} (h : quote s ++ u = quote t ++ v) : s = t ∧ u = v := by
  have hlist := congrArg String.toList h
  simp only [quote, quoteChars, String.toList_append, String.toList_ofList, List.cons_append,
    List.append_assoc, List.nil_append, List.cons.injEq, true_and] at hlist
  obtain ⟨hs, hu⟩ := flatMap_escape_inj hlist
  exact ⟨String.toList_injective hs, String.toList_injective hu⟩

end Shaderwright.Text
