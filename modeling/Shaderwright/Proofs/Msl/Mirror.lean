import Shaderwright.Proofs.Emit.Mirror
import Shaderwright.Proofs.Msl.Helpers

/-!
Steps that write the same text up to the renaming of a shader's functions. Next to a step that
writes the old names runs one that writes the new names, and the helpers that one of them asks for
are those of the other under their prefixed names. This is an instance of steps that mirror each
other under a renaming, so the rules for putting steps together are those.
-/

namespace Shaderwright.Msl

variable {α β : Type}

namespace Renaming

def writer (ρ : Renaming) (w : Writer State) : Writer State :=
  { w with out := ρ.text w.out, own := withHelpers (List.map (prefixed ρ.shader)) w.own }

@[simp] lemma writer_function (ρ : Renaming) (w : Writer State) :
    (ρ.writer w).function = w.function := rfl

@[simp] lemma writer_accumulator (ρ : Renaming) (w : Writer State) :
    (ρ.writer w).accumulator = w.accumulator := rfl

@[simp] lemma writer_entry (ρ : Renaming) (w : Writer State) : (ρ.writer w).entry = w.entry := rfl

@[simp] lemma writer_uniforms (ρ : Renaming) (w : Writer State) :
    (ρ.writer w).own.uniforms = w.own.uniforms := rfl

/-- A writer that has no old name stored for later. -/
structure Settled (ρ : Renaming) (w : Writer State) : Prop where
  table : ∀ e ∈ w.own.variableNames.entries, ρ.Fixes e.2
  accumulator : ρ.Fixes w.accumulator
  markName : ρ.Fixes w.entry.accumulator
  markInit : ρ.Fixes w.entry.init

lemma Settled.elsewhere {ρ : Renaming} {w : Writer State} (hw : ρ.Settled w) {out : String}
    {depth : Nat} {function : Option String} :
    ρ.Settled { w with out := out, depth := depth, function := function } :=
  ⟨hw.table, hw.accumulator, hw.markName, hw.markInit⟩

/-- The renaming as a mirror of writers. -/
def prefixing (ρ : Renaming) : Mirror State where
  names := ρ.toRewording
  own := withHelpers (List.map (prefixed ρ.shader))
  settled := ρ.Settled
  elsewhere := fun _ _ _ _ hw => hw.elsewhere

end Renaming

/-- Whenever `m` succeeds, `m'` does so from the mirrored writer and reaches the mirrored one.
If `before` is set, this is only asked for where a name may be written; if `after` is set, a name
may be written then. -/
def Mirrors (ρ : Renaming) (before after : Bool) (V : α → α → Prop) (m m' : Emit State α) : Prop :=
  ∀ w a v, ρ.Settled w → (before = true → endsApart w.out = true) → m.exec w = (.ok a, v) →
    ρ.Settled v ∧ (after = true → endsApart v.out = true) ∧
      ∃ a', V a a' ∧ m'.exec (ρ.writer w) = (.ok a', ρ.writer v)

lemma mirrors_iff {ρ : Renaming} {before after : Bool} {V : α → α → Prop} {m m' : Emit State α} :
    Mirrors ρ before after V m m' ↔ Emit.Mirrors ρ.prefixing before after V m m' := Iff.rfl

namespace Mirrors

variable {ρ : Renaming} {before mid after : Bool} {V : α → α → Prop} {W : β → β → Prop}

/-! ### Putting steps together -/

lemma pure {a a' : α} (h : V a a') : Mirrors ρ before before V (Pure.pure a) (Pure.pure a') :=
  mirrors_iff.mpr (.pure h)

lemma throw (e : Fault) (m' : Emit State α) :
    Mirrors ρ before after V (MonadExcept.throw e) m' :=
  mirrors_iff.mpr (.throw e m')

lemma bind {m m' : Emit State α} {k k' : α → Emit State β} (hm : Mirrors ρ before mid V m m')
    (hk : ∀ a a', V a a' → Mirrors ρ mid after W (k a) (k' a')) :
    Mirrors ρ before after W (m >>= k) (m' >>= k') :=
  mirrors_iff.mpr (.bind (mirrors_iff.mp hm) hk)

lemma seq {m m' : Emit State Unit} {k k' : Unit → Emit State β}
    (hm : Mirrors ρ before mid Eq m m') (hk : Mirrors ρ mid after W (k ()) (k' ())) :
    Mirrors ρ before after W (m >>= k) (m' >>= k') :=
  hm.bind fun _ _ _ => hk

lemma weaken {m m' : Emit State α} (hm : Mirrors ρ before mid V m m')
    (h : after = true → mid = true) : Mirrors ρ before after V m m' :=
  mirrors_iff.mpr (.weaken (mirrors_iff.mp hm) h)

lemma get {k k' : Writer State → Emit State β}
    (hk : ∀ w, ρ.Settled w → Mirrors ρ before after W (k w) (k' (ρ.writer w))) :
    Mirrors ρ before after W (MonadState.get >>= k) (MonadState.get >>= k') :=
  mirrors_iff.mpr (.get hk)

lemma change {g g' : Writer State → Writer State} (hset : ∀ w, ρ.Settled w → ρ.Settled (g w))
    (hout : ∀ w, (g w).out = w.out) (hmirror : ∀ w, g' (ρ.writer w) = ρ.writer (g w)) :
    Mirrors ρ before before Eq (modify g) (modify g') :=
  mirrors_iff.mpr (.change hset hout hmirror)

lemma andThen {m m' : Emit State α} {g : Writer State → Writer State}
    (hm : Mirrors ρ before after V m m') (hset : ∀ w, ρ.Settled w → ρ.Settled (g w))
    (hout : ∀ w, (g w).out = w.out) (hmirror : ∀ w, g (ρ.writer w) = ρ.writer (g w)) :
    Mirrors ρ before after V (m.andThen g) (m'.andThen g) :=
  mirrors_iff.mpr (.andThen (mirrors_iff.mp hm) hset hout hmirror)

/-! ### Writing -/

/-- A text is written where a name may stand, unless it starts apart from a word. -/
lemma write {t t' : String} (ht : ρ.Renames t t')
    (hstart : before = true ∨ startsApart t = true)
    (hend : after = true → endsApart t = true ∧ (t = "" → before = true)) :
    Mirrors ρ before after Eq (Emit.write t) (Emit.write t') :=
  mirrors_iff.mpr (.write ht hstart hend)

lemma word {t t' : String} (ht : ρ.Renames t t') :
    Mirrors ρ true false Eq (Emit.write t) (Emit.write t') :=
  mirrors_iff.mpr (.word ht)

lemma opening {t t' : String} (ht : ρ.Renames t t') (hend : endsApart t = true) :
    Mirrors ρ true after Eq (Emit.write t) (Emit.write t') :=
  mirrors_iff.mpr (.opening ht hend)

lemma mark {t : String} (h : isPunctuation t = true) (hne : t ≠ "") :
    Mirrors ρ before after Eq (Emit.write t) (Emit.write t) :=
  mirrors_iff.mpr (.mark h hne)

lemma writeIndent : Mirrors ρ true true Eq Emit.writeIndent Emit.writeIndent :=
  mirrors_iff.mpr .writeIndent

lemma writeLine {t t' : String} (ht : ρ.Renames t t') :
    Mirrors ρ true true Eq (Emit.writeLine t) (Emit.writeLine t') :=
  mirrors_iff.mpr (.writeLine ht)

lemma captured {m m' : Emit State Unit} (hm : Mirrors ρ true after Eq m m') :
    Mirrors ρ before before ρ.Renames (Emit.captured m) (Emit.captured m') :=
  mirrors_iff.mpr (.captured (mirrors_iff.mp hm))

lemma separated {steps steps' : List (Emit State Unit)}
    (h : List.Forall₂ (Mirrors ρ true false Eq) steps steps') :
    Mirrors ρ true false Eq (Emit.separated ", " steps) (Emit.separated ", " steps') :=
  mirrors_iff.mpr (.separated h)

lemma forM {f f' : α → β} {m m' : β → Emit State Unit} {xs : List α}
    (h : ∀ x ∈ xs, Mirrors ρ before before Eq (m (f x)) (m' (f' x))) :
    Mirrors ρ before before Eq ((xs.map f).forM m) ((xs.map f').forM m') :=
  mirrors_iff.mpr (.forM h)

/-- Texts that are kept one by one are kept all together. -/
lemma mapM {m m' : α → Emit State String} {xs : List α}
    (h : ∀ x ∈ xs, Mirrors ρ before before ρ.Kept (m x) (m' x)) :
    Mirrors ρ before before (fun ts ts' => ts' = ts ∧ ∀ t ∈ ts, ρ.Fixes t) (xs.mapM m)
      (xs.mapM m') := by
  induction xs with
  | nil => exact pure ⟨rfl, by simp⟩
  | cons x xs ih =>
    rw [List.mapM_cons, List.mapM_cons]
    refine (h x List.mem_cons_self).bind fun t t' ht =>
      (ih fun y hy => h y (List.mem_cons_of_mem _ hy)).bind fun ts ts' hts => pure ?_
    exact ⟨by rw [ht.1, hts.1], List.forall_mem_cons.mpr ⟨ht.2, hts.2⟩⟩

lemma braces {m m' : Emit State Unit} (hm : Mirrors ρ true true Eq m m') :
    Mirrors ρ before after Eq (Emit.braces m) (Emit.braces m') :=
  mirrors_iff.mpr (.braces (mirrors_iff.mp hm))

end Mirrors

end Shaderwright.Msl
