import Mathlib.Data.List.Forall2
import Mathlib.Tactic.Common
import Shaderwright.Proofs.Emit.Exec
import Shaderwright.Proofs.Msl.Renaming

/-!
Steps that write the same text up to a renaming, in whatever language. Next to a step that writes
the old names runs one that writes the new ones, and from a writer and its image both reach a writer
and its image again. Names are only written behind characters that separate them from what is there,
so the second one writes what the renaming makes of the first one's text.
-/

namespace Shaderwright

open Msl (Rewording endsApart startsApart isPunctuation endsApart_append endsApart_of_isPunctuation
  startsApart_of_isPunctuation isPunctuation_indentation
  endsApart_indentation)

variable {σ α β : Type}

/-- New words for texts, what they mean for the state of the language, and which writers have no old
name stored for later. -/
structure Mirror (σ : Type) where
  names : Rewording
  own : σ → σ
  settled : Writer σ → Prop
  /-- This does not depend on the text or on where it is written. -/
  elsewhere : ∀ w out depth function, settled w →
    settled { w with out := out, depth := depth, function := function }

namespace Mirror

def image (M : Mirror σ) (w : Writer σ) : Writer σ :=
  { w with out := M.names.text w.out, own := M.own w.own }

@[simp] lemma image_function (M : Mirror σ) (w : Writer σ) :
    (M.image w).function = w.function := rfl

@[simp] lemma image_accumulator (M : Mirror σ) (w : Writer σ) :
    (M.image w).accumulator = w.accumulator := rfl

@[simp] lemma image_entry (M : Mirror σ) (w : Writer σ) : (M.image w).entry = w.entry := rfl

@[simp] lemma image_own (M : Mirror σ) (w : Writer σ) : (M.image w).own = M.own w.own := rfl

end Mirror

/-- Whenever `m` succeeds, `m'` does so from the image of the writer and reaches the image again.
If `before` is set, this is only asked for where a name may be written; if `after` is set, a name
may be written then. -/
def Emit.Mirrors (M : Mirror σ) (before after : Bool) (V : α → α → Prop) (m m' : Emit σ α) : Prop :=
  ∀ w a v, M.settled w → (before = true → endsApart w.out = true) → m.exec w = (.ok a, v) →
    M.settled v ∧ (after = true → endsApart v.out = true) ∧
      ∃ a', V a a' ∧ m'.exec (M.image w) = (.ok a', M.image v)

namespace Emit.Mirrors

variable {M : Mirror σ} {before mid after : Bool} {V : α → α → Prop} {W : β → β → Prop}

/-! ### Putting steps together -/

lemma pure {a a' : α} (h : V a a') : Mirrors M before before V (Pure.pure a) (Pure.pure a') := by
  intro w b v hw hbefore hv
  obtain ⟨hb, rfl⟩ := Prod.mk.inj hv
  obtain rfl := Except.ok.inj hb
  exact ⟨hw, hbefore, a', h, rfl⟩

lemma throw (e : Fault) (m' : Emit σ α) : Mirrors M before after V (MonadExcept.throw e) m' := by
  intro w a v _ _ hv
  simp at hv

lemma throw_bind (e : Fault) (k : β → Emit σ α) (m' : Emit σ α) :
    Mirrors M before after V (MonadExcept.throw e >>= k) m' := by
  intro w a v _ _ hv
  obtain ⟨b, u, hu, -⟩ := Emit.exec_bind_eq_ok.mp hv
  simp at hu

lemma bind {m m' : Emit σ α} {k k' : α → Emit σ β} (hm : Mirrors M before mid V m m')
    (hk : ∀ a a', V a a' → Mirrors M mid after W (k a) (k' a')) :
    Mirrors M before after W (m >>= k) (m' >>= k') := by
  intro w b v hw hbefore hv
  obtain ⟨a, u, hu, hv⟩ := Emit.exec_bind_eq_ok.mp hv
  obtain ⟨hsettled, hmid, a', ha', hu'⟩ := hm w a u hw hbefore hu
  obtain ⟨hsettled', hafter, b', hb', hv'⟩ := hk a a' ha' u b v hsettled hmid hv
  exact ⟨hsettled', hafter, b', hb', Emit.exec_bind_eq_ok.mpr ⟨a', M.image u, hu', hv'⟩⟩

lemma seq {m m' : Emit σ Unit} {k k' : Unit → Emit σ β} (hm : Mirrors M before mid Eq m m')
    (hk : Mirrors M mid after W (k ()) (k' ())) :
    Mirrors M before after W (m >>= k) (m' >>= k') :=
  hm.bind fun _ _ _ => hk

lemma weaken {m m' : Emit σ α} (hm : Mirrors M before mid V m m')
    (h : after = true → mid = true) : Mirrors M before after V m m' := by
  intro w a v hw hbefore hv
  obtain ⟨hsettled, hmid, hrest⟩ := hm w a v hw hbefore hv
  exact ⟨hsettled, fun hafter => hmid (h hafter), hrest⟩

lemma get {k k' : Writer σ → Emit σ β}
    (hk : ∀ w, M.settled w → Mirrors M before after W (k w) (k' (M.image w))) :
    Mirrors M before after W (MonadState.get >>= k) (MonadState.get >>= k') :=
  fun w b v hw hbefore hv => hk w hw w b v hw hbefore hv

lemma change {g g' : Writer σ → Writer σ} (hset : ∀ w, M.settled w → M.settled (g w))
    (hout : ∀ w, (g w).out = w.out) (himage : ∀ w, g' (M.image w) = M.image (g w)) :
    Mirrors M before before Eq (modify g) (modify g') := by
  intro w a v hw hbefore hv
  obtain ⟨-, rfl⟩ := Prod.mk.inj hv
  refine ⟨hset w hw, by rwa [hout], (), rfl, ?_⟩
  rw [Emit.exec_modify, himage]

lemma andThen {m m' : Emit σ α} {g : Writer σ → Writer σ} (hm : Mirrors M before after V m m')
    (hset : ∀ w, M.settled w → M.settled (g w)) (hout : ∀ w, (g w).out = w.out)
    (himage : ∀ w, g (M.image w) = M.image (g w)) :
    Mirrors M before after V (m.andThen g) (m'.andThen g) := by
  intro w a v hw hbefore hv
  rw [Emit.exec_andThen] at hv
  obtain ⟨hr, rfl⟩ := Prod.mk.inj hv
  obtain ⟨hsettled, hafter, a', ha', hv'⟩ := hm w a _ hw hbefore (Prod.ext hr rfl)
  refine ⟨hset _ hsettled, by rwa [hout], a', ha', ?_⟩
  rw [Emit.exec_andThen, hv', himage]

/-! ### Writing -/

/-- A text is written where a name may stand, unless it starts apart from a word. -/
lemma write {t t' : String} (ht : M.names.Renames t t')
    (hstart : before = true ∨ startsApart t = true)
    (hend : after = true → endsApart t = true ∧ (t = "" → before = true)) :
    Mirrors M before after Eq (Emit.write t) (Emit.write t') := by
  intro w a v hw hbefore hv
  obtain ⟨-, rfl⟩ := Prod.mk.inj hv
  have htext : M.names.text (w.out ++ t) = M.names.text w.out ++ t' := by
    rw [← ht]
    exact hstart.elim (fun h => M.names.text_append_of_ends t (hbefore h))
      (M.names.text_append_of_starts _)
  refine ⟨M.elsewhere w _ _ _ hw, fun hafter => ?_, (), rfl, ?_⟩
  · exact endsApart_append (hend hafter).1 fun h => hbefore ((hend hafter).2 h)
  · rw [Emit.exec_write, Mirror.image, Mirror.image, htext]

lemma word {t t' : String} (ht : M.names.Renames t t') :
    Mirrors M true false Eq (Emit.write t) (Emit.write t') :=
  write ht (.inl rfl) (by simp)

lemma opening {t t' : String} (ht : M.names.Renames t t') (hend : endsApart t = true) :
    Mirrors M true after Eq (Emit.write t) (Emit.write t') :=
  write ht (.inl rfl) fun _ => ⟨hend, fun _ => rfl⟩

lemma mark {t : String} (h : isPunctuation t = true) (hne : t ≠ "") :
    Mirrors M before after Eq (Emit.write t) (Emit.write t) :=
  write (Rewording.fixes_of_isPunctuation h) (.inr (startsApart_of_isPunctuation h)) fun _ =>
    ⟨endsApart_of_isPunctuation h, fun hempty => absurd hempty hne⟩

lemma writeIndent : Mirrors M true true Eq Emit.writeIndent Emit.writeIndent := by
  have hindent : (Emit.writeIndent : Emit σ Unit) =
      (do Emit.write (Emit.indentation (← MonadState.get).depth)) := Emit.ext fun _ => rfl
  rw [hindent]
  exact .get fun w _ => .opening (Rewording.fixes_of_isPunctuation (isPunctuation_indentation _))
    (endsApart_indentation _)

lemma writeLine {t t' : String} (ht : M.names.Renames t t') :
    Mirrors M true true Eq (Emit.writeLine t) (Emit.writeLine t') :=
  writeIndent.seq (opening (ht.closed (by decide)) (endsApart_append (by decide) (by simp)))

lemma captured {m m' : Emit σ Unit} (hm : Mirrors M true after Eq m m') :
    Mirrors M before before M.names.Renames (Emit.captured m) (Emit.captured m') := by
  intro w t v hw hbefore hv
  have hempty : M.image { w with out := "" } = { M.image w with out := "" } := by
    have hfix : M.names.text "" = "" := Rewording.fixes_of_isPunctuation (by decide)
    simp only [Mirror.image, hfix]
  rw [Emit.exec_captured] at hv
  rcases hex : m.exec { w with out := "" } with ⟨e | _, u⟩
  · simp [hex] at hv
  · simp only [hex] at hv
    obtain ⟨ht, rfl⟩ := Prod.mk.inj hv
    obtain rfl := Except.ok.inj ht
    have hapart : endsApart "" = true := by decide
    obtain ⟨hsettled, -, a', -, hu⟩ :=
      hm { w with out := "" } () u (M.elsewhere w _ _ _ hw) (fun _ => hapart) hex
    refine ⟨M.elsewhere u _ _ _ hsettled, hbefore, M.names.text u.out, rfl, ?_⟩
    rw [Emit.exec_captured, ← hempty, hu]
    rfl

lemma separated {steps steps' : List (Emit σ Unit)}
    (h : List.Forall₂ (Mirrors M true false Eq) steps steps') :
    Mirrors M true false Eq (Emit.separated ", " steps) (Emit.separated ", " steps') := by
  induction h with
  | nil => exact (pure rfl : Mirrors M true true Eq _ _).weaken (by simp)
  | @cons step step' rest rest' hstep hrest ih =>
    cases hrest with
    | nil => exact hstep
    | cons hnext hothers => exact hstep.seq ((mark (by decide) (by simp)).seq ih)

lemma forM {f f' : α → β} {m m' : β → Emit σ Unit} {xs : List α}
    (h : ∀ x ∈ xs, Mirrors M before before Eq (m (f x)) (m' (f' x))) :
    Mirrors M before before Eq ((xs.map f).forM m) ((xs.map f').forM m') := by
  induction xs with
  | nil => exact pure rfl
  | cons x xs ih =>
    exact (h x List.mem_cons_self).seq (ih fun y hy => h y (List.mem_cons_of_mem _ hy))

lemma mapM {m m' : α → Emit σ β} {xs : List α}
    (h : ∀ x ∈ xs, Mirrors M before before W (m x) (m' x)) :
    Mirrors M before before (List.Forall₂ W) (xs.mapM m) (xs.mapM m') := by
  induction xs with
  | nil => exact pure .nil
  | cons x xs ih =>
    rw [List.mapM_cons, List.mapM_cons]
    exact (h x List.mem_cons_self).bind fun t t' ht =>
      (ih fun y hy => h y (List.mem_cons_of_mem _ hy)).bind fun ts ts' hts => pure (.cons ht hts)

lemma braces {m m' : Emit σ Unit} (hm : Mirrors M true true Eq m m') :
    Mirrors M before after Eq (Emit.braces m) (Emit.braces m') := by
  have hdepth : ∀ g : Nat → Nat, Mirrors M true true Eq
      (modify fun w => { w with depth := g w.depth })
      (modify fun w => { w with depth := g w.depth }) := fun g =>
    change (fun w hw => M.elsewhere w _ _ _ hw) (fun _ => rfl) fun _ => rfl
  exact (mark (by decide) (by simp)).seq ((hdepth (· + 1)).seq (hm.seq ((hdepth (· - 1)).seq
    (writeIndent.seq (mark (by decide) (by simp))))))

end Emit.Mirrors

end Shaderwright
