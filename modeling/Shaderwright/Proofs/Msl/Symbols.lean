import Mathlib.Data.List.Nodup
import Mathlib.Data.List.Pairwise
import Mathlib.Tactic.Common
import Shaderwright.Proofs.Msl.Renaming
import Shaderwright.Proofs.Msl.Uniforms

/-!
The global symbols that are generated for the shaders of one library. A symbol is the name of its
shader, an underscore and a local name. Since both sides may hold underscores themselves, two
shaders with different names can still share a symbol; the main statement says exactly when no
symbol is shared.
-/

namespace Shaderwright.Msl

/-! ### Names with a shader in front -/

lemma prefixed_assoc (shader part name : String) :
    prefixed (prefixed shader part) name = prefixed shader (prefixed part name) := by
  simp [← String.toList_inj, toList_prefixed]

lemma prefixed_injective (shader : String) : Function.Injective (prefixed shader) := by
  intro x y h
  simpa [← String.toList_inj, toList_prefixed] using h

/-- What is behind the name of a shader that continues another name. -/
lemma exists_of_append {s t x y rest : List Char} (hname : t = s ++ rest)
    (hlocal : '_' :: x = rest ++ '_' :: y) :
    (s = t ∧ x = y) ∨ ∃ r, t = s ++ '_' :: r ∧ x = r ++ '_' :: y := by
  cases rest with
  | nil =>
    left
    simp only [List.nil_append, List.cons.injEq, true_and] at hlocal
    exact ⟨by rw [hname, List.append_nil], hlocal⟩
  | cons c r =>
    right
    rw [List.cons_append, List.cons.injEq] at hlocal
    obtain ⟨rfl, hx⟩ := hlocal
    exact ⟨r, hname, hx⟩

/-- Two symbols are the same in two ways only: both parts are, or the name of one shader goes on
behind an underscore with what the local name of the other begins with. -/
lemma prefixed_eq_prefixed {s t x y : String} :
    prefixed s x = prefixed t y ↔ (s = t ∧ x = y) ∨
      (∃ r, t = prefixed s r ∧ x = prefixed r y) ∨ ∃ r, s = prefixed t r ∧ y = prefixed r x := by
  constructor
  · intro h
    have hlist := congrArg String.toList h
    rw [toList_prefixed, toList_prefixed, List.append_eq_append_iff] at hlist
    obtain ⟨rest, hname, hlocal⟩ | ⟨rest, hname, hlocal⟩ := hlist
    · obtain ⟨hs, hx⟩ | ⟨r, ht, hx⟩ := exists_of_append hname hlocal
      · exact .inl ⟨String.toList_inj.mp hs, String.toList_inj.mp hx⟩
      · refine .inr (.inl ⟨String.ofList r, ?_, ?_⟩) <;>
          simpa [← String.toList_inj, toList_prefixed]
    · obtain ⟨ht, hy⟩ | ⟨r, hs, hy⟩ := exists_of_append hname hlocal
      · exact .inl ⟨(String.toList_inj.mp ht).symm, (String.toList_inj.mp hy).symm⟩
      · refine .inr (.inr ⟨String.ofList r, ?_, ?_⟩) <;>
          simpa [← String.toList_inj, toList_prefixed]
  · rintro (⟨rfl, rfl⟩ | ⟨r, rfl, rfl⟩ | ⟨r, rfl, rfl⟩)
    · rfl
    · exact (prefixed_assoc s r y).symm
    · exact prefixed_assoc t r x

lemma prefixed_ne_self (shader name : String) : shader ≠ prefixed shader name := by
  intro h
  have hlength := congrArg (fun s => s.toList.length) h
  simp only [toList_prefixed, List.length_append, List.length_cons] at hlength
  omega

/-! ### The symbols of one shader -/

/-- A shader with the result of compiling it. -/
def Compiled (c : Shader × Output) : Prop :=
  ∃ o library w, (compile o library (some c.1) w).1.1 = .ok c.2

/-- The global symbols that are generated for a shader. -/
def symbols (c : Shader × Output) : List String :=
  [uniformsName c.1.name, argumentBufferName c.1.name, lookupName c.1.name, c.2.entryPoint,
    prefixed c.1.name sampleFunction] ++
    (c.2.helpers ++ c.2.uniforms.map fun u => enumeratorName c.1.name u.name)

def metadataNames : List String := ["Uniforms", "ArgumentBufferID", "UniformID"]

def enumeratorOf (u : Uniform) : String := prefixed u.name "ID"

def fixedNames : List String := metadataNames ++ [entryPointName, sampleFunction]

/-- The symbols of a shader without its name. -/
def localNames (c : Shader × Output) : List String :=
  fixedNames ++ (helperNames c.1 ++ c.2.uniforms.map enumeratorOf)

lemma enumeratorName_eq (shader : String) (u : Uniform) :
    enumeratorName shader u.name = prefixed shader (enumeratorOf u) := by
  simp [enumeratorName, enumeratorOf, prefixed, ← String.toList_inj]

/-- What a compile says of the helpers and the uniforms of its shader. -/
lemma Compiled.parts {c : Shader × Output} (h : Compiled c) :
    c.2.entryPoint = prefixed c.1.name entryPointName ∧
      c.2.helpers = (helperNames c.1).map (prefixed c.1.name) ∧
      (c.2.uniforms.map Uniform.name).Nodup := by
  obtain ⟨s, out⟩ := c
  obtain ⟨o, library, w, hout⟩ := h
  dsimp only at hout ⊢
  obtain ⟨text, own, ht, rfl⟩ := translate_of_compile hout
  refine ⟨rfl, ?_, ?_⟩
  · obtain ⟨-, v, body, hv, -, -, rfl⟩ := translate_eq_ok.mp ht
    exact congrArg (List.map (prefixed s.name)) (helpers_of_exec hv)
  · have hnames : own.uniforms.map Uniform.name =
        ((s.params.map sizedParam).map Prod.fst).eraseDups := by
      rw [← keys_addNew, ← uniforms_of_translate ht, List.map_map]
      rfl
    rw [hnames]
    exact nodup_eraseDups _

lemma Compiled.symbols_eq {c : Shader × Output} (h : Compiled c) :
    symbols c = (localNames c).map (prefixed c.1.name) := by
  obtain ⟨hentry, hhelpers, -⟩ := h.parts
  simp [symbols, localNames, fixedNames, metadataNames, uniformsName, argumentBufferName,
    lookupName, hentry, hhelpers, enumeratorName_eq, Function.comp_def]

/-- An enumerator ends in an underscore and `ID`, and a fixed name does not. -/
lemma enumeratorOf_not_mem (u : Uniform) : enumeratorOf u ∉ fixedNames := by
  have hends : ∀ n ∈ fixedNames, ¬ "_ID".toList <:+ n.toList := by decide
  intro hmem
  refine hends _ hmem ⟨u.name.toList, ?_⟩
  simp [enumeratorOf, toList_prefixed]

/-- Within one shader only a helper can take the name of another symbol. -/
lemma Compiled.nodup_localNames_iff {c : Shader × Output} (h : Compiled c)
    (hhelpers : c.2.helpers.Nodup) :
    (localNames c).Nodup ↔ ∀ f ∈ helperNames c.1,
      f ∉ metadataNames ∧ ∀ u ∈ c.2.uniforms, f ≠ enumeratorOf u := by
  obtain ⟨-, hprefixed, huniforms⟩ := h.parts
  rw [hprefixed, List.nodup_map_iff (prefixed_injective _)] at hhelpers
  have hids : (c.2.uniforms.map enumeratorOf).Nodup := by
    have hid : Function.Injective fun n => prefixed n "ID" := by
      intro x y h
      simpa [← String.toList_inj, toList_prefixed] using h
    have hmap := huniforms.map hid
    rwa [List.map_map] at hmap
  have hfixed : fixedNames.Nodup := by decide
  have hhelper : ∀ f ∈ helperNames c.1, f ∉ [entryPointName, sampleFunction] := by
    intro f hf hmem
    obtain ⟨-, -, -, hishelper⟩ := mem_helperNames.mp hf
    have hcore : ∀ n ∈ [entryPointName, sampleFunction], isHelper n = false := by decide
    rw [hcore f hmem] at hishelper
    cases hishelper
  rw [localNames, List.nodup_append, List.nodup_append]
  constructor
  · rintro ⟨-, ⟨-, -, henum⟩, hapart⟩ f hf
    refine ⟨fun hmem => ?_, fun u hu => henum f hf _ (List.mem_map_of_mem hu)⟩
    exact hapart f (List.mem_append_left _ hmem) f (List.mem_append_left _ hf) rfl
  · intro hclear
    refine ⟨hfixed, ⟨hhelpers, hids, ?_⟩, ?_⟩
    · rintro f hf _ hid rfl
      obtain ⟨u, hu, hfu⟩ := List.mem_map.mp hid
      exact (hclear f hf).2 u hu hfu.symm
    · rintro n hn _ hlocal rfl
      rcases List.mem_append.mp hlocal with hf | hid
      · rcases List.mem_append.mp hn with hmeta | hcore
        · exact (hclear n hf).1 hmeta
        · exact hhelper n hf hcore
      · obtain ⟨u, -, rfl⟩ := List.mem_map.mp hid
        exact enumeratorOf_not_mem u hn

/-! ### The symbols of a library -/

/-- Shaders with different names share no symbol exactly if neither name goes on to a name that a
local name of the other shader begins with. -/
lemma Compiled.disjoint_iff {c d : Shader × Output} (hc : Compiled c) (hd : Compiled d)
    (hne : c.1.name ≠ d.1.name) :
    (symbols c).Disjoint (symbols d) ↔
      (∀ r, d.1.name = prefixed c.1.name r → ∀ y ∈ localNames d, prefixed r y ∉ localNames c) ∧
      ∀ r, c.1.name = prefixed d.1.name r → ∀ x ∈ localNames c, prefixed r x ∉ localNames d := by
  rw [hc.symbols_eq, hd.symbols_eq, List.disjoint_left]
  constructor
  · intro hdisjoint
    constructor
    · intro r hr y hy hx
      refine hdisjoint (List.mem_map_of_mem hx) (List.mem_map.mpr ⟨y, hy, ?_⟩)
      rw [hr, prefixed_assoc]
    · intro r hr x hx hy
      refine hdisjoint (List.mem_map_of_mem hx) (List.mem_map.mpr ⟨_, hy, ?_⟩)
      rw [hr, prefixed_assoc]
  · rintro ⟨hright, hleft⟩ symbol hsymbol hsymbol'
    obtain ⟨x, hx, rfl⟩ := List.mem_map.mp hsymbol
    obtain ⟨y, hy, hyx⟩ := List.mem_map.mp hsymbol'
    obtain ⟨hname, -⟩ | ⟨r, hr, rfl⟩ | ⟨r, hr, rfl⟩ := prefixed_eq_prefixed.mp hyx
    · exact hne hname.symm
    · exact hleft r hr x hx hy
    · exact hright r hr y hy hx

/-- The symbols of a library are pairwise distinct exactly if no helper is named like the struct,
the enumeration, the look-up or an enumerator of its own shader, and if of two shaders one of
which is named `S` and the other one `S_r`, the first has no local name `r_y` for a local name `y`
of the second. -/
theorem symbols_nodup_iff {cs : List (Shader × Output)} (hcompiled : ∀ c ∈ cs, Compiled c)
    (hnames : (cs.map fun c => c.1.name).Nodup) (hhelpers : ∀ c ∈ cs, c.2.helpers.Nodup) :
    (cs.flatMap symbols).Nodup ↔
      (∀ c ∈ cs, ∀ f ∈ helperNames c.1,
        f ∉ metadataNames ∧ ∀ u ∈ c.2.uniforms, f ≠ enumeratorOf u) ∧
      ∀ c ∈ cs, ∀ d ∈ cs, ∀ r, d.1.name = prefixed c.1.name r →
        ∀ y ∈ localNames d, prefixed r y ∉ localNames c := by
  have hown : ∀ c ∈ cs, ((symbols c).Nodup ↔ ∀ f ∈ helperNames c.1,
      f ∉ metadataNames ∧ ∀ u ∈ c.2.uniforms, f ≠ enumeratorOf u) := by
    intro c hc
    rw [(hcompiled c hc).symbols_eq, List.nodup_map_iff (prefixed_injective _)]
    exact (hcompiled c hc).nodup_localNames_iff (hhelpers c hc)
  have hdistinct : ∀ c ∈ cs, ∀ d ∈ cs, c ≠ d → c.1.name ≠ d.1.name := by
    intro c hc d hd hne hname
    exact hne (List.inj_on_of_nodup_map hnames hc hd hname)
  rw [List.nodup_flatMap]
  refine and_congr (forall₂_congr hown) ⟨fun hpairs c hc d hd r hr => ?_, fun hapart => ?_⟩
  · have hne : c ≠ d := by
      rintro rfl
      exact prefixed_ne_self _ _ hr
    have hsymm : Std.Symm (Function.onFun List.Disjoint symbols) :=
      ⟨fun _ _ h _ hb ha => h ha hb⟩
    have hdisjoint := hpairs.forall hc hd hne
    exact (((hcompiled c hc).disjoint_iff (hcompiled d hd) (hdistinct c hc d hd hne)).mp
      hdisjoint).1 r hr
  · refine hnames.of_map.pairwise_of_forall_ne fun c hc d hd hne => ?_
    exact ((hcompiled c hc).disjoint_iff (hcompiled d hd) (hdistinct c hc d hd hne)).mpr
      ⟨hapart c hc d hd, hapart d hd c hc⟩

/-- A shader with one uniform, and with helpers that answer with the uniform. -/
def lamp (name uniform : String) (helpers : List String) : Shader where
  name := name
  decls := .var { var := { name := uniform, type := .vec4, qualifier := .param } } ::
    helpers.map fun helper => .func
      { name := helper, returns := .vec4, body := [.returns (.ident uniform .unresolved)] }

/-- A shader that can be translated can be compiled, and its local names are known. -/
lemma exists_compiled (s : Shader) (us : List Uniform)
    (h : (translate defaultCommonHeader (some s)).map (fun r => r.2.uniforms) = .ok us) :
    ∃ out, Compiled (s, out) ∧ out.uniforms = us ∧
      out.helpers = (helperNames s).map (prefixed s.name) ∧
      localNames (s, out) = fixedNames ++ (helperNames s ++ us.map enumeratorOf) := by
  obtain ⟨out, hout, rfl, -⟩ := compile_of_translate none {} s us h {}
  have hc : Compiled (s, out) := ⟨{}, none, {}, hout⟩
  exact ⟨out, hc, rfl, hc.parts.2.1, rfl⟩

/-- The name of one shader continues that of the other one, which has a helper that begins with
what is behind; still no symbol is shared. -/
theorem symbols_nodup_glow :
    ∃ out out', Compiled (lamp "Glow" "tint" ["Blur_soft"], out) ∧
      Compiled (lamp "Glow_Blur" "tint" ["tone"], out') ∧
      ([(lamp "Glow" "tint" ["Blur_soft"], out),
        (lamp "Glow_Blur" "tint" ["tone"], out')].flatMap symbols).Nodup := by
  obtain ⟨out, hc, hus, hhelpers, hlocal⟩ := exists_compiled (lamp "Glow" "tint" ["Blur_soft"])
    [⟨"tint", "float4 tint;", 0, 1⟩] (by decide +kernel)
  obtain ⟨out', hc', hus', hhelpers', hlocal'⟩ := exists_compiled (lamp "Glow_Blur" "tint" ["tone"])
    [⟨"tint", "float4 tint;", 0, 1⟩] (by decide +kernel)
  refine ⟨out, out', hc, hc', (symbols_nodup_iff ?_ ?_ ?_).mpr ⟨?_, ?_⟩⟩
  · exact List.forall_mem_cons.mpr ⟨hc, List.forall_mem_singleton.mpr hc'⟩
  · show ["Glow", "Glow_Blur"].Nodup
    decide
  · rw [List.forall_mem_cons, List.forall_mem_singleton, hhelpers, hhelpers']
    decide
  · rw [List.forall_mem_cons, List.forall_mem_singleton, hus, hus']
    dsimp only
    decide
  · simp only [List.forall_mem_cons, List.not_mem_nil, false_imp_iff, implies_true, and_true,
      hlocal, hlocal']
    refine ⟨⟨fun r hr => absurd hr (prefixed_ne_self _ _), fun r hr => ?_⟩, fun r hr => ?_,
      fun r hr => absurd hr (prefixed_ne_self _ _)⟩
    · obtain rfl : "Blur" = r := prefixed_injective "Glow" hr
      decide
    · have hlength := congrArg (fun s => s.toList.length) hr
      simp [toList_prefixed, lamp] at hlength

/-- Two shaders that can be compiled, with different names and with no name twice among the
helpers or among the uniforms of either, both have the symbol `Glow_Blur_tint_ID`. -/
theorem symbols_not_nodup_glow :
    ∃ cs : List (Shader × Output), (∀ c ∈ cs, Compiled c) ∧
      (cs.map fun c => c.1.name) = ["Glow", "Glow_Blur"] ∧
      (∀ c ∈ cs, c.2.helpers.Nodup ∧ (c.2.uniforms.map Uniform.name).Nodup) ∧
      ¬ (cs.flatMap symbols).Nodup := by
  obtain ⟨out, hc, hus, hhelpers, hlocal⟩ := exists_compiled (lamp "Glow" "Blur_tint" [])
    [⟨"Blur_tint", "float4 Blur_tint;", 0, 1⟩] (by decide +kernel)
  obtain ⟨out', hc', hus', hhelpers', hlocal'⟩ := exists_compiled (lamp "Glow_Blur" "tint" [])
    [⟨"tint", "float4 tint;", 0, 1⟩] (by decide +kernel)
  refine ⟨[(lamp "Glow" "Blur_tint" [], out), (lamp "Glow_Blur" "tint" [], out')],
    List.forall_mem_cons.mpr ⟨hc, List.forall_mem_singleton.mpr hc'⟩, rfl, ?_, ?_⟩
  · rw [List.forall_mem_cons, List.forall_mem_singleton, hhelpers, hhelpers', hus, hus']
    decide
  · have hshared : "Glow_Blur_tint_ID" ∈ symbols (lamp "Glow" "Blur_tint" [], out) := by
      rw [hc.symbols_eq, hlocal]
      dsimp only
      decide
    have hshared' : "Glow_Blur_tint_ID" ∈ symbols (lamp "Glow_Blur" "tint" [], out') := by
      rw [hc'.symbols_eq, hlocal']
      dsimp only
      decide
    intro hnodup
    rw [List.flatMap_cons, List.flatMap_singleton, List.nodup_append] at hnodup
    exact hnodup.2.2 _ hshared _ hshared' rfl

end Shaderwright.Msl
