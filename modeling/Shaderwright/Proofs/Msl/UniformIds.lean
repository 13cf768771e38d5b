import Mathlib
import Shaderwright.Proofs.Msl.Uniforms

/-!
The argument-buffer IDs of the uniforms. They are handed out in words, each uniform right behind the
one before it; as long as a word can hold all of them, they tile the numbers from zero on. A
parameter whose name was a parameter before takes no ID and leaves no trace in the text.
-/

namespace Shaderwright.Msl

/-! ### IDs as numbers -/

def Uniform.ids (u : Uniform) : Set Int := Set.Ico u.id.toInt (u.id.toInt + u.count.toInt)

def idCount (us : List Uniform) : Int := (us.map fun u => u.count.toInt).sum

@[simp] lemma idCount_nil : idCount [] = 0 := rfl

@[simp] lemma idCount_cons (u : Uniform) (us : List Uniform) :
    idCount (u :: us) = u.count.toInt + idCount us := by simp [idCount]

lemma idCount_nonneg {us : List Uniform} (h : ∀ u ∈ us, 0 < u.count.toInt) : 0 ≤ idCount us := by
  refine List.sum_nonneg fun n hn => ?_
  obtain ⟨u, hu, rfl⟩ := List.mem_map.mp hn
  exact (h u hu).le

/-- The IDs of some uniforms lie side by side from a number on, in the order of the uniforms. -/
structure Tiles (lo : Int) (us : List Uniform) : Prop where
  first : ∀ u, us.head? = some u → u.id.toInt = lo
  next : us.IsChain fun u v => v.id.toInt = u.id.toInt + u.count.toInt
  disjoint : us.Pairwise fun u v => Disjoint u.ids v.ids
  covers : ⋃ u ∈ us, u.ids = Set.Ico lo (lo + idCount us)

namespace Tiles

lemma nil (lo : Int) : Tiles lo [] where
  first := by simp
  next := .nil
  disjoint := .nil
  covers := by simp

lemma cons {u : Uniform} {us : List Uniform} (hu : 0 < u.count.toInt) (hus : 0 ≤ idCount us)
    (h : Tiles (u.id.toInt + u.count.toInt) us) : Tiles u.id.toInt (u :: us) where
  first := by simp
  next := List.isChain_cons.mpr ⟨h.first, h.next⟩
  disjoint := by
    refine List.pairwise_cons.mpr ⟨fun v hv => ?_, h.disjoint⟩
    have hbehind : v.ids ⊆ Set.Ico (u.id.toInt + u.count.toInt)
        (u.id.toInt + u.count.toInt + idCount us) := by
      rw [← h.covers]
      exact Set.subset_biUnion_of_mem (u := Uniform.ids) hv
    exact (Set.Ico_disjoint_Ico_same).mono_right hbehind
  covers := by
    have hunion : ⋃ v ∈ u :: us, v.ids = u.ids ∪ ⋃ v ∈ us, v.ids := by simp
    rw [hunion, h.covers, Uniform.ids, Set.Ico_union_Ico_eq_Ico (by omega) (by omega),
      idCount_cons, Int.add_assoc]

end Tiles

/-! ### IDs as words -/

/-- The uniforms are numbered one behind the other, up to the next free ID. -/
def Numbered (lo : Int64) : List Uniform → Int64 → Prop
  | [], hi => lo = hi
  | u :: us, hi => u.id = lo ∧ Numbered (lo + u.count) us hi

lemma Numbered.concat {lo hi : Int64} {us : List Uniform} (h : Numbered lo us hi)
    (name field : String) (count : Int64) :
    Numbered lo (us ++ [⟨name, field, hi, count⟩]) (hi + count) := by
  induction us generalizing lo with
  | nil =>
    obtain rfl : lo = hi := h
    exact ⟨rfl, rfl⟩
  | cons u us ih => exact ⟨h.1, ih h.2⟩

/-- Numbered words are numbers side by side if a word can hold the last of them. -/
lemma Numbered.tiles {lo hi : Int64} {us : List Uniform} (h : Numbered lo us hi)
    (hpos : ∀ u ∈ us, 0 < u.count.toInt) (hlo : 0 ≤ lo.toInt)
    (hsum : lo.toInt + idCount us < 2 ^ 63) : Tiles lo.toInt us := by
  induction us generalizing lo with
  | nil => exact .nil _
  | cons u us ih =>
    obtain ⟨rfl, h⟩ := h
    obtain ⟨hu, hus⟩ := List.forall_mem_cons.mp hpos
    have hrest := idCount_nonneg hus
    rw [idCount_cons] at hsum
    have hadd : (u.id + u.count).toInt = u.id.toInt + u.count.toInt := by
      rw [← Int64.ofInt_toInt (x := u.id), ← Int64.ofInt_toInt (x := u.count), ← Int64.ofInt_add,
        Int64.ofInt_toInt, Int64.ofInt_toInt]
      exact Int64.toInt_ofInt_of_le (by omega) (by omega)
    refine Tiles.cons hu hrest ?_
    rw [← hadd]
    exact ih h hus (by omega) (by omega)

/-! ### The layout of parameters -/

namespace Layout

lemma numbered_add {l : Layout} (h : Numbered 0 l.uniforms l.nextId) (v : Variable) :
    Numbered 0 (l.add v).uniforms (l.add v).nextId := by
  unfold add
  split
  · exact h
  · exact h.concat _ _ _

lemma numbered_foldl_add {l : Layout} (h : Numbered 0 l.uniforms l.nextId) (vs : List Variable) :
    Numbered 0 (vs.foldl add l).uniforms (vs.foldl add l).nextId := by
  induction vs generalizing l with
  | nil => exact h
  | cons v vs ih => exact ih (numbered_add h v)

lemma names_foldl_add (vs : List Variable) :
    (vs.foldl add {}).uniforms.map Uniform.name = (vs.map Variable.name).eraseDups := by
  have hadded : (vs.foldl add {}).uniforms.map (fun u => (u.name, ())) =
      (vs.map fun v => (v.name, ())).foldl addNew [] := uniforms_foldl_add (fun _ _ => rfl) {} vs
  have hkeys := congrArg (List.map Prod.fst) hadded
  rw [keys_addNew] at hkeys
  simpa [Function.comp_def] using hkeys

/-- A uniform is described by the first parameter of its name. -/
lemma first_of_mem_foldl_add {vs : List Variable} {u : Uniform}
    (hu : u ∈ (vs.foldl add {}).uniforms) :
    ∃ v, vs.find? (fun v => v.name = u.name) = some v ∧ u.field = fieldText v ∧
      u.count = v.count := by
  have hadded : (vs.foldl add {}).uniforms.map (fun u => (u.name, u.field, u.count)) =
      (vs.map fun v => (v.name, fieldText v, v.count)).foldl addNew [] :=
    uniforms_foldl_add (fun _ _ => rfl) {} vs
  have hmem := List.mem_map_of_mem (f := fun u : Uniform => (u.name, u.field, u.count)) hu
  rw [hadded] at hmem
  have hfirst := find?_of_mem_addNew hmem
  rw [List.find?_map, Option.map_eq_some_iff] at hfirst
  obtain ⟨v, hv, hstated⟩ := hfirst
  obtain ⟨-, hfield, hcount⟩ : v.name = u.name ∧ fieldText v = u.field ∧ v.count = u.count := by
    simpa using hstated
  exact ⟨v, hv, hfield.symm, hcount.symm⟩

end Layout

/-! ### Parameters that were declared before -/

variable {shader : String} {names : NameTable}

lemma names_of_exec {xs : List Decl} {w : Writer State}
    (h : ((dialect names shader).decls xs).exec { own := {} } = (.ok (), w)) :
    w.own.uniforms.map Uniform.name = ((xs.filterMap Decl.param?).map Variable.name).eraseDups := by
  have hlayout : w.own.layout = (xs.filterMap Decl.param?).foldl Layout.add {} :=
    layout_decls ⟨rfl, rfl, rfl⟩ h
  rw [← Layout.names_foldl_add, ← hlayout]
  rfl

/-- A parameter whose name has IDs already is passed over, whatever becomes of the declarations
around it. -/
lemma exec_decls_repeated {before after : List Decl} {v : VarDecl} (hv : v.var.qualifier = .param)
    (hold : v.var.name ∈ (before.filterMap Decl.param?).map Variable.name) :
    ((dialect names shader).decls (before ++ .var v :: after)).exec { own := {} } =
      ((dialect names shader).decls (before ++ after)).exec { own := {} } := by
  rw [Dialect.decls_append, Dialect.decls_append, Emit.exec_bind, Emit.exec_bind]
  rcases hbefore : ((dialect names shader).decls before).exec { own := {} } with ⟨e | _, w⟩
  · rfl
  · have hcalm : w.Calm {} := by
      have hkeep := ((tame_dialect names shader).decls before).keeps { own := {} } ⟨rfl, rfl, rfl⟩
      rwa [hbefore] at hkeep
    have hmem : v.var.name ∈ w.own.uniforms.map Uniform.name := by
      rw [names_of_exec hbefore]
      exact List.mem_eraseDups.mpr hold
    have hskip : ((dialect names shader).decl (.var v)).exec w = (.ok (), w) := by
      rw [exec_decl_param hv hcalm, exec_declareUniform_of_mem hmem]
    exact Emit.exec_bind_of_ok hskip _

lemma compile_repeated (o : Options) (library : Option Library) (name : String) (w : World)
    {before after : List Decl} {v : VarDecl} (hv : v.var.qualifier = .param)
    (hold : v.var.name ∈ (before.filterMap Decl.param?).map Variable.name) :
    compile o library (some ⟨name, before ++ .var v :: after⟩) w =
      compile o library (some ⟨name, before ++ after⟩) w := by
  have htranslate : ∀ common, translate common (some ⟨name, before ++ .var v :: after⟩) =
      translate common (some ⟨name, before ++ after⟩) := fun common => by
    simp only [translate, exec_decls_repeated hv hold]
  unfold compile
  simp only [htranslate]
  rfl

/-! ### Accepted shaders -/

/-- The uniforms of an accepted shader are those of its parameters, one for each name in the order
in which the names first occur, as the first parameter of the name describes them. If their counts
add up to a word, their IDs tile the numbers from zero on. A parameter whose name was a parameter
before can be left out without any difference. -/
theorem uniform_ids_tile {o : Options} {library : Option Library} {s : Shader} {w : World}
    {out : Output} (h : (compile o library (some s) w).1.1 = .ok out)
    (hsum : idCount out.uniforms < 2 ^ 63) :
    out.uniforms.map Uniform.name = (s.params.map Variable.name).eraseDups ∧
      (out.uniforms.map Uniform.name).Nodup ∧
      (∀ u ∈ out.uniforms, ∃ v, s.params.find? (fun v => v.name = u.name) = some v ∧
        u.field = fieldText v ∧ u.count = v.count) ∧
      Tiles 0 out.uniforms ∧
      ∀ before v after, s.decls = before ++ .var v :: after → v.var.qualifier = .param →
        v.var.name ∈ (before.filterMap Decl.param?).map Variable.name →
        compile o library (some { s with decls := before ++ after }) w =
          compile o library (some s) w := by
  obtain ⟨text, own, ht, rfl⟩ := translate_of_compile h
  have hlayout := layout_of_translate ht
  have huniforms : own.uniforms = (s.params.foldl Layout.add {}).uniforms :=
    congrArg Layout.uniforms hlayout
  have hnames := Layout.names_foldl_add s.params
  have hfirst : ∀ u ∈ own.uniforms, ∃ v, s.params.find? (fun v => v.name = u.name) = some v ∧
      u.field = fieldText v ∧ u.count = v.count :=
    fun u hu => Layout.first_of_mem_foldl_add (huniforms ▸ hu)
  rw [← huniforms] at hnames
  refine ⟨hnames, hnames ▸ nodup_eraseDups _, hfirst, ?_, ?_⟩
  · have hnumbered : Numbered 0 own.layout.uniforms own.layout.nextId := by
      rw [hlayout]
      exact Layout.numbered_foldl_add (l := {}) rfl s.params
    change Numbered 0 own.uniforms own.nextId at hnumbered
    refine hnumbered.tiles (fun u hu => ?_) (by decide) (by simpa using hsum)
    obtain ⟨v, -, -, hcount⟩ := hfirst u hu
    rw [hcount]
    simpa using Int64.lt_iff_toInt_lt.mp v.count_pos
  · intro before v after hs hv hold
    obtain ⟨name, decls⟩ := s
    obtain rfl : decls = before ++ .var v :: after := hs
    exact (compile_repeated o library name w hv hold).symm

/-- An array, a texture, a function, the name of the array again, and a number. -/
def layered : Shader where
  name := "Layered"
  decls := [
    .var { var := {
      name := "tint", type := .vec4, qualifier := .param, precision := .high, isArray := true,
      arraySize := 3 } },
    .var { var := { name := "image", type := .sampler2D, qualifier := .param } },
    .func {
      name := "shade", returns := .vec4,
      body := [.returns (.index (.ident "tint" .unresolved) (.literal "0" .int))] },
    .var { var := { name := "tint", type := .float, qualifier := .param } },
    .var { var := { name := "gain", type := .float, qualifier := .param } }]

theorem uniform_ids_tile_layered :
    ∃ out, (compile {} none (some layered) {}).1.1 = .ok out ∧
      out.uniforms = [⟨"tint", "highp float4 tint[3];", 0, 3⟩,
        ⟨"image", "texture2d<float> image;", 3, 1⟩, ⟨"gain", "float gain;", 4, 1⟩] ∧
      idCount out.uniforms < 2 ^ 63 ∧ Tiles 0 out.uniforms ∧
      compile {} none (some ⟨"Layered", layered.decls.eraseIdx 3⟩) {} =
        compile {} none (some layered) {} := by
  obtain ⟨out, h, huniforms, -⟩ := compile_of_translate none {} layered
    [⟨"tint", "highp float4 tint[3];", 0, 3⟩, ⟨"image", "texture2d<float> image;", 3, 1⟩,
      ⟨"gain", "float gain;", 4, 1⟩] (by decide +kernel) {}
  have hsum : idCount out.uniforms < 2 ^ 63 := by
    rw [huniforms]
    decide
  obtain ⟨-, -, -, htiles, hrepeated⟩ := uniform_ids_tile h hsum
  exact ⟨out, h, huniforms, hsum, htiles,
    hrepeated (layered.decls.take 3) _ (layered.decls.drop 4) rfl rfl (by decide)⟩

end Shaderwright.Msl
