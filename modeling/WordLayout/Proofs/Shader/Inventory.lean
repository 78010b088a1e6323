import Mathlib
import WordLayout.Proofs.Shader.Order

namespace WordLayout

namespace Payload

def isEmpty : Payload → Bool
  | .empty => true
  | _ => false

def isStruct : Payload → Bool
  | .struct .. => true
  | _ => false

def unsupported? : Payload → Option String
  | .unsupported _ reason => some reason
  | _ => none

end Payload

def TypeDef.variants (d : TypeDef) : List Variant :=
  match d.body with
  | .union variants => variants
  | .struct _ | .missing => []

def Module.variants (m : Module) : List (TypeDef × Variant) :=
  m.defs.flatMap fun d => d.variants.map fun v => (d, v)

namespace Shader

def accessorNames (writable : Bool) (d : TypeDef) : List String :=
  match d.body with
  | .struct _ => (d.name ++ "_read") :: if writable then [d.name ++ "_write"] else []
  | .union variants =>
    (d.name ++ "_tag") ::
      (variants.filter (·.payload.isStruct)).map (fun v => tagName d v ++ "_read") ++
      if writable then
        (variants.filter fun v => v.payload.isEmpty || v.payload.isStruct).map
          fun v => tagName d v ++ "_write"
      else []
  | .missing => []

structure Inventory (m : Module) (o : Options) (out : Output) : Prop where
  functions_eq : out.functions =
    m.defs.map (fun d => d.name ++ "_index") ++ m.defs.flatMap (accessorNames m.writable)
  nodup : out.functions.Nodup
  skipped_eq : out.skipped = m.variants.filterMap fun (d, v) =>
    v.payload.unsupported?.map fun reason => ⟨d.name, v.name, reason⟩
  supported : o.skipUnsupported = false → ∀ d ∈ m.defs, ∀ v ∈ d.variants,
    v.payload.unsupported? = none

variable {m : Module} {l : Language} {o : Options} {out : Output}

section functions

def functionNames (items : List Item) : List String :=
  (items.filterMap Item.function?).map (·.name)

theorem functionNames_append (items items' : List Item) :
    functionNames (items ++ items') = functionNames items ++ functionNames items' := by
  simp [functionNames]

theorem functionNames_function (f : Function) (items : List Item) :
    functionNames (.function f :: items) = f.name :: functionNames items := rfl

variable {d : TypeDef}

theorem functionNames_variantReads (variants : List Variant) :
    functionNames (variants.flatMap (variantRead m d)) =
      (variants.filter (·.payload.isStruct)).map fun v => tagName d v ++ "_read" := by
  induction variants with
  | nil => rfl
  | cons v variants ih =>
    rw [List.flatMap_cons, functionNames_append, ih]
    cases hp : v.payload <;>
      simp [variantRead, hp, functionNames, Item.function?, Payload.isStruct, List.filterMap_cons]

theorem functionNames_variantWrites (variants : List Variant) :
    functionNames (variants.flatMap (variantWrite m d)) =
      (variants.filter fun v => v.payload.isEmpty || v.payload.isStruct).map
        fun v => tagName d v ++ "_write" := by
  induction variants with
  | nil => rfl
  | cons v variants ih =>
    rw [List.flatMap_cons, functionNames_append, ih]
    cases hp : v.payload <;>
      simp [variantWrite, hp, functionNames, Item.function?, Payload.isEmpty, Payload.isStruct,
        List.filterMap_cons]

theorem functionNames_accessors (maskUnsigned : Bool) :
    functionNames (accessors m maskUnsigned d) = accessorNames m.writable d := by
  cases hb : d.body with
  | struct fields =>
    simp only [accessors, accessorNames, hb, functionNames_function]
    cases m.writable <;> rfl
  | union variants =>
    simp only [accessors, accessorNames, hb, functionNames_append, functionNames_function,
      functionNames_variantReads]
    congr 1
    cases m.writable with
    | true => exact functionNames_variantWrites variants
    | false => rfl
  | missing =>
    simp only [accessors, accessorNames, hb]
    rfl

theorem functions_of_emit (he : emit m l o = .ok out) :
    out.functions =
      m.defs.map (fun d => d.name ++ "_index") ++ m.defs.flatMap (accessorNames m.writable) := by
  obtain ⟨-, -, hprog, -⟩ := emit_eq_ok he
  have hnames : ∀ d : TypeDef, (accessorFunctions m o.maskUnsigned d).map (·.name) =
      accessorNames m.writable d := fun d => functionNames_accessors o.maskUnsigned
  rw [Output.functions, hprog, functions_program, List.map_append, List.map_map, List.map_flatMap]
  simp only [hnames]
  rfl

end functions

section skipped

theorem unsupported_eq (m : Module) :
    unsupported m = m.variants.filterMap fun (d, v) =>
      v.payload.unsupported?.map fun reason => ⟨d.name, v.name, reason⟩ := by
  rw [unsupported, Module.variants, List.filterMap_flatMap]
  apply List.flatMap_congr
  intro d _
  cases hb : d.body with
  | union variants =>
    simp only [TypeDef.variants, hb, List.filterMap_map]
    apply List.filterMap_congr
    intro v _
    cases hp : v.payload <;> simp [hp, Payload.unsupported?]
  | struct _ | missing => simp [TypeDef.variants, hb]

theorem skip_eq_ok_iff {skipped : List Skipped} :
    skip m o = .ok skipped ↔
      skipped = unsupported m ∧ (o.skipUnsupported = false → unsupported m = []) := by
  unfold skip
  cases unsupported m with
  | nil => simp only [Except.ok.injEq, implies_true, and_true, eq_comm]
  | cons s rest =>
    cases o.skipUnsupported with
    | true => simp [eq_comm (b := skipped)]
    | false => simp

theorem skip_of_emit (he : emit m l o = .ok out) : skip m o = .ok out.skipped := by
  unfold emit at he
  split at he
  · obtain ⟨used, -, he⟩ := bind_eq_ok_iff.mp he
    obtain ⟨skipped, hskip, he⟩ := bind_eq_ok_iff.mp he
    obtain rfl := Except.ok.inj he
    exact hskip
  · cases he

end skipped

theorem inventory_of_emit (he : emit m l o = .ok out) : Inventory m o out := by
  obtain ⟨hskipped, hnone⟩ := skip_eq_ok_iff.mp (skip_of_emit he)
  refine ⟨functions_of_emit he, (unambiguous_of_emit he).function_names,
    hskipped.trans (unsupported_eq m), ?_⟩
  intro ho d hd v hv
  have hnil := hnone ho
  rw [unsupported_eq, List.filterMap_eq_nil_iff] at hnil
  have hmem : (d, v) ∈ m.variants := List.mem_flatMap.mpr ⟨d, hd, List.mem_map_of_mem hv⟩
  exact Option.map_eq_none_iff.mp (hnil (d, v) hmem)

/-- The functions of an output and the variants that it skips depend on the module and the options
alone, not on the language. -/
theorem emitted_inventory {l' : Language} {out' : Output} (he : emit m l o = .ok out)
    (he' : emit m l' o = .ok out') :
    out.functions = out'.functions ∧ out.skipped = out'.skipped ∧ Inventory m o out := by
  have hi := inventory_of_emit he
  have hi' := inventory_of_emit he'
  exact ⟨hi.functions_eq.trans hi'.functions_eq.symm, hi.skipped_eq.trans hi'.skipped_eq.symm, hi⟩

def mixedModule : Module :=
  { name := "mixed", writable := true
    defs :=
      [{ name := "Point", size := 8
         body := .struct [⟨"x", 0, .scalar .f32, 4⟩, ⟨"y", 4, .scalar .f32, 4⟩] },
        { name := "Shape", size := 12
          body := .union [⟨"none", .empty⟩, ⟨"blob", .unsupported [] "too large"⟩,
            ⟨"dot", .struct 4 0⟩] }] }

theorem emitted_inventory_mixed :
    ∃ out out', emit mixedModule .glsl { skipUnsupported := true } = .ok out ∧
      emit mixedModule .wgsl { skipUnsupported := true } = .ok out' ∧
      out.functions = out'.functions ∧ out.skipped = out'.skipped ∧
      out.functions = ["Point_index", "Shape_index", "Point_read", "Point_write", "Shape_tag",
        "Shape_dot_read", "Shape_none_write", "Shape_dot_write"] ∧
      out.skipped = [⟨"Shape", "blob", "too large"⟩] := by
  have hv : mixedModule.validate = [] := by cbv
  obtain ⟨out, hout⟩ := @emit_ok mixedModule .glsl { skipUnsupported := true } hv
    (by decide +kernel) rfl
  obtain ⟨out', hout'⟩ := @emit_ok mixedModule .wgsl { skipUnsupported := true } hv
    (by decide +kernel) rfl
  obtain ⟨hfunctions, hskipped, hi⟩ := emitted_inventory hout hout'
  exact ⟨out, out', hout, hout', hfunctions, hskipped, hi.functions_eq.trans (by decide +kernel),
    hi.skipped_eq.trans (by decide +kernel)⟩

end Shader

end WordLayout
