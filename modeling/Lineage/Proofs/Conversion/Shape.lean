import Lineage.Proofs.Conversion.Variants

namespace Lineage

/-- Whether a value is an instance of a variant as its type asks for it: the name alone if there is no
type, or else the name with a payload. -/
inductive Member.Shapes (m : Member) : Value → Prop
  | unit (untyped : m.type = none) : Shapes m (.text m.name)
  | payload (typed : m.type ≠ none) (v : Value) : Shapes m (.map [(.text m.name, v)])

/-- Whether a value is an instance of some variant of a version as its type asks for it. -/
def Definition.Shapes (d : Definition) (v : Value) : Prop :=
  ∃ m ∈ d.members, m.Shapes v

namespace Definition

variable {d : Definition} (distinct : d.names.Nodup) {n : Member} (listed : n ∈ d.members)
include distinct listed

theorem shapes_text_iff : d.Shapes (.text n.name) ↔ n.type = none := by
  constructor
  · rintro ⟨m, among, shape⟩
    generalize named : Value.text n.name = v at shape
    cases shape with
    | unit untyped =>
      rwa [List.inj_on_of_nodup_map distinct listed among (Value.text.inj named)]
    | payload => cases named
  · exact fun untyped => ⟨n, listed, .unit untyped⟩

theorem shapes_map_iff (payload : Value) : d.Shapes (.map [(.text n.name, payload)]) ↔ n.type ≠ none := by
  constructor
  · rintro ⟨m, among, shape⟩
    generalize named : Value.map [(.text n.name, payload)] = v at shape
    cases shape with
    | unit => cases named
    | payload typed =>
      simp only [Value.map.injEq, List.cons.injEq, Prod.mk.injEq, Value.text.injEq] at named
      rwa [List.inj_on_of_nodup_map distinct listed among named.1.1]
  · exact fun typed => ⟨n, listed, .payload typed payload⟩

end Definition

namespace Conversion

variable {depths : Depths} {functions : Functions} {nesting : Nesting} {edge : Edge} {path : String}
  {step : VariantStep}

theorem variantStep_fallback (falls : step.isFallback = true) (carried : Option Value) :
    variantStep depths functions nesting edge path carried step = pure (.text step.target) := by
  cases step with
  | keep => cases falls
  | fallback => cases carried <;> rfl

/-- A variant that is kept keeps a payload, whatever becomes of it. -/
theorem variantStep_keep (keeps : step.isFallback = false) {v w : Value} {p q : Progress}
    (run : variantStep depths functions nesting edge path (some v) step p = (.ok w, q)) :
    ∃ u, w = .map [(.text step.target, u)] := by
  cases step with
  | keep =>
    obtain ⟨u, r, _, last⟩ := Run.bind_eq_ok_iff.mp run
    cases last
    exact ⟨u, rfl⟩
  | fallback => cases keeps

end Conversion

namespace Runtime

/-- What an edge of an enum makes of a well-shaped instance: that of the same item with a payload
exactly if there was one, or the name alone of a variant to which the item falls back. So the shape is
right exactly if the variant has a type where the payload is kept and none where there is no payload. -/
theorem apply_shape {ι : Type} {c : Container} {g : Generation} {rt : Runtime ι} {room : Nat} {e : Edge}
    {first second : Definition} {m : Member} {v w : Value} {path : String} {p q : Progress}
    (run : Generation.ofContainer c = .ok g) (enum : c.kind = .enum) (listed : e ∈ g.edges)
    (atSource : g.definition e.source.name = .ok first) (atTarget : g.definition e.target.name = .ok second)
    (among : m ∈ first.members) (shaped : m.Shapes v)
    (applied : rt.apply room e v path p = (.ok w, q)) :
    ∃ n ∈ second.members, (∀ kept, second.memberOfItem? m.item = some kept → n = kept) ∧
      (w = .text n.name ∧ (m.type = none ∨ second.memberOfItem? m.item = none) ∧
          (second.Shapes w ↔ n.type = none) ∨
        (∃ u, w = .map [(.text n.name, u)]) ∧ m.type ≠ none ∧ second.memberOfItem? m.item ≠ none ∧
          (second.Shapes w ↔ n.type ≠ none)) := by
  have made := Generation.made_of_ofContainer run
  obtain ⟨r, atR, s, atS, joins⟩ := made.joins_of_mem listed
  rw [joins.source, made.definition_name atR] at atSource
  rw [joins.target, made.definition_name atS] at atTarget
  cases atSource
  cases atTarget
  obtain ⟨item, declared, own⟩ := List.mem_filterMap.mp among
  obtain ⟨steps, step, all, found, _, _, _, leads⟩ := made.find?_variant atR atS enum joins declared own
  rw [apply, applyBy] at applied
  have distinct := made.distinct s atS
  cases there : (c.definitionIn g.timeline s).memberOfItem? m.item with
  | some kept =>
    rw [there] at leads
    have member : kept ∈ (c.definitionIn g.timeline s).members := List.mem_of_find?_eq_some there
    refine ⟨kept, member, fun _ same => Option.some.inj same, ?_⟩
    cases shaped with
    | unit untyped =>
      rw [Conversion.applyEdge_of_variants all found rfl, Conversion.variantStep_unit] at applied
      cases applied
      rw [leads.2]
      exact Or.inl ⟨rfl, Or.inl untyped, Definition.shapes_text_iff distinct member⟩
    | payload typed v =>
      rw [Conversion.applyEdge_of_variants all found rfl] at applied
      obtain ⟨u, rfl⟩ := Conversion.variantStep_keep leads.1 applied
      rw [leads.2]
      exact Or.inr ⟨⟨u, rfl⟩, typed, Option.some_ne_none kept, Definition.shapes_map_iff distinct member u⟩
  | none =>
    rw [there] at leads
    obtain ⟨n, member, named⟩ := List.mem_map.mp leads.2
    have falls : w = .text n.name := by
      cases shaped with
      | unit | payload =>
        rw [Conversion.applyEdge_of_variants all found rfl,
          Conversion.variantStep_fallback leads.1] at applied
        cases applied
        rw [named]
    rw [falls]
    refine ⟨n, member, fun kept same => ?_, Or.inl ⟨rfl, Or.inr rfl, Definition.shapes_text_iff distinct member⟩⟩
    exact absurd same.symm (Option.some_ne_none kept)

/-- An enum of which a variant loses the type of its payload. -/
def shade : Container where
  name := "Shade"
  kind := .enum
  doc := none
  versions := ["v1", "v2"].map Declaration.named
  items := [⟨"Red", none, none, none, false, none, [], none⟩,
    ⟨"Custom", none, none, none, false, none, [⟨"v2", none, some "str", some "drop", none⟩], none⟩]
  options := ⟨true, false⟩
  resource := none

/-- A function that gives its argument back is registered. -/
def dropping : Functions :=
  Functions.standard.register "drop" (Library.exactly "drop" .ok)

/-- A shade is generated, and the payload of a variant is kept that has lost its type. -/
theorem exists_shade : ∃ g e first second m n u q, Generation.ofContainer shade = .ok g ∧ e ∈ g.edges ∧
    g.definition e.source.name = .ok first ∧ g.definition e.target.name = .ok second ∧
    m ∈ first.members ∧ m.Shapes (.map [(.text "Custom", .text "#fff")]) ∧
    (single g dropping).apply 0 e (.map [(.text "Custom", .text "#fff")]) "" (Progress.start none) =
      (.ok (.map [(.text n.name, u)]), q) ∧
    n ∈ second.members ∧ n.type = none := by
  have typed : (Generation.ofContainer shade).toOption.map (fun g =>
      ((g.definition "v1").toOption.map fun d => (d.member? "Custom").map (·.type.isSome),
        (g.definition "v2").toOption.map fun d => (d.member? "Custom").map (·.type.isSome))) =
      some (some (some true), some (some false)) := by decide +kernel
  have converted : (Generation.ofContainer shade).toOption.map (fun g => (g.edge? "v1" "v2").map fun e =>
      ((single g dropping).apply 0 e (.map [(.text "Custom", .text "#fff")]) ""
        (Progress.start none)).1.toOption.map fun w => (Conversion.variantOf? w).map fun variant =>
          (variant.1 == .text "Custom", variant.2.isSome)) = some (some (some (some (true, true)))) := by
    decide +kernel
  obtain ⟨g, run, converted⟩ := exists_of_toOption_map converted
  obtain ⟨e, found, converted⟩ := Option.map_eq_some_iff.mp converted
  rw [run] at typed
  simp only [Except.toOption, Option.map_some, Option.some.injEq, Prod.mk.injEq] at typed
  have connects := List.find?_some found
  simp only [Edge.connects, Bool.and_eq_true, beq_iff_eq] at connects
  obtain ⟨first, atSource, before⟩ := exists_of_toOption_map typed.1
  obtain ⟨second, atTarget, after⟩ := exists_of_toOption_map typed.2
  obtain ⟨m, atM, some⟩ := Option.map_eq_some_iff.mp before
  obtain ⟨n, atN, none⟩ := Option.map_eq_some_iff.mp after
  have namedM : m.name = "Custom" := by simpa using List.find?_some atM
  have namedN : n.name = "Custom" := by simpa using List.find?_some atN
  obtain ⟨w, applied, variant⟩ := exists_of_toOption_map converted
  obtain ⟨⟨name, carried⟩, own, facts⟩ := Option.map_eq_some_iff.mp variant
  obtain ⟨named, payload⟩ := Prod.mk.inj facts
  obtain ⟨u, rfl⟩ := Option.isSome_iff_exists.mp payload
  have named : name = .text n.name := namedN ▸ Value.beq_text.mp named
  rw [Conversion.eq_map_of_variantOf? own, named] at applied
  refine ⟨g, e, first, second, m, n, u, _, run, List.mem_of_find?_eq_some found, connects.1 ▸ atSource,
    connects.2 ▸ atTarget, List.mem_of_find?_eq_some atM, ?_, Prod.ext applied rfl,
    List.mem_of_find?_eq_some atN, by simpa using none⟩
  rw [← namedM]
  exact .payload (Option.isSome_iff_ne_none.mp some) _

/-- The variant keeps its payload, so its shape is right only if it has a type. -/
theorem apply_shape_shade :
    ∃ g e first second m n w q, Generation.ofContainer shade = .ok g ∧ e ∈ g.edges ∧
      g.definition e.source.name = .ok first ∧ g.definition e.target.name = .ok second ∧
      m ∈ first.members ∧ m.Shapes (.map [(.text "Custom", .text "#fff")]) ∧
      (single g dropping).apply 0 e (.map [(.text "Custom", .text "#fff")]) "" (Progress.start none) =
        (.ok w, q) ∧
      n ∈ second.members ∧ (∃ u, w = .map [(.text n.name, u)]) ∧ (second.Shapes w ↔ n.type ≠ none) := by
  obtain ⟨g, e, first, second, m, _, _, q, run, listed, atSource, atTarget, among, shaped, applied, _, _⟩ :=
    exists_shade
  obtain ⟨n, member, _, ⟨unit, _⟩ | ⟨kept, _, _, shapes⟩⟩ :=
    apply_shape run rfl listed atSource atTarget among shaped applied
  · cases unit
  · exact ⟨g, e, first, second, m, n, _, q, run, listed, atSource, atTarget, among, shaped, applied, member,
      kept, shapes⟩

/-- A variant that has lost its type is still converted to a name with a payload. -/
theorem shade_misshapen :
    ∃ g e first second w q, Generation.ofContainer shade = .ok g ∧ e ∈ g.edges ∧
      g.definition e.source.name = .ok first ∧ g.definition e.target.name = .ok second ∧
      first.Shapes (.map [(.text "Custom", .text "#fff")]) ∧
      (single g dropping).apply 0 e (.map [(.text "Custom", .text "#fff")]) "" (Progress.start none) =
        (.ok w, q) ∧ ¬ second.Shapes w := by
  obtain ⟨g, e, first, second, m, n, _, q, run, listed, atSource, atTarget, among, shaped, applied, member,
    untyped⟩ := exists_shade
  refine ⟨g, e, first, second, _, q, run, listed, atSource, atTarget, ⟨m, among, shaped⟩, applied, ?_⟩
  have made := Generation.made_of_ofContainer run
  obtain ⟨s, atS, _, rfl⟩ := made.definition_of_name atTarget
  rw [Definition.shapes_map_iff (made.distinct s atS) member]
  exact fun typed => typed untyped

end Runtime

end Lineage
