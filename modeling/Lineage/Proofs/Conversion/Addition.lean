import Lineage.Proofs.Conversion.Nested
import Lineage.Proofs.Definition.Schema
import Lineage.Proofs.TypeName.Default

namespace Lineage

/-- The default of a type conforms to the schema of a member with the type, or it is null because nothing is
known of the type, unless the member is a list or its type is misnamed. -/
theorem Member.accepts_defaultValue {m : Member} {s : Schema} {d : Document}
    (read : TypeName.schema m.type = .ok s) (written : m.document = .ok d) (single : m.hint ≠ some .list)
    (named : ¬ TypeName.Misnamed m.type s) : d.Accepts (TypeName.defaultValue m.type) ∨
      m.hint = none ∧ TypeName.NoDefault s ∧ TypeName.defaultValue m.type = .null := by
  have suits : s.accepts (TypeName.defaultValue m.type) = true ∨
      TypeName.NoDefault s ∧ TypeName.defaultValue m.type = .null := by
    rcases TypeName.suits_schema read with accepts | unknown | misnamed
    · exact .inl accepts
    · exact .inr unknown
    · exact absurd misnamed named
  cases hint : m.hint with
  | none =>
    have plain : m.schema = .ok s := by
      rw [schema, read, hint]
      rfl
    rw [document_accepts_iff plain written]
    exact suits.imp_right fun unknown => ⟨rfl, unknown⟩
  | some hinted =>
    cases hinted with
    | list => exact absurd hint single
    | option =>
      have nullable : m.schema = .ok (.nullable s) := by
        rw [schema, read, hint]
        rfl
      rw [document_accepts_iff nullable written, Schema.accepts_nullable_iff]
      exact .inl (suits.symm.imp_left And.right)

namespace Generation.Made

variable {c : Container} {g : Generation} (made : Made c g) {item : Item} (listed : item ∈ c.items) {a : Addition}
  (added : item.added = some a)
include made listed added

/-- The definition of the version in which an item was added has a member for it, and on the way there its
step is a default. -/
theorem along?_addition {r s : Release} (atS : s ∈ g.timeline.releases) (here : a.since = s.name) :
    ∃ m, (c.definitionIn g.timeline s).memberOfItem? item.name = some m ∧
      FieldStep.along? c g.timeline .upgrade r s item =
        some (.default item.name m.name m.type a.supplier a.default) := by
  have status := @Item.statusIn_of_addition c.kind _ _ _ made.sound (made.legal item listed) atS a added here
  refine ⟨_, by rw [made.memberOfItem?_eq listed, status]; rfl, ?_⟩
  rw [FieldStep.along?, status]
  rfl

end Generation.Made

/-- What a field gets that is new in the next version and has neither a supplier nor a default value. It has a
step of its own along the edge, which gives its member in that version the default of the type of the member, and
this conforms to the schema of the member, or it is null because nothing is known of the type. -/
theorem Runtime.convert_adds {ι : Type} {c : Container} {g : Generation} {rt : Runtime ι}
    {item : Item} {a : Addition} {e : Edge} (run : Generation.ofContainer c = .ok g) (struct : c.kind = .struct)
    (own : rt.generation = g) (listed : item ∈ c.items) (added : item.added = some a)
    (unsupplied : filled? a.supplier = none) (untold : a.default = none) (among : e ∈ g.edges)
    (up : e.direction = .upgrade) (reaches : e.target.name = a.since) :
    ∃ d m steps dropped, g.definition a.since = .ok d ∧ d.memberOfItem? item.name = some m ∧
      e.steps = .fields steps dropped ∧ .default item.name m.name m.type a.supplier a.default ∈ steps ∧
      (∀ functions place (p : Progress), p.tracker = none →
        Conversion.newValue .free functions m.type a.supplier a.default place p =
          (.ok (TypeName.defaultValue m.type), p)) ∧
      (∀ room v w place (p q : Progress), p.tracker = none →
        rt.convert room e.source.name e.target.name v place p = (.ok w, q) →
          ∃ out, w = .map out ∧ Value.member? out m.name = some (TypeName.defaultValue m.type)) ∧
      (∀ s document, TypeName.schema m.type = .ok s → m.document = .ok document → m.hint ≠ some .list →
        ¬ TypeName.Misnamed m.type s → document.Accepts (TypeName.defaultValue m.type) ∨
          m.hint = none ∧ TypeName.NoDefault s ∧ TypeName.defaultValue m.type = .null) := by
  have made := Generation.made_of_ofContainer run
  obtain ⟨r, atR, s, atS, joins⟩ := made.joins_of_mem among
  have steps := joins.fields struct
  have hop := joins.step
  rw [up] at steps hop
  rw [joins.target] at reaches ⊢
  rw [joins.source]
  obtain ⟨m, member, along⟩ := made.along?_addition listed added atS reaches.symm
  have gives (functions : Functions) : a.Gives functions m.type (TypeName.defaultValue m.type) := by
    rw [Addition.Gives, unsupplied, untold]
    rfl
  refine ⟨_, m, _, _, reaches ▸ made.definition_name atS, member, steps,
    List.mem_filterMap.mpr ⟨item, listed, along⟩,
    fun functions place p untracked => Conversion.newValue_untracked (gives functions) untracked place, ?_,
    fun s document read written => Member.accepts_defaultValue read written⟩
  intro room v w place p q untracked converted
  obtain ⟨_, _, y, _, _, _, _, _, _, rfl, off, here, holds⟩ :=
    made.convert_item_step struct listed own atR atS hop along converted
  refine ⟨y, rfl, holds.trans ?_⟩
  rw [Conversion.fieldStep, Run.bind_of_ok (Conversion.newValue_untracked (gives _) (off untracked) _)] at here
  cases here
  exact Entries.get?_put_text

/-- A struct that gets a list of texts and a record of its own in its second version. -/
def Runtime.card : Container where
  name := "Card"
  kind := .struct
  doc := none
  versions := ["v1", "v2"].map Declaration.named
  items := [⟨"tags", some "List[str]", none, none, false, some ⟨"v2", none, none, none⟩, [], none⟩,
    ⟨"home", some "Address", none, none, false, some ⟨"v2", none, none, none⟩, [], none⟩]
  options := ⟨true, false⟩
  resource := none

/-- A card is generated, with a list of tags and a home of an unknown type that are added. -/
theorem Runtime.exists_card : ∃ g e d, Generation.ofContainer card = .ok g ∧ e ∈ g.edges ∧
    e.direction = .upgrade ∧ e.target.name = "v2" ∧ g.definition "v2" = .ok d ∧
    ((d.memberOfItem? "tags").map fun m => (m.type, m.hint)) = some (some "List[str]", none) ∧
    ((d.memberOfItem? "home").map fun m => (m.type, m.hint)) = some (some "Address", none) ∧
    TypeName.schema (some "List[str]") = .ok (.array (.scalar .string)) ∧
    TypeName.schema (some "Address") = .ok .record := by
  have edge : (Generation.ofContainer card).toOption.map (fun g =>
      (g.edge? "v1" "v2").map fun e => (e.direction, e.target.name)) = some (some (.upgrade, "v2")) := by
    decide +kernel
  have members : (Generation.ofContainer card).toOption.map (fun g => (g.definition "v2").toOption.map fun d =>
      ["tags", "home"].map fun name => (d.memberOfItem? name).map fun m => (m.type, m.hint)) =
      some (some [some (some "List[str]", none), some (some "Address", none)]) := by decide +kernel
  have schemas : ((TypeName.schema (some "List[str]")).toOption, (TypeName.schema (some "Address")).toOption) =
      (some (.array (.scalar .string)), some .record) := by decide +kernel
  obtain ⟨g, run, edge⟩ := exists_of_toOption_map edge
  rw [run] at members
  obtain ⟨d, defined, members⟩ := exists_of_toOption_map (Option.some.inj members)
  obtain ⟨e, found, leads⟩ := Option.map_eq_some_iff.mp edge
  simp only [List.map_cons, List.map_nil, List.cons.injEq, and_true] at members
  simp only [Prod.mk.injEq] at leads schemas
  exact ⟨g, e, d, run, List.mem_of_find?_eq_some found, leads.1, leads.2, defined, members.1, members.2,
    ok_of_toOption schemas.1, ok_of_toOption schemas.2⟩

/-- A card gets an empty list of tags, which its schema accepts. -/
theorem Runtime.convert_adds_tags : ∃ g e d m document, Generation.ofContainer card = .ok g ∧ e ∈ g.edges ∧
    g.definition "v2" = .ok d ∧ d.memberOfItem? "tags" = some m ∧ m.document = .ok document ∧
    (∀ w q, (single g .standard).convert 0 e.source.name e.target.name (.map []) "" (.start none) = (.ok w, q) →
      ∃ out, w = .map out ∧ Value.member? out m.name = some (.list [])) ∧ document.Accepts (.list []) := by
  obtain ⟨g, e, d, run, among, up, reaches, defined, tags, _, list, _⟩ := exists_card
  obtain ⟨d', m, _, _, defined', member, _, _, _, converted, fits⟩ := @convert_adds _ card g (single g .standard)
    ⟨"tags", some "List[str]", none, none, false, some ⟨"v2", none, none, none⟩, [], none⟩ ⟨"v2", none, none, none⟩
    e run rfl rfl (List.mem_cons_self ..) rfl rfl rfl among up reaches
  cases defined.symm.trans defined'
  simp only [member, Option.map_some, Option.some.injEq, Prod.mk.injEq] at tags
  obtain ⟨typed, plain⟩ := tags
  have read : TypeName.schema m.type = .ok (.array (.scalar .string)) := typed ▸ list
  have whole : m.schema = .ok (.array (.scalar .string)) := by
    rw [Member.schema, read, plain]
    rfl
  obtain ⟨document, written⟩ := Member.exists_document whole
  have empty : TypeName.defaultValue m.type = .list [] := by
    rw [typed]
    rfl
  have conforms := fits _ document read written (by simp [plain]) fun misnamed => Schema.noConfusion misnamed.1
  rw [empty] at converted conforms
  exact ⟨g, e, d, m, document, run, among, defined, member, written,
    fun w q => converted 0 (.map []) w "" (.start none) q rfl,
    conforms.resolve_right fun unknown => Value.noConfusion unknown.2.2⟩

/-- A new record gets null, which its schema does not allow. -/
theorem Runtime.home_lacks_record : ∃ g e d m document, Generation.ofContainer card = .ok g ∧ e ∈ g.edges ∧
    e.direction = .upgrade ∧ e.target.name = "v2" ∧ g.definition "v2" = .ok d ∧
    d.memberOfItem? "home" = some m ∧ m.document = .ok document ∧
    (∃ steps dropped, e.steps = .fields steps dropped ∧ .default "home" m.name m.type none none ∈ steps) ∧
    (∀ functions place (p : Progress), p.tracker = none →
      Conversion.newValue .free functions m.type none none place p = (.ok .null, p)) ∧ ¬ document.Accepts .null := by
  obtain ⟨g, e, d, run, among, up, reaches, defined, _, home, _, record⟩ := exists_card
  have made := Generation.made_of_ofContainer run
  obtain ⟨r, atR, s, atS, joins⟩ := made.joins_of_mem among
  have steps := joins.fields rfl
  rw [up] at steps
  have listed : (⟨"home", some "Address", none, none, false, some ⟨"v2", none, none, none⟩, [], none⟩ : Item) ∈
      card.items := List.mem_cons_of_mem _ (List.mem_cons_self ..)
  rw [joins.target] at reaches
  obtain ⟨m, member, along⟩ := @Generation.Made.along?_addition _ _ made _ listed ⟨"v2", none, none, none⟩ rfl r s
    atS reaches.symm
  cases defined.symm.trans (reaches ▸ made.definition_name atS)
  have same : (Container.definitionIn card g.timeline s).memberOfItem? "home" = some m := member
  simp only [same, Option.map_some, Option.some.injEq, Prod.mk.injEq] at home
  obtain ⟨typed, plain⟩ := home
  have read : m.schema = .ok .record := by
    rw [Member.schema, typed, plain, record]
    rfl
  obtain ⟨document, written⟩ := Member.exists_document read
  refine ⟨g, e, _, m, document, run, among, up, by rw [joins.target, reaches], defined, member, written,
    ⟨_, _, steps, List.mem_filterMap.mpr ⟨_, listed, along⟩⟩, fun functions place p untracked => ?_, ?_⟩
  · have gives : Addition.Gives functions m.type ⟨"v2", none, none, none⟩ .null := by
      rw [typed]
      rfl
    exact Conversion.newValue_untracked gives untracked place
  · rw [Member.document_accepts_iff read written]
    exact Bool.false_ne_true

end Lineage
