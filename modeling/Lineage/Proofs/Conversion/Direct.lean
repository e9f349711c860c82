import Lineage.Proofs.Conversion.Along

namespace Lineage

/-- Whether values of the items suit a start and a version: what the start lacks and the version has
is given by its addition. -/
def Container.Supplies (c : Container) (t : Timeline) (functions : Functions)
    (value : Item → Option Value) (start r : Release) : Prop :=
  ∀ item ∈ c.items, ∀ a, item.added = some a → (item.statusIn c.kind t start).member? = none →
    (item.statusIn c.kind t r).member? ≠ none →
      ∃ v, value item = some v ∧ a.Gives functions item.type v

namespace Generation.Made

variable {c : Container} {g : Generation} (made : Made c g) (struct : c.kind = .struct)
  (keeps : ∀ item ∈ c.items, item.KeepsType) (flat : ∀ item ∈ c.items, item.nested = false)
include made struct keeps flat

/-- One edge makes the instance of the next version out of whatever holds the values in a version. -/
theorem applyEdge_hop {functions : Functions} {value : Item → Option Value} {start r s : Release}
    (atR : r ∈ g.timeline.releases) (atS : s ∈ g.timeline.releases) (hop : Timeline.Hops start r s)
    {e : Edge} (found : g.edge? r.name s.name = some e) {fields : Entries Value Value}
    (holds : c.Holds g.timeline value r fields)
    (supplies : c.Supplies g.timeline functions value start s) (nesting : Nesting) (path : String)
    {p : Progress} (untracked : p.tracker = none) :
    ∃ q, Conversion.applyEdge .free functions nesting e (.map fields) path p =
      (.ok (.map (c.instanceIn g.timeline value s)), q) ∧ q.tracker = none := by
  rcases hop with ⟨above, next⟩ | next
  · refine made.applyEdge_up struct atR atS found keeps flat holds next (fun _ tracker => tracker = none)
      ?_ (fun _ _ _ _ _ same => same) untracked
    intro item rest suffix a added absent present
    obtain ⟨v, own, gives⟩ := supplies item (suffix.mem (List.mem_cons_self ..)) a added
      (Item.absent_of_le above absent) present
    exact ⟨v, own, fun p untracked => ⟨p, Conversion.newValue_untracked gives untracked _, untracked⟩⟩
  · obtain ⟨q, run, left⟩ := made.applyEdge_down struct atR atS found keeps flat holds (c.copies_free value) next p
    exact ⟨q, run, by rw [left, untracked, Option.map_none]⟩

/-- A path makes the instance of its last version. -/
theorem alongEdges_path {ι : Type} {rt : Runtime ι} {value : Item → Option Value} {start : Release}
    (convert : Runtime ι → Converter) (place : String)
    {rs : List Release} {r : Release} {edges : List Edge} {fields : Entries Value Value} {p : Progress}
    (inside : ∀ s ∈ r :: rs, s ∈ g.timeline.releases) (chain : (r :: rs).IsChain (Timeline.Hops start))
    (along : g.edgesAlong r.name rs = .ok edges) (holds : c.Holds g.timeline value r fields)
    (supplies : ∀ s ∈ rs, c.Supplies g.timeline rt.functions value start s) (untracked : p.tracker = none) :
    ∃ q, Runtime.alongEdges (rt.applyBy .free convert) edges (.map fields) place p =
      (.ok (.map (rs.getLast?.elim fields (c.instanceIn g.timeline value))), q) := by
  have supplied : (r :: rs).IsChain fun r s =>
      Timeline.Hops start r s ∧ c.Supplies g.timeline rt.functions value start s :=
    chain.imp_of_mem_tail_imp fun r s _ onPath hop => ⟨hop, supplies s onPath⟩
  have hop : g.Advances c .free rt.functions value place (fun r s =>
      Timeline.Hops start r s ∧ c.Supplies g.timeline rt.functions value start s)
      (fun _ tracker => tracker = none) := by
    intro r atR s atS ⟨hop, supplies⟩ e found fields holds nesting p untracked
    exact made.applyEdge_hop struct keeps flat atR atS hop found holds supplies nesting place untracked
  obtain ⟨q, run, _⟩ := made.alongEdges_run convert place (fun _ tracker => tracker = none) hop
    inside supplied along holds untracked
  exact ⟨q, run⟩

end Generation.Made

/-- The value of an item that a direct conversion of a map carries over: that under its name in the
version of the map, or if it has none there, what its addition gives. -/
def Item.carriedFrom (kind : Kind) (t : Timeline) (functions : Functions) (start : Release)
    (x : Entries Value Value) (item : Item) : Option Value :=
  match (item.statusIn kind t start).member? with
  | some m => Value.member? x m.1
  | none => item.added.bind (Addition.given? functions item.type)

/-- Whether an entry of a map comes of an item directly: the item is in both versions and the value
stands under its name in the first, or it is in the second only and the value is what its addition
gives. -/
def Item.Yields (functions : Functions) (first second : Definition) (x : Entries Value Value)
    (item : Item) (key v : Value) : Prop :=
  ∃ after, second.memberOfItem? item.name = some after ∧ key = .text after.name ∧
    match first.memberOfItem? item.name with
    | some before => Value.member? x before.name = some v
    | none => ∃ a, item.added = some a ∧ a.Gives functions after.type v

namespace Generation.Made

variable {c : Container} {g : Generation} (made : Made c g)
include made

/-- The instance of a version holds for each item what a direct conversion yields for it. -/
theorem mem_instanceIn_iff {functions : Functions} {start stop : Release} {x : Entries Value Value}
    (keeps : ∀ item ∈ c.items, item.KeepsType) {key v : Value} :
    (key, v) ∈ c.instanceIn g.timeline (Item.carriedFrom c.kind g.timeline functions start x) stop ↔
      ∃ item ∈ c.items, item.Yields functions (c.definitionIn g.timeline start)
        (c.definitionIn g.timeline stop) x key v := by
  rw [Container.instanceIn, List.mem_filterMap]
  refine exists_congr fun item => and_congr_right fun listed => ?_
  rw [Item.keyedIn_eq_some, Item.Yields, made.memberOfItem?_eq listed, made.memberOfItem?_eq listed]
  cases target : (item.statusIn c.kind g.timeline stop).member? with
  | none => simp [Member.ofStatus?, target]
  | some m =>
    have type : m.2 = item.type := Item.type_of_statusIn (keeps item listed) target
    have value : item.carriedFrom c.kind g.timeline functions start x = some v ↔
        match Member.ofStatus? item (item.statusIn c.kind g.timeline start) with
        | some before => Value.member? x before.name = some v
        | none => ∃ a, item.added = some a ∧ a.Gives functions m.2 v := by
      rw [Item.carriedFrom, Member.ofStatus?]
      cases source : (item.statusIn c.kind g.timeline start).member? with
      | some n => rfl
      | none => simp only [Option.map_none, Option.bind_eq_some_iff, Addition.given?_eq_some, type]
    rw [Member.ofStatus?, target]
    constructor
    · rintro ⟨_, _, same, own, entry⟩
      cases same
      cases entry
      exact ⟨_, rfl, rfl, value.mp own⟩
    · rintro ⟨after, same, rfl, own⟩
      cases same
      exact ⟨m, v, rfl, value.mpr own, rfl⟩

end Generation.Made

/-- Along any path an instance of a struct is converted as it would be directly, if no change alters a
type and no item is nested: what is in both versions keeps its value under its new name, what is new
gets what its addition gives, and nothing else is there. -/
theorem Runtime.convert_direct {ι : Type} {c : Container} {g : Generation} {rt : Runtime ι} {a b : String}
    {edges : List Edge} {first second : Definition} {p : Progress} (room : Nat)
    (run : Generation.ofContainer c = .ok g) (struct : c.kind = .struct)
    (keeps : ∀ item ∈ c.items, item.KeepsType) (flat : ∀ item ∈ c.items, item.nested = false)
    (own : rt.generation = g) (different : a ≠ b) (path : g.edgesBetween a b = .ok edges)
    (atA : g.definition a = .ok first) (atB : g.definition b = .ok second)
    (suppliers : ∀ item ∈ c.items, first.memberOfItem? item.name = none →
      second.memberOfItem? item.name ≠ none → ∀ addition, item.added = some addition →
        ∀ f, filled? addition.supplier = some f → ∃ v, rt.functions.call f [] = .ok v)
    (x : Entries Value Value) (place : String) (untracked : p.tracker = none) :
    ∃ out q, rt.convert room a b (.map x) place p = (.ok (.map out), q) ∧
      (out.map (·.1)).Nodup ∧
        ∀ key v, (key, v) ∈ out ↔ ∃ item ∈ c.items, item.Yields rt.functions first second x key v := by
  have made := Generation.made_of_ofContainer run
  obtain ⟨start, atStart, gotStart, rfl⟩ := made.definition_of_name atA
  obtain ⟨stop, atStop, gotStop, rfl⟩ := made.definition_of_name atB
  have startName := Timeline.name_of_find? (Timeline.get_eq_ok_iff.mp gotStart)
  have stopName := Timeline.name_of_find? (Timeline.get_eq_ok_iff.mp gotStop)
  have apart : start ≠ stop := by
    rintro rfl
    exact different (startName.symm.trans stopName)
  have along : g.edgesAlong start.name (g.timeline.pathBetween start stop) = .ok edges := by
    rw [Generation.edgesBetween, Timeline.path, gotStart, gotStop] at path
    rw [startName]
    exact path
  have holds : c.Holds g.timeline (Item.carriedFrom c.kind g.timeline rt.functions start x) start x := by
    intro item _ m present
    rw [Item.carriedFrom, present]
  -- What the start lacks and a version on the way has is there at the end too, so the path needs no
  -- suppliers but those of the direct conversion.
  have supplies : ∀ s ∈ g.timeline.pathBetween start stop,
      c.Supplies g.timeline rt.functions (Item.carriedFrom c.kind g.timeline rt.functions start x) start s := by
    intro s onPath item listed addition added absent present
    have atMost : s.rank ≤ stop.rank := by
      rcases made.sound.rank_of_mem_pathBetween onPath with below | below
      · exact below
      · exact absurd (Item.absent_of_le below absent) present
    have lacks : (c.definitionIn g.timeline start).memberOfItem? item.name = none := by
      rw [made.memberOfItem?_eq listed, Member.ofStatus?, absent, Option.map_none]
    have has : (c.definitionIn g.timeline stop).memberOfItem? item.name ≠ none := by
      rw [made.memberOfItem?_eq listed, Member.ofStatus?, ne_eq, Option.map_eq_none_iff]
      exact fun missing => present (Item.absent_of_le atMost missing)
    have given : ∃ v, addition.Gives rt.functions item.type v := by
      unfold Addition.Gives
      cases supplier : filled? addition.supplier with
      | some f => exact suppliers item listed lacks has addition added f supplier
      | none => exact ⟨_, rfl⟩
    obtain ⟨v, gives⟩ := given
    refine ⟨v, ?_, gives⟩
    rw [Item.carriedFrom, absent, added]
    exact Addition.given?_eq_some.mpr gives
  obtain ⟨q, reached⟩ := made.alongEdges_path struct keeps flat (inside .free room) place
    (List.forall_mem_cons.mpr ⟨atStart, fun s member => Timeline.mem_pathBetween member⟩)
    (made.sound.pathBetween_isChain atStart stop) along holds supplies untracked
  rw [made.sound.getLast?_pathBetween atStart atStop apart] at reached
  refine ⟨_, q, ?_, made.instanceIn_nodup atStop _, fun key v => made.mem_instanceIn_iff keeps⟩
  have got : Run.ofExcept (rt.generation.edgesBetween a b) p = (.ok edges, p) := by
    rw [Run.ofExcept_apply, own, path]
  rw [convert, convertOn, between, Run.bind_of_ok got]
  exact reached

/-- A struct in which two fields swap their names before another is added. -/
def Runtime.person : Container where
  name := "Person"
  kind := .struct
  doc := none
  versions := ["v1", "v2", "v3"].map Declaration.named
  items := [⟨"first", some "str", none, none, false, none, [⟨"v2", some "last", none, none, none⟩], none⟩,
    ⟨"last", some "str", none, none, false, none, [⟨"v2", some "first", none, none, none⟩], none⟩,
    ⟨"age", some "int", none, none, false, some ⟨"v3", some "builtins.int", none, none⟩, [], none⟩]
  options := ⟨true, false⟩
  resource := none

/-- The names of a person are swapped, and the age that is added is what its supplier gives. -/
theorem Runtime.convert_direct_person :
    ∃ g first second out q, Generation.ofContainer person = .ok g ∧ g.definition "v1" = .ok first ∧
      g.definition "v3" = .ok second ∧
      (single g .standard).convert 0 "v1" "v3" (.map [(.text "first", .text "Lovelace")]) ""
        (Progress.start none) = (.ok (.map out), q) ∧ (out.map (·.1)).Nodup ∧
      ∀ key v, (key, v) ∈ out ↔ ∃ item ∈ person.items,
        item.Yields .standard first second [(.text "first", .text "Lovelace")] key v := by
  have versions : (Generation.ofContainer person).toOption.map (fun g =>
      ((g.definition "v1").isOk, (g.definition "v3").isOk, (g.edgesBetween "v1" "v3").isOk)) =
      some (true, true, true) := by decide +kernel
  obtain ⟨g, run⟩ := exists_of_isOk (show (Generation.ofContainer person).isOk = true by decide +kernel)
  rw [run] at versions
  simp only [Except.toOption, Option.map_some, Option.some.injEq, Prod.mk.injEq] at versions
  obtain ⟨first, atA⟩ := exists_of_isOk versions.1
  obtain ⟨second, atB⟩ := exists_of_isOk versions.2.1
  obtain ⟨edges, path⟩ := exists_of_isOk versions.2.2
  have suppliers : ∀ item ∈ person.items, ∀ addition, item.added = some addition →
      ∀ f, filled? addition.supplier = some f → ∃ v, Functions.standard.call f [] = .ok v := by
    intro item listed addition added f supplier
    have named : f = "builtins.int" := by
      simp only [person, List.mem_cons, List.not_mem_nil, or_false] at listed
      rcases listed with rfl | rfl | rfl
      · cases added
      · cases added
      · cases added
        exact (Option.some.inj supplier).symm
    rw [named]
    exact exists_of_isOk (by decide +kernel)
  obtain ⟨out, q, converted⟩ := @convert_direct _ person g (single g .standard) "v1" "v3" edges first second
    (Progress.start none) 0 run rfl (by simp [person, Item.KeepsType]) (by simp [person]) rfl (by decide)
    path atA atB (fun item listed _ _ => suppliers item listed) [(.text "first", .text "Lovelace")] "" rfl
  exact ⟨g, first, second, out, q, run, atA, atB, converted⟩

end Lineage
