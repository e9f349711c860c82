import Lineage.Proofs.Conversion.Instances

namespace Lineage

namespace Runtime

variable {ι : Type} {versions : List String} {a : String} {level room : Nat} {rt : Runtime ι} {item : Item}

section Step

variable (tidy : rt.Tidy versions) {start r s : Release}
  (atStart : start ∈ rt.generation.timeline.releases) (atR : r ∈ rt.generation.timeline.releases)
  (atS : s ∈ rt.generation.timeline.releases) (after : start.rank ≤ r.rank) (next : s.rank = r.rank + 1)
  {fields : Entries Value Value}
  (fits : rt.Fits versions start.name s.name
    (rt.container.definitionIn rt.generation.timeline s) fields)
include tidy atR atS next

/-- The value of an item is dropped where the item is added. -/
theorem dropsOf_added (listed : item ∈ rt.container.items)
    (earlier : (item.statusIn rt.container.kind rt.generation.timeline r).member? = none)
    {n : String × Option String}
    (later : (item.statusIn rt.container.kind rt.generation.timeline s).member? = some n) (v : Value) :
    rt.DropsOf versions r.name s.name item [("", v)] := by
  have made := Generation.made_of_ofContainer tidy.run
  obtain ⟨addition, status⟩ := (made.follows atR atS next listed).exists_added earlier later
  obtain ⟨own, here⟩ := Item.additionIn_eq_some.mp (Item.additionIn_of_statusIn status)
  refine ⟨List.nodup_singleton _, fun path member => ?_⟩
  cases List.mem_singleton.mp member
  refine ⟨Or.inl rfl, s.name, ?_, ?_, le_rfl⟩
  · rw [String.append_empty, ← here]
    exact .here tidy listed own
  · rw [← tidy.rank_eq atR, ← tidy.rank_eq atS]
    omega

/-- What an edge does to the value of an item, and what it drops of it. -/
theorem exists_lowers (listed : item ∈ rt.container.items)
    (filled : (item.statusIn rt.container.kind rt.generation.timeline r).member? = none →
      (item.statusIn rt.container.kind rt.generation.timeline s).member? ≠ none →
      item.valueIn rt.container.kind rt.generation.timeline fields s ≠ none)
    (inside : item.nested = true → ∀ v,
      item.valueIn rt.container.kind rt.generation.timeline fields s = some v →
      ∀ type N, item.type = some type → rt.nested? (TypeName.base type) = some N →
        N.Restorable versions a r.name s.name level room item.hint v) (down up : Edge) :
    ∃ lowered inner own, Conversion.Lowers
        (Conversion.hintedValue .free rt.functions (rt.inner .free room s.name r.name) down item.type item.type
          item.hint)
        (Conversion.hintedValue .free rt.functions (rt.inner .free room r.name s.name) up item.type item.type
          item.hint) item
        (item.statusIn rt.container.kind rt.generation.timeline r)
        (item.statusIn rt.container.kind rt.generation.timeline s)
        (item.valueIn rt.container.kind rt.generation.timeline fields s) lowered inner own ∧
      rt.DropsOf versions r.name s.name item (inner ++ own) ∧
      ∀ w, lowered = some w → item.nested = true → ∀ type N, item.type = some type →
        rt.nested? (TypeName.base type) = some N → N.Instance versions a r.name level item.hint w := by
  have nothing : rt.DropsOf versions r.name s.name item [] :=
    ⟨List.nodup_nil, by simp [Drops.paths]⟩
  cases later : (item.statusIn rt.container.kind rt.generation.timeline s).member? with
  | none =>
    have earlier := Item.absent_of_le (by omega : r.rank ≤ s.rank) later
    have value : item.valueIn rt.container.kind rt.generation.timeline fields s = none := by
      rw [Item.valueIn, later, Option.bind_none]
    rw [value]
    exact ⟨none, [], [], .absent earlier later, nothing, fun _ made => by cases made⟩
  | some n =>
    cases earlier : (item.statusIn rt.container.kind rt.generation.timeline r).member? with
    | none =>
      obtain ⟨v, value⟩ := Option.ne_none_iff_exists'.mp (filled earlier (by simp [later]))
      rw [value]
      exact ⟨none, [], [("", v)], .dropped earlier later v,
        dropsOf_added tidy atR atS next listed earlier later v, fun _ made => by cases made⟩
    | some m =>
      cases value : item.valueIn rt.container.kind rt.generation.timeline fields s with
      | none => exact ⟨none, [], [], .missing earlier later, nothing, fun _ made => by cases made⟩
      | some v =>
        cases nested : item.nested with
        | false =>
          exact ⟨some v, [], [], .copied earlier later nested v, nothing, fun _ _ holds => by cases holds⟩
        | true =>
          obtain ⟨type, N, typed, registered, unregistered⟩ := tidy.registered item listed nested
          obtain ⟨w, drops, restores, dropped, within⟩ := inside nested v value type N typed registered
          have base : item.type.map TypeName.base = some (TypeName.base type) := by rw [typed, Option.map_some]
          refine ⟨some w, drops, [], .nested earlier later nested ?_, ?_, ?_⟩
          · rw [hintedValue_eq_convertHeld base unregistered registered,
              hintedValue_eq_convertHeld base unregistered registered]
            exact restores
          · rw [List.append_nil]
            exact dropped.dropsOf tidy listed nested typed registered
          · intro _ made _ type' N' typed' registered'
            cases made
            cases typed.symm.trans typed'
            cases registered.symm.trans registered'
            exact within

include atStart after

omit atS after next in
/-- The values of items under their names make up an instance if none is missing that was added. -/
theorem fits_instanceIn {value : Item → Option Value} (filled : ∀ item ∈ rt.container.items,
      (item.statusIn rt.container.kind rt.generation.timeline start).member? = none →
      (item.statusIn rt.container.kind rt.generation.timeline r).member? ≠ none → value item ≠ none) :
    rt.Fits versions start.name r.name (rt.container.definitionIn rt.generation.timeline r)
      (rt.container.instanceIn rt.generation.timeline value r) := by
  have made := Generation.made_of_ofContainer tidy.run
  refine ⟨tidy, made.definition_name atR, made.instanceIn_nodup atR value, fun e entry => ?_, ?_⟩
  · obtain ⟨item, listed, keyed⟩ := List.mem_filterMap.mp entry
    obtain ⟨m, v, present, _, rfl⟩ := Item.keyedIn_eq_some.mp keyed
    exact ⟨m.1, Container.mem_names_definitionIn.mpr ⟨item, listed, m, present, rfl⟩, rfl⟩
  · intro first atFirst member among missing
    obtain ⟨item, listed, own⟩ := List.mem_filterMap.mp among
    obtain ⟨m, present, rfl⟩ := Option.map_eq_some_iff.mp own
    cases (made.definition_name atStart).symm.trans atFirst
    rw [made.memberOfItem?_eq listed] at missing
    rw [made.holds_instanceIn atR value item listed m present]
    exact filled item listed (Option.map_eq_none_iff.mp missing) (by simp [present])

include fits

omit atR atS after next in
theorem Fits.valueIn_ne_none (listed : item ∈ rt.container.items)
    (absent : (item.statusIn rt.container.kind rt.generation.timeline start).member? = none)
    (present : (item.statusIn rt.container.kind rt.generation.timeline s).member? ≠ none) :
    item.valueIn rt.container.kind rt.generation.timeline fields s ≠ none := by
  have made := Generation.made_of_ofContainer tidy.run
  obtain ⟨n, later⟩ := Option.ne_none_iff_exists'.mp present
  have member : Member.ofStatus? item (item.statusIn rt.container.kind rt.generation.timeline s) = some _ :=
    congrArg (Option.map _) later
  rw [Item.valueIn, later, Option.bind_some]
  refine fits.filled _ (made.definition_name atStart) _ (List.mem_filterMap.mpr ⟨item, listed, member⟩) ?_
  exact (made.memberOfItem?_eq listed start).trans (congrArg (Option.map _) absent)

/-- Between two versions that follow each other an instance is restored if the values of its nested items
are. -/
theorem restores_step (inside : ∀ item ∈ rt.container.items, item.nested = true → ∀ v,
      item.valueIn rt.container.kind rt.generation.timeline fields s = some v →
      ∀ type N, item.type = some type → rt.nested? (TypeName.base type) = some N →
        N.Restorable versions start.name r.name s.name level room item.hint v) :
    ∃ y drops, Conversion.Restores (rt.convert room s.name r.name) (rt.convert room r.name s.name)
        (.map fields) (.map y) drops ∧ rt.DropsBetween versions none r.name s.name drops ∧
      ∀ hint, rt.Instance versions start.name r.name (level + 1) hint (.map y) := by
  have made := Generation.made_of_ofContainer tidy.run
  have descends : Direction.downgrade.Steps s r := next
  have climbs : Direction.upgrade.Steps r s := next
  obtain ⟨_, alongDown⟩ := tidy.edges s.name (tidy.declared atS) r.name (tidy.declared atR)
  obtain ⟨down, foundDown, _⟩ := (made.edgesBetween_step_eq_ok_iff atS atR descends).mp alongDown
  obtain ⟨_, alongUp⟩ := tidy.edges r.name (tidy.declared atR) s.name (tidy.declared atS)
  obtain ⟨up, foundUp, _⟩ := (made.edgesBetween_step_eq_ok_iff atR atS climbs).mp alongUp
  have each := fun item (listed : item ∈ rt.container.items) => exists_lowers tidy atR atS next listed
    (fun absent => Fits.valueIn_ne_none tidy atStart fits listed (Item.absent_of_le after absent))
    (inside item listed) down up
  choose! lowered inner own lowers dropped within using each
  have drops := DropsBetween.ofItems tidy dropped
  have restores := made.restores_hop tidy.struct tidy.keeps atR atS next lowers fits.distinct fits.keys
    foundDown foundUp rfl drops.distinct
  refine ⟨_, _, restores.imp ?_ ?_, drops.perm (Drops.ofItems_perm ..).symm, fun hint =>
    .map (fits_instanceIn tidy atStart atR fun item listed absent present => ?_) ?_⟩
  · intro place p q run
    rw [made.convert_step atS atR descends rfl foundDown]
    exact run
  · intro w' alike v' _ place p q run
    rw [made.convert_step atR atS climbs rfl foundUp]
    exact run
  · have still : (item.statusIn rt.container.kind rt.generation.timeline s).member? ≠ none := fun gone =>
      present (Item.absent_of_le (by omega : r.rank ≤ s.rank) gone)
    have held := Fits.valueIn_ne_none tidy atStart fits listed absent still
    exact (lowers item listed).made_ne_none present held
  · intro item listed nested m v atMember held type N typed registered
    rw [made.memberOfItem?_eq listed] at atMember
    obtain ⟨n, present, rfl⟩ := Option.map_eq_some_iff.mp atMember
    rw [made.holds_instanceIn atR lowered item listed n present] at held
    exact within item listed v held nested type N typed registered

end Step

/-- A map is restored over one edge if the values of its nested items are. -/
theorem Fits.restores_step {older newer : String} {second : Definition} {fields : Entries Value Value}
    (fits : rt.Fits versions a newer second fields) (atA : a ∈ versions) (atOlder : older ∈ versions)
    (below : versions.idxOf a ≤ versions.idxOf older) (next : versions.idxOf newer = versions.idxOf older + 1)
    (inside : ∀ item ∈ rt.container.items, item.nested = true → ∀ m v,
      second.memberOfItem? item.name = some m → Value.member? fields m.name = some v →
      ∀ type N, item.type = some type → rt.nested? (TypeName.base type) = some N →
        N.Restorable versions a older newer level room item.hint v) :
    ∃ y drops, Conversion.Restores (rt.convert room newer older) (rt.convert room older newer)
        (.map fields) (.map y) drops ∧ rt.DropsBetween versions none older newer drops ∧
      ∀ hint, rt.Instance versions a older (level + 1) hint (.map y) := by
  have made := Generation.made_of_ofContainer fits.tidy.run
  obtain ⟨s, atS, got, rfl⟩ := made.definition_of_name fits.current
  have named := Timeline.name_of_find? (Timeline.get_eq_ok_iff.mp got)
  obtain ⟨r, atR, rfl⟩ := fits.tidy.exists_release atOlder
  obtain ⟨start, atStart, rfl⟩ := fits.tidy.exists_release atA
  subst named
  rw [← fits.tidy.rank_eq atStart, ← fits.tidy.rank_eq atR] at below
  rw [← fits.tidy.rank_eq atS, ← fits.tidy.rank_eq atR] at next
  refine Runtime.restores_step fits.tidy atStart atR atS below next fits ?_
  intro item listed nested v value type N typed registered
  obtain ⟨m, present, held⟩ := Option.bind_eq_some_iff.mp value
  have member : (rt.container.definitionIn rt.generation.timeline s).memberOfItem? item.name = some _ :=
    (made.memberOfItem?_eq listed s).trans (congrArg (Option.map _) present)
  exact inside item listed nested _ v member held type N typed registered

section Held

variable {hint : Option Hint} {x y : String}

theorem convertHeld_null (place : String) : rt.convertHeld room hint x y .null place = pure .null := by
  cases hint with
  | none => rfl
  | some h => cases h <;> rfl

theorem convertHeld_map (fields : Entries Value Value) (place : String) :
    rt.convertHeld (room + 1) hint x y (.map fields) place = rt.convert room x y (.map fields) place := by
  cases hint with
  | none => rfl
  | some h => cases h <;> rfl

/-- A list is restored if its items are. -/
theorem restores_list {items : List Value} {made : List (Value × Drops)} (each : List.Forall₂ (fun v m =>
      Conversion.Restores (rt.convertInside room x y) (rt.convertInside room y x) v m.1 m.2)
      items made) (distinct : (Drops.indexed 0 (made.map (·.2))).paths.Nodup) :
    Conversion.Restores (rt.convertHeld room (some .list) x y) (rt.convertHeld room (some .list) y x)
      (.list items) (.list (made.map (·.1))) (Drops.indexed 0 (made.map (·.2))) := by
  refine ⟨fun place p t tracked => ?_, fun w' alike => ?_⟩
  · obtain ⟨q, run, left⟩ := Conversion.Restores.nestedItems_down each place p t tracked
    exact ⟨q, Run.bind_of_ok run, left⟩
  · obtain ⟨ws, rfl, alikes⟩ := alike.of_list
    obtain ⟨vs, close, back⟩ := Conversion.Restores.nestedItems_up each distinct alikes
    refine ⟨.list vs, .list_of_forall₂ close, fun place p t tracked single inside => ?_⟩
    obtain ⟨q, u, run, left, frees⟩ := back place p t tracked single inside
    exact ⟨q, u, Run.bind_of_ok run, left, frees⟩

end Held

/-- Between two versions that follow each other an instance is restored at every depth of nesting. -/
theorem Instance.restorable {older newer : String} {hint : Option Hint} {v : Value}
    (holds : rt.Instance versions a newer level hint v) (enough : level ≤ room) (atA : a ∈ versions)
    (atOlder : older ∈ versions) (below : versions.idxOf a ≤ versions.idxOf older)
    (next : versions.idxOf newer = versions.idxOf older + 1) :
    rt.Restorable versions a older newer level room hint v := by
  induction holds generalizing room with
  | null =>
    refine ⟨.null, [], .nothing (fun _ => convertHeld_null _) (fun v' alike place => ?_), .nothing, .null⟩
    rw [alike.eq_null, convertHeld_null]
  | @list level rt items each ih =>
    have each := fun v listed => @ih v listed room enough
    choose! w drops restores dropped within using each
    have made : List.Forall₂ (fun v m => Conversion.Restores (rt.convertInside room newer older)
        (rt.convertInside room older newer) v m.1 m.2) items (items.map fun v => (w v, drops v)) :=
      List.forall₂_map_right_iff.mpr (List.forall₂_same.mpr restores)
    have apart : rt.DropsBetween versions (some .list) older newer
        (Drops.indexed 0 ((items.map fun v => (w v, drops v)).map (·.2))) := by
      refine .indexed (fun d among => ?_) 0
      rw [List.map_map] at among
      obtain ⟨v, listed, rfl⟩ := List.mem_map.mp among
      exact dropped v listed
    refine ⟨_, _, restores_list made apart.distinct, apart, .list fun u among => ?_⟩
    rw [List.map_map] at among
    obtain ⟨v, listed, rfl⟩ := List.mem_map.mp among
    exact within v listed
  | @map level rt hint second fields fits inside ih =>
    obtain ⟨room, rfl⟩ := Nat.exists_eq_succ_of_ne_zero (by omega : room ≠ 0)
    have inner := Nat.le_of_succ_le_succ enough
    obtain ⟨y, drops, restores, dropped, within⟩ := fits.restores_step atA atOlder below next
      fun item listed nested m v member held type N typed registered =>
        ih item listed nested m v member held type N typed registered inner
    refine ⟨.map y, drops, restores.imp ?_ ?_, dropped.of_none hint, within hint⟩
    · intro place p q run
      rw [convertHeld_map]
      exact run
    · intro w' alike v' _ place p q run
      obtain ⟨z, rfl, _⟩ := alike.of_map
      rw [convertHeld_map]
      exact run

/-- Along a whole path down and up again an instance is restored, and what is made of it on the way is an
instance of the version where the path ends. -/
theorem Instance.restores_path (enough : level ≤ room + 1) (tidy : rt.Tidy versions) {stop : Release}
    (atStop : stop ∈ rt.generation.timeline.releases) :
    ∀ r ∈ rt.generation.timeline.releases, stop.rank ≤ r.rank → ∀ fields,
      rt.Instance versions stop.name r.name level none (.map fields) →
      ∃ y drops, Conversion.Restores (rt.convert room r.name stop.name)
          (rt.convert room stop.name r.name) (.map fields) (.map y) drops ∧
        rt.DropsBetween versions none stop.name r.name drops ∧
        rt.Instance versions stop.name stop.name level none (.map y) := by
  have made := Generation.made_of_ofContainer tidy.run
  refine made.sound.toward_induction atStop ?_ ?_
  · intro _ fields holds
    have idle := made.convert_self atStop rfl room
    exact ⟨fields, [], .nothing (fun place => idle _ place) fun v' _ place => idle v' place, .nothing, holds⟩
  · intro d r atR s atS hop through ih below fields holds
    cases d with
    | upgrade =>
      have climbs : s.rank = r.rank + 1 := hop
      omega
    | downgrade =>
      have descends : r.rank = s.rank + 1 := hop
      have above : stop.rank ≤ s.rank := by omega
      have lower : versions.idxOf stop.name ≤ versions.idxOf s.name := by
        rw [← tidy.rank_eq atStop, ← tidy.rank_eq atS]
        exact above
      have next : versions.idxOf r.name = versions.idxOf s.name + 1 := by
        rw [← tidy.rank_eq atR, ← tidy.rank_eq atS]
        exact descends
      cases holds with
      | @map level _ _ _ _ fits inside =>
        have atA := tidy.declared atStop
        have atMid := tidy.declared atS
        obtain ⟨z, first, restores, dropped, within⟩ := fits.restores_step atA atMid lower next
          fun item listed nested m v member held type N typed registered =>
            (inside item listed nested m v member held type N typed registered).restorable
              (Nat.le_of_succ_le_succ enough) atA atMid lower next
        obtain ⟨y, more, restores', dropped', reached⟩ := ih above z (within none)
        have apart := dropped.append dropped' lower (by omega)
        refine ⟨y, first ++ more, (restores.trans restores' apart.distinct).imp ?_ ?_, apart, reached⟩
        · intro place p q run
          obtain ⟨u, t, before, later⟩ := Run.bind_eq_ok_iff.mp run
          exact (convert_through tidy.run rfl (made.sound.get_name atR) (made.sound.get_name atS)
            (made.sound.get_name atStop) through room _ _ _ _ _).mpr ⟨u, t, before, later⟩
        · intro w' _ v' _ place p q run
          obtain ⟨u, t, before, later⟩ := Run.bind_eq_ok_iff.mp run
          exact (convert_through tidy.run rfl (made.sound.get_name atStop) (made.sound.get_name atS)
            (made.sound.get_name atR) (by omega) room _ _ _ _ _).mpr ⟨u, t, before, later⟩

/-- A tree of texts, whose branches and notes came later. -/
def tree : Container where
  name := "Tree"
  kind := .struct
  doc := none
  versions := ["v1", "v2", "v3"].map Declaration.named
  items := [⟨"label", some "str", none, none, false, none, [], none⟩,
    ⟨"branches", some "List[Tree]", none, some .list, true, some ⟨"v2", none, none, none⟩, [], none⟩,
    ⟨"note", some "str", none, none, false, some ⟨"v3", none, none, none⟩, [], none⟩]
  options := ⟨true, false⟩
  resource := none

/-- A tree with a label, branches and a note. -/
def treeOf (label : String) (branches : List Value) (note : String) : Entries Value Value :=
  [(.text "label", .text label), (.text "branches", .list branches), (.text "note", .text note)]

/-- What was generated from the tree. -/
structure MadeTree (g : Generation) : Prop where
  run : Generation.ofContainer tree = .ok g
  base : TypeName.base "List[Tree]" = g.name
  names : g.timeline.names = ["v1", "v2", "v3"]
  edges : ∀ a ∈ ["v1", "v2", "v3"], ∀ b ∈ ["v1", "v2", "v3"], (g.edgesBetween a b).isOk = true
  members : (g.definition "v3").toOption.map (fun d =>
    (d.names, (d.memberOfItem? "branches").map (·.name))) = some (["label", "branches", "note"], some "branches")
  ranks : ["v1", "v3"].map (fun version => (g.timeline.get version).toOption.map (·.rank)) = [some 0, some 2]
  apart : tree.PathsApart

/-- A tree is generated, with branches that are trees and a note that is added. -/
theorem exists_tree : ∃ g, MadeTree g := by
  have facts : (Generation.ofContainer tree).toOption.map (fun g => decide (TypeName.base "List[Tree]" = g.name ∧
      g.timeline.names = ["v1", "v2", "v3"] ∧
      (∀ a ∈ ["v1", "v2", "v3"], ∀ b ∈ ["v1", "v2", "v3"], (g.edgesBetween a b).isOk = true) ∧
      (g.definition "v3").toOption.map (fun d => (d.names, (d.memberOfItem? "branches").map (·.name))) =
        some (["label", "branches", "note"], some "branches") ∧
      ["v1", "v3"].map (fun version => (g.timeline.get version).toOption.map (·.rank)) = [some 0, some 2])) =
      some true := by decide +kernel
  have apart : tree.PathsApart := by decide +kernel
  obtain ⟨g, run, facts⟩ := exists_of_toOption_map facts
  obtain ⟨base, names, edges, members, ranks⟩ := of_decide_eq_true facts
  exact ⟨g, run, base, names, edges, members, ranks, apart⟩

section Tree

variable {g : Generation} (made : MadeTree g)
include made

theorem container_tree : (loop g .standard).container = tree :=
  (Generation.made_of_ofContainer made.run).container

theorem nested?_tree : (loop g .standard).nested? (TypeName.base "List[Tree]") = some (loop g .standard) :=
  nested?_loop .standard made.base.symm

/-- A tree is over the same versions as its branches, and no name in it reads like a path. -/
theorem tidy_tree : (loop g .standard).Tidy ["v1", "v2", "v3"] := by
  have own := container_tree made
  refine ⟨own ▸ made.run, by rw [own]; rfl, ?_, made.names, fun a among b there => ?_, ?_, own ▸ made.apart⟩
  · rw [own]
    simp [tree, Item.KeepsType]
  · exact exists_of_isOk (made.edges a among b there)
  · rw [own]
    intro item listed nested
    simp only [tree, List.mem_cons, List.not_mem_nil, or_false] at listed
    rcases listed with rfl | rfl | rfl
    · cases nested
    · exact ⟨"List[Tree]", _, rfl, nested?_tree made, rfl⟩
    · cases nested

/-- A tree with a label, branches and a note is an instance, one level deeper than its branches. -/
theorem instance_tree (label : String) {branches : List Value} (note : String) (hint : Option Hint)
    (within : ∀ v ∈ branches,
      (loop g .standard).Instance ["v1", "v2", "v3"] "v1" "v3" level none v) :
    (loop g .standard).Instance ["v1", "v2", "v3"] "v1" "v3" (level + 1) hint
      (.map (treeOf label branches note)) := by
  obtain ⟨second, atLast, members⟩ := exists_of_toOption_map made.members
  obtain ⟨names, branch⟩ := Prod.mk.inj members
  have fits : (loop g .standard).Fits ["v1", "v2", "v3"] "v1" "v3" second
      (treeOf label branches note) := by
    refine ⟨tidy_tree made, atLast, by simp [treeOf], by simp [treeOf, names], fun _ _ m among _ => ?_⟩
    have named : m.name ∈ second.names := List.mem_map_of_mem among
    simp only [names, List.mem_cons, List.not_mem_nil, or_false] at named
    rcases named with same | same | same <;> rw [same] <;> exact Option.some_ne_none _
  refine .map fits ?_
  rw [container_tree made]
  intro item listed nested m v member held type N typed registered
  simp only [tree, List.mem_cons, List.not_mem_nil, or_false] at listed
  rcases listed with rfl | rfl | rfl
  · cases nested
  · cases typed
    cases (nested?_tree made).symm.trans registered
    rw [member] at branch
    rw [show m.name = "branches" from Option.some.inj branch] at held
    cases held
    exact .list within
  · cases nested

end Tree

/-- Of an instance of the newer version a conversion down makes one of the older. One up with the same
tracker makes the instance again, up to the order of entries, and leaves nothing in the tracker, whatever
was dropped at whatever depth. -/
theorem convert_restores_nested (enough : level ≤ room + 1) {a b : String} {older newer : Release}
    (atA : rt.generation.timeline.get a = .ok older) (atB : rt.generation.timeline.get b = .ok newer)
    (before : older.rank ≤ newer.rank) {x : Entries Value Value}
    (holds : rt.Instance versions a b level none (.map x)) (place : String) (p : Progress) :
    ∃ y q, rt.convert room b a (.map x) place { p with tracker := some .empty } = (.ok y, q) ∧
      rt.Instance versions a a level none y ∧ ∀ p' : Progress, ∃ z q',
        rt.convert room a b y place { p' with tracker := q.tracker } = (.ok z, q') ∧
        z.Alike (.map x) ∧ q'.tracker = some .empty := by
  have tidy : rt.Tidy versions := by
    cases holds with
    | map fits => exact fits.tidy
  have foundA := Timeline.get_eq_ok_iff.mp atA
  have foundB := Timeline.get_eq_ok_iff.mp atB
  cases Timeline.name_of_find? foundA
  cases Timeline.name_of_find? foundB
  obtain ⟨y, drops, restores, dropped, reached⟩ := Instance.restores_path enough tidy
    (List.mem_of_find?_eq_some foundA) newer (List.mem_of_find?_eq_some foundB) before x holds
  have distinct := @Drops.under_nodup place drops dropped.distinct
  have recorded : Entries.putAll Tracker.empty.values (drops.under place) = drops.under place := by
    refine @Entries.putAll_of_distinct _ [] _ (fun e member => ?_) distinct
    obtain ⟨d, _, rfl⟩ := Drops.mem_under.mp member
    exact ⟨_, rfl⟩
  obtain ⟨q, run, left⟩ := restores.down place { p with tracker := some .empty } .empty rfl
  obtain ⟨z, alike, back⟩ := restores.up (.map y) (.same _)
  refine ⟨.map y, q, run, reached, fun p' => ?_⟩
  rw [recorded] at left
  obtain ⟨q', u, run', left', frees⟩ := back place { p' with tracker := q.tracker } ⟨drops.under place⟩ left
    distinct (List.Subset.refl _)
  have nothing : u = .empty := by
    cases u with
    | mk values =>
      refine congrArg Tracker.mk (List.eq_nil_iff_forall_not_mem.mpr fun e member => ?_)
      obtain ⟨among, apart⟩ := (frees.mem_iff e).mp member
      exact apart among
  exact ⟨z, q', run', alike, nothing ▸ left'⟩

/-- The note of a branch is dropped before the branch is. -/
theorem convert_restores_nested_tree :
    ∃ g older newer y q z q', Generation.ofContainer tree = .ok g ∧ g.timeline.get "v1" = .ok older ∧
      g.timeline.get "v3" = .ok newer ∧ older.rank ≤ newer.rank ∧
      (loop g .standard).Instance ["v1", "v2", "v3"] "v1" "v3" 2 none
        (.map (treeOf "root" [.map (treeOf "leaf" [] "small"), .null] "big")) ∧
      (loop g .standard).convert 1 "v3" "v1"
        (.map (treeOf "root" [.map (treeOf "leaf" [] "small"), .null] "big")) ""
        (Progress.start (some .empty)) = (.ok y, q) ∧
      (loop g .standard).convert 1 "v1" "v3" y ""
        { Progress.start none with tracker := q.tracker } = (.ok z, q') ∧
      z.Alike (.map (treeOf "root" [.map (treeOf "leaf" [] "small"), .null] "big")) ∧
      q'.tracker = some .empty := by
  obtain ⟨g, made⟩ := exists_tree
  have ranks := made.ranks
  simp only [List.map_cons, List.map_nil, List.cons.injEq, and_true] at ranks
  obtain ⟨low, high⟩ := ranks
  obtain ⟨older, atA, low⟩ := exists_of_toOption_map low
  obtain ⟨newer, atB, high⟩ := exists_of_toOption_map high
  have before : older.rank ≤ newer.rank := by omega
  have leaf := @instance_tree 0 g made "leaf" [] "small" none (List.forall_mem_nil _)
  have holds := @instance_tree 1 g made "root" [.map (treeOf "leaf" [] "small"), .null] "big" none (by
    intro v among
    simp only [List.mem_cons, List.not_mem_nil, or_false] at among
    rcases among with rfl | rfl
    · exact leaf
    · exact .null)
  obtain ⟨y, q, down, _, up⟩ := @convert_restores_nested _ ["v1", "v2", "v3"] 2 1 (loop g .standard)
    le_rfl "v1" "v3" older newer atA atB before _ holds "" (Progress.start none)
  obtain ⟨z, q', raised, alike, left⟩ := up (Progress.start none)
  exact ⟨g, older, newer, y, q, z, q', made.run, atA, atB, before, holds, down, raised, alike, left⟩

/-- A page, whose title came later. -/
def page : Container where
  name := "Page"
  kind := .struct
  doc := none
  versions := ["v1", "v2"].map Declaration.named
  items := [⟨"title", some "str", none, none, false, some ⟨"v2", none, none, none⟩, [], none⟩]
  options := ⟨true, false⟩
  resource := none

/-- A folder of a page with an item whose name reads like the path of the title of that page. -/
def folder : Container where
  name := "Folder"
  kind := .struct
  doc := none
  versions := ["v1", "v2"].map Declaration.named
  items := [⟨"page", some "Page", none, none, true, none, [], none⟩,
    ⟨"page.title", some "str", none, none, false, some ⟨"v2", none, none, none⟩, [], none⟩]
  options := ⟨true, false⟩
  resource := none

/-- A folder with the title of its page and with one of its own. -/
def folderOf (inner outer : String) : Entries Value Value :=
  [(.text "page", .map [(.text "title", .text inner)]), (.text "page.title", .text outer)]

/-- The titles of a folder. -/
def titlesOf? : Value → Option (String × String)
  | .map [(.text "page", .map [(.text "title", .text inner)]), (.text "page.title", .text outer)] =>
    some (inner, outer)
  | _ => none

theorem eq_folderOf_of_titlesOf? {v : Value} {inner outer : String}
    (titles : titlesOf? v = some (inner, outer)) : v = .map (folderOf inner outer) := by
  unfold titlesOf? at titles
  split at titles
  · cases titles
    rfl
  · cases titles

/-- Both titles are recorded under one path, so that one of them is lost. -/
theorem folder_title_lost :
    ∃ g h y q z q', Generation.ofContainer folder = .ok g ∧ Generation.ofContainer page = .ok h ∧
      (∀ c ∈ [folder, page], c.kind = .struct ∧ ∀ item ∈ c.items, item.KeepsType) ∧
      (∀ k ∈ [g, h], k.timeline.names = ["v1", "v2"] ∧
        ∀ a ∈ ["v1", "v2"], ∀ b ∈ ["v1", "v2"], ∃ edges, k.edgesBetween a b = .ok edges) ∧
      (∃ d, g.definition "v2" = .ok d ∧ d.names = ["page", "page.title"]) ∧
      (∃ d, h.definition "v2" = .ok d ∧ d.names = ["title"]) ∧
      (star .standard g [h]).nested? (TypeName.base "Page") = some ((star .standard g [h]).move (some h)) ∧
      (star .standard g [h]).convert 1 "v2" "v1" (.map (folderOf "inner" "outer")) ""
        (Progress.start (some .empty)) = (.ok y, q) ∧
      (star .standard g [h]).convert 1 "v1" "v2" y ""
        { Progress.start none with tracker := q.tracker } = (.ok z, q') ∧
      ¬ z.Alike (.map (folderOf "inner" "outer")) := by
  have outside : (Generation.ofContainer folder).toOption.map (fun g => (g.timeline.names,
      decide (∀ a ∈ ["v1", "v2"], ∀ b ∈ ["v1", "v2"], (g.edgesBetween a b).isOk = true),
      (g.definition "v2").toOption.map (·.names))) =
      some (["v1", "v2"], true, some ["page", "page.title"]) := by decide +kernel
  have inside : (Generation.ofContainer page).toOption.map (fun h => (h.name, h.timeline.names,
      decide (∀ a ∈ ["v1", "v2"], ∀ b ∈ ["v1", "v2"], (h.edgesBetween a b).isOk = true),
      (h.definition "v2").toOption.map (·.names))) = some ("Page", ["v1", "v2"], true, some ["title"]) := by
    decide +kernel
  have round : (Generation.ofContainer folder).toOption.bind (fun g =>
      (Generation.ofContainer page).toOption.map fun h =>
        let rt := star .standard g [h]
        let down := rt.convert 1 "v2" "v1" (.map (folderOf "inner" "outer")) ""
          (Progress.start (some .empty))
        down.1.toOption.map fun y =>
          let up := rt.convert 1 "v1" "v2" y "" { Progress.start none with tracker := down.2.tracker }
          up.1.toOption.map titlesOf?) = some (some (some (some ("outer", "")))) := by decide +kernel
  obtain ⟨g, run, outside⟩ := exists_of_toOption_map outside
  obtain ⟨h, runs, inside⟩ := exists_of_toOption_map inside
  rw [run, runs] at round
  obtain ⟨y, down, round⟩ := exists_of_toOption_map (Option.some.inj round)
  obtain ⟨z, up, titles⟩ := exists_of_toOption_map round
  simp only [Prod.mk.injEq] at outside inside
  obtain ⟨outerNames, outerEdges, outerMembers⟩ := outside
  obtain ⟨name, innerNames, innerEdges, innerMembers⟩ := inside
  have base : TypeName.base "Page" = "Page" := by decide +kernel
  have registered := nested?_star .standard g (name.trans base.symm)
  refine ⟨g, h, y, _, z, _, run, runs, ?_, ?_, ?_, ?_, registered, Prod.ext down rfl, Prod.ext up rfl,
    fun alike => ?_⟩
  · simp [folder, page, Item.KeepsType]
  · have outer := fun a among b there => exists_of_isOk (of_decide_eq_true outerEdges a among b there)
    have inner := fun a among b there => exists_of_isOk (of_decide_eq_true innerEdges a among b there)
    intro k among
    simp only [List.mem_cons, List.not_mem_nil, or_false] at among
    rcases among with rfl | rfl
    · exact ⟨outerNames, outer⟩
    · exact ⟨innerNames, inner⟩
  · exact exists_of_toOption_map outerMembers
  · exact exists_of_toOption_map innerMembers
  · rw [eq_folderOf_of_titlesOf? titles] at alike
    obtain ⟨fields, same, entries⟩ := alike.of_map
    cases same
    have title : Option.Rel Value.Alike (some (.text "")) (some (.text "outer")) :=
      entries (.text "page.title")
    cases title with
    | some close => exact absurd (Value.text.inj close.eq_text) (by decide)

end Runtime

end Lineage
