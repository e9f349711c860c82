import Lineage.Proofs.Conversion.Nested
import Lineage.Proofs.Conversion.NestedHop
import Lineage.Proofs.Conversion.Places

namespace Lineage

namespace Drops

theorem mem_paths_indexed {index : Nat} {made : List Drops} {path : String}
    (member : path ∈ (indexed index made).paths) : ∃ i, index ≤ i ∧ ∃ drops ∈ made, ∃ tail ∈ drops.paths,
      path = "[" ++ toString i ++ "]" ++ tail := by
  induction made generalizing index with
  | nil => cases member
  | cons drops rest ih =>
    rw [indexed, paths_append, paths_behind, List.mem_append, List.mem_map] at member
    rcases member with ⟨tail, among, rfl⟩ | later
    · exact ⟨index, le_rfl, drops, List.mem_cons_self .., tail, among, rfl⟩
    · obtain ⟨i, above, other, there, tail, among, same⟩ := ih later
      exact ⟨i, by omega, other, List.mem_cons_of_mem _ there, tail, among, same⟩

/-- If no item of a list drops two values at one path, neither does the list, as indices differ. -/
theorem paths_indexed_nodup {index : Nat} {made : List Drops} (each : ∀ drops ∈ made, drops.paths.Nodup) :
    (indexed index made).paths.Nodup := by
  induction made generalizing index with
  | nil => exact List.nodup_nil
  | cons drops rest ih =>
    rw [List.forall_mem_cons] at each
    rw [indexed, paths_append, paths_behind, List.nodup_append]
    refine ⟨each.1.map fun left right same => append_left_cancel same, ih each.2, ?_⟩
    rintro _ here _ later rfl
    obtain ⟨tail, _, same⟩ := List.mem_map.mp here
    obtain ⟨i, above, _, _, tail', _, rfl⟩ := mem_paths_indexed later
    have chars := congrArg String.toList same
    simp only [String.toList_append, List.append_assoc] at chars
    have equal := (index_inj (List.append_cancel_left chars)).1
    omega

theorem mem_paths_ofItems {items : List Item} {drops : Item → Drops} {path : String} :
    path ∈ (ofItems items drops).paths ↔
      ∃ item ∈ items, ∃ rest ∈ (drops item).paths, "." ++ item.name ++ rest = path := by
  rw [paths, ofItems, List.map_flatMap, List.mem_flatMap]
  refine exists_congr fun item => and_congr_right fun _ => ?_
  change path ∈ (behind ("." ++ item.name) (drops item)).paths ↔ _
  rw [paths_behind, List.mem_map]

end Drops

/-- What restores a value does so for conversions that do the same to it. -/
theorem Conversion.Restores.imp {down up down' up' : Value → (place : String) → Run Value} {v w : Value}
    {drops : Drops} (restores : Restores down up v w drops)
    (lowers : ∀ place p q, down v place p = (.ok w, q) → down' v place p = (.ok w, q))
    (raises : ∀ w', w'.Alike w → ∀ v', v'.Alike v → ∀ place p q, up w' place p = (.ok v', q) →
      up' w' place p = (.ok v', q)) : Restores down' up' v w drops := by
  refine ⟨fun place p t tracked => ?_, fun w' alike => ?_⟩
  · obtain ⟨q, run, left⟩ := restores.down place p t tracked
    exact ⟨q, lowers place p q run, left⟩
  · obtain ⟨v', close, back⟩ := restores.up w' alike
    refine ⟨v', close, fun place p t tracked distinct inside => ?_⟩
    obtain ⟨q, u, run, left, frees⟩ := back place p t tracked distinct inside
    exact ⟨q, u, raises w' alike v' close place p q run, left, frees⟩

theorem Conversion.Lowers.made_ne_none {lower raise : Value → (place : String) → Run Value} {item : Item}
    {old new : Status} {value made : Option Value} {inner own : Drops}
    (lowers : Lowers lower raise item old new value made inner own) (present : old.member? ≠ none)
    (held : value ≠ none) : made ≠ none := by
  cases lowers with
  | absent before | dropped before => exact absurd before present
  | missing => exact absurd rfl held
  | copied | nested => exact Option.some_ne_none _

namespace Runtime

variable {ι : Type}

/-- Converts a value that is nested in an instance, where null stays null. -/
def convertInside (N : Runtime ι) (room : Nat) (a b : String) (v : Value) (place : String) :
    Run Value :=
  match v with
  | .null => pure .null
  | v => inside .free room N a b v place

/-- Converts the value of an item with a hint: the values of a list one by one if the hint says that the
item holds a list. -/
def convertHeld (N : Runtime ι) (room : Nat) (hint : Option Hint) (a b : String) (v : Value)
    (place : String) : Run Value :=
  match hint, v with
  | some .list, .list items => do
    return .list (← Conversion.nestedItems (N.convertInside room a b) place 0 items)
  | _, v => N.convertInside room a b v place

/-- Where a container is registered for the type of an item, it converts its values as the hint says. -/
theorem hintedValue_eq_convertHeld {room : Nat} {rt N : Runtime ι} {T : Option String} {type : String}
    (base : T.map TypeName.base = some type)
    (unregistered : rt.functions.converter? (some type) (some type) = none)
    (registered : rt.nested? type = some N) (a b : String) (e : Edge) (hint : Option Hint) :
    Conversion.hintedValue .free rt.functions (rt.inner .free room a b) e T T hint =
      N.convertHeld room hint a b := by
  have follows : rt.inner .free room a b type = some (inside .free room N a b) := by
    rw [inner, follow, registered, Option.map_some]
  have single : Conversion.nestedValue .free rt.functions (rt.inner .free room a b) e T T =
      N.convertInside room a b := by
    funext v place
    by_cases null : v = .null
    · rw [null]
      rfl
    · rw [Conversion.nestedValue_inner base unregistered follows null]
      cases v with
      | null => exact absurd rfl null
      | _ => rfl
  funext v place
  have alone := congrFun (congrFun single v) place
  cases hint with
  | none => exact alone
  | some h =>
    cases h with
    | option => exact alone
    | list =>
      cases v with
      | list items =>
        have each := congrArg (Conversion.nestedItems · place 0 items) single
        exact congrArg (· >>= fun ws => pure (Value.list ws)) each
      | _ => exact alone

variable (versions : List String)

/-- Whether a map is an instance of a version as far as its own fields go: it is keyed by names of members,
and it has the values of all members that are added after another version. -/
structure Fits (a b : String) (rt : Runtime ι) (second : Definition) (fields : Entries Value Value) : Prop where
  tidy : rt.Tidy versions
  current : rt.generation.definition b = .ok second
  distinct : (fields.map (·.1)).Nodup
  keys : ∀ e ∈ fields, ∃ name ∈ second.names, e.1 = .text name
  filled : ∀ first, rt.generation.definition a = .ok first → ∀ m ∈ second.members,
    first.memberOfItem? m.item = none → Value.member? fields m.name ≠ none

/-- Whether the value of an item with a hint is null or an instance of a version, or a list of these if the
hint says so, and no more instances than a number are nested in each other in it. -/
inductive Instance (a b : String) : (level : Nat) → Runtime ι → Option Hint → Value → Prop
  | null {level : Nat} {rt : Runtime ι} {hint : Option Hint} : Instance a b level rt hint .null
  | list {level : Nat} {rt : Runtime ι} {items : List Value} (each : ∀ v ∈ items, Instance a b level rt none v) :
      Instance a b level rt (some .list) (.list items)
  | map {level : Nat} {rt : Runtime ι} {hint : Option Hint} {second : Definition} {fields : Entries Value Value}
      (fits : rt.Fits versions a b second fields)
      (inside : ∀ item ∈ rt.container.items, item.nested = true → ∀ m v,
        second.memberOfItem? item.name = some m → Value.member? fields m.name = some v →
        ∀ type N, item.type = some type → rt.nested? (TypeName.base type) = some N →
          Instance a b level N item.hint v) :
      Instance a b (level + 1) rt hint (.map fields)

/-- Whether a path leads to a value that is added after one version, and not after another. -/
def AddsBetween (rt : Runtime ι) (lo hi path : String) : Prop :=
  ∃ version, rt.Adds versions path version ∧ versions.idxOf lo < versions.idxOf version ∧
    versions.idxOf version ≤ versions.idxOf hi

/-- Whether values were dropped under different paths, each from the value of an item with a hint and added
between two versions. -/
structure DropsBetween (rt : Runtime ι) (hint : Option Hint) (lo hi : String) (drops : Drops) : Prop where
  distinct : drops.paths.Nodup
  added : ∀ path ∈ drops.paths, ∃ lead tail, path = lead ++ tail ∧ Hint.Leads hint lead ∧
    rt.AddsBetween versions lo hi tail

/-- Whether the value of an item with a hint is restored between two versions, and what is made of it on the
way is an instance as well. -/
def Restorable (a lo hi : String) (level room : Nat) (rt : Runtime ι) (hint : Option Hint) (v : Value) : Prop :=
  ∃ w drops, Conversion.Restores (rt.convertHeld room hint hi lo) (rt.convertHeld room hint lo hi)
    v w drops ∧ rt.DropsBetween versions hint lo hi drops ∧
    rt.Instance versions a lo level hint w

section Drops

variable {versions} {rt : Runtime ι}

/-- In all runtimes that convert between the same versions, a version is of the same rank. -/
theorem Tidy.rank_eq (tidy : rt.Tidy versions) {r : Release}
    (member : r ∈ rt.generation.timeline.releases) : r.rank = versions.idxOf r.name := by
  have sound := (Generation.made_of_ofContainer tidy.run).sound
  rw [← sound.rankOf_name member, sound.rankOf_eq_idxOf (List.mem_map_of_mem member), tidy.names]

theorem Tidy.declared (tidy : rt.Tidy versions) {r : Release}
    (member : r ∈ rt.generation.timeline.releases) : r.name ∈ versions := by
  rw [← tidy.names]
  exact List.mem_map_of_mem member

theorem Tidy.exists_release (tidy : rt.Tidy versions) {name : String} (listed : name ∈ versions) :
    ∃ r ∈ rt.generation.timeline.releases, r.name = name := by
  rw [← tidy.names] at listed
  exact List.mem_map.mp listed

/-- Whether values of an item were dropped under different paths, all of them added between two versions. -/
structure DropsOf (versions : List String) (rt : Runtime ι) (lo hi : String)
    (item : Item) (drops : Drops) : Prop where
  distinct : drops.paths.Nodup
  added : ∀ path ∈ drops.paths, item.Continues path ∧
    rt.AddsBetween versions lo hi ("." ++ item.name ++ path)

namespace DropsBetween

variable {lo mid hi : String} {hint : Option Hint} {drops more : Drops}

theorem nothing : rt.DropsBetween versions hint lo hi [] :=
  ⟨List.nodup_nil, by simp [Drops.paths]⟩

theorem perm (dropped : rt.DropsBetween versions hint lo hi drops) (reorder : drops.Perm more) :
    rt.DropsBetween versions hint lo hi more := by
  have paths := reorder.map (·.1)
  exact ⟨paths.nodup_iff.mp dropped.distinct, fun path member => dropped.added path (paths.mem_iff.mpr member)⟩

/-- What is dropped of a nested value is dropped of the item that holds it. -/
theorem dropsOf {N : Runtime ι} {item : Item} {type : String}
    (dropped : N.DropsBetween versions item.hint lo hi drops) (tidy : rt.Tidy versions)
    (listed : item ∈ rt.container.items) (nested : item.nested = true) (typed : item.type = some type)
    (registered : rt.nested? (TypeName.base type) = some N) :
    rt.DropsOf versions lo hi item drops := by
  refine ⟨dropped.distinct, fun path member => ?_⟩
  obtain ⟨lead, tail, rfl, leads, version, adds, bounds⟩ := dropped.added path member
  have within := Adds.inside tidy listed nested typed registered leads adds
  exact ⟨adds.continues nested leads, version, within, bounds⟩

/-- The values of different items are dropped under different paths. -/
theorem ofItems (tidy : rt.Tidy versions) {drops : Item → Drops}
    (each : ∀ item ∈ rt.container.items, rt.DropsOf versions lo hi item (drops item)) :
    rt.DropsBetween versions none lo hi (Drops.ofItems rt.container.items drops) := by
  refine ⟨?_, fun path member => ?_⟩
  · have names := (Generation.made_of_ofContainer tidy.run).item_names_nodup
    have paths : (Drops.ofItems rt.container.items drops).paths =
        rt.container.items.flatMap fun item => (drops item).paths.map ("." ++ item.name ++ ·) := by
      rw [Drops.paths, Drops.ofItems, List.map_flatMap]
      exact List.flatMap_congr fun item _ => Drops.paths_behind
    rw [paths, List.nodup_flatMap]
    refine ⟨fun item listed => ?_, ?_⟩
    · exact (each item listed).distinct.map fun left right same => Drops.append_left_cancel same
    · refine (List.pairwise_map.mp names).imp_of_mem fun {left right} first second apart path here there => ?_
      obtain ⟨rest, among, rfl⟩ := List.mem_map.mp here
      obtain ⟨rest', among', same⟩ := List.mem_map.mp there
      have continues := ((each left first).added rest among).1
      have continues' := ((each right second).added rest' among').1
      obtain ⟨rfl, _⟩ := item_of_path tidy first second continues continues' same.symm
      exact apart rfl
  · obtain ⟨item, listed, rest, among, rfl⟩ := Drops.mem_paths_ofItems.mp member
    exact ⟨"", _, String.empty_append.symm, Or.inl rfl, ((each item listed).added rest among).2⟩

/-- The values in a list are dropped under different paths. -/
theorem indexed {made : List Drops}
    (each : ∀ drops ∈ made, rt.DropsBetween versions none lo hi drops) (index : Nat) :
    rt.DropsBetween versions (some .list) lo hi (Drops.indexed index made) := by
  refine ⟨Drops.paths_indexed_nodup fun drops listed => (each drops listed).distinct, fun path member => ?_⟩
  obtain ⟨i, _, drops, listed, _, among, rfl⟩ := Drops.mem_paths_indexed member
  obtain ⟨lead, tail, rfl, leads, adds⟩ := (each drops listed).added _ among
  rcases leads with rfl | ⟨isList, _⟩
  · exact ⟨_, tail, by rw [String.empty_append], Or.inr ⟨rfl, i, rfl⟩, adds⟩
  · cases isList

/-- What is dropped on one part of a way is dropped under other paths than what is dropped on another. -/
theorem append (first : rt.DropsBetween versions hint mid hi drops)
    (second : rt.DropsBetween versions hint lo mid more)
    (below : versions.idxOf lo ≤ versions.idxOf mid) (above : versions.idxOf mid ≤ versions.idxOf hi) :
    rt.DropsBetween versions hint lo hi (drops ++ more) := by
  refine ⟨?_, fun path member => ?_⟩
  · rw [Drops.paths_append, List.nodup_append]
    refine ⟨first.distinct, second.distinct, ?_⟩
    rintro _ here _ there rfl
    obtain ⟨lead, tail, same, leads, version, adds, later, _⟩ := first.added _ here
    obtain ⟨lead', tail', same', leads', version', adds', _, earlier⟩ := second.added _ there
    obtain ⟨rest, rfl⟩ := adds.starts
    obtain ⟨rest', rfl⟩ := adds'.starts
    obtain ⟨_, rfl⟩ := leads.eq_of_append leads' (same.symm.trans same')
    have equal := adds.unique adds'
    rw [equal] at later
    omega
  · rw [Drops.paths_append, List.mem_append] at member
    rcases member with here | there
    · obtain ⟨lead, tail, same, leads, version, adds, later, earlier⟩ := first.added _ here
      exact ⟨lead, tail, same, leads, version, adds, by omega, earlier⟩
    · obtain ⟨lead, tail, same, leads, version, adds, later, earlier⟩ := second.added _ there
      exact ⟨lead, tail, same, leads, version, adds, later, by omega⟩

theorem of_none (dropped : rt.DropsBetween versions none lo hi drops) (hint : Option Hint) :
    rt.DropsBetween versions hint lo hi drops := by
  refine ⟨dropped.distinct, fun path member => ?_⟩
  obtain ⟨lead, tail, same, leads, adds⟩ := dropped.added path member
  rcases leads with rfl | ⟨isList, _⟩
  · exact ⟨"", tail, same, Or.inl rfl, adds⟩
  · cases isList

end DropsBetween

end Drops

end Runtime

end Lineage
