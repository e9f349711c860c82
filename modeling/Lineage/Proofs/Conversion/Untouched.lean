import Lineage.Proofs.Conversion.Nested

namespace Lineage

namespace Conversion

variable {functions : Functions} {nesting : Nesting} {e : Edge} {T : Option String} {type : String}

theorem nestedItems_pure {convert : Value → (path : String) → Run Value}
    (each : ∀ v place, convert v place = pure v) (path : String) (index : Nat) (items : List Value) :
    nestedItems convert path index items = pure items := by
  induction items generalizing index with
  | nil => rfl
  | cons v rest ih => simp only [nestedItems, each, ih, pure_bind]

variable (base : T.map TypeName.base = some type)
  (unregistered : functions.converter? (some type) (some type) = none)
  (alone : nesting type = none) (complex : coercion? .free type = none)
include base unregistered alone complex

/-- Values of a type that nothing is known of stay as they are. -/
theorem nestedValue_untouched (v : Value) (place : String) :
    nestedValue .free functions nesting e T T v place = pure v := by
  by_cases null : v = .null
  · rw [null]
    rfl
  · simp only [nestedValue, base, unregistered, if_true, Option.bind_some, alone, complex]

theorem hintedValue_untouched (hint : Option Hint) (v : Value) (place : String) :
    hintedValue .free functions nesting e T T hint v place = pure v := by
  have single := @nestedValue_untouched functions nesting e T type base unregistered alone complex
  unfold hintedValue
  split
  · simp only [nestedItems_pure single, pure_bind]
  · exact single v place

end Conversion

namespace Generation.Made

variable {ι : Type} {c : Container} {g : Generation} (made : Made c g) (struct : c.kind = .struct) {item : Item}
  (listed : item ∈ c.items) (nested : item.nested = true) (keeps : item.KeepsType) {rt : Runtime ι}
  (own : rt.generation = g) {room : Nat} {type : String}
  (base : item.type.map TypeName.base = some type)
  (unregistered : rt.functions.converter? (some type) (some type) = none)
  (alone : rt.nested? type = none) (complex : Conversion.coercion? .free type = none) {place : String}
  (run : ofContainer c = .ok g)
include made struct listed nested keeps own base unregistered alone complex run

/-- Along a whole path the value of a nested item stays as it is if its type has no runtime. -/
theorem convert_untouched_path {start stop : Release} (atStart : start ∈ g.timeline.releases)
    (atStop : stop ∈ g.timeline.releases)
    (present : ∀ r ∈ g.timeline.releases, min start.rank stop.rank ≤ r.rank →
      (item.statusIn c.kind g.timeline r).member? ≠ none) {m n : String × Option String}
    (before : (item.statusIn c.kind g.timeline start).member? = some m)
    (after : (item.statusIn c.kind g.timeline stop).member? = some n) {x : Entries Value Value}
    {v w : Value} {p q : Progress} (held : Value.member? x m.1 = some v)
    (converted : rt.convert room start.name stop.name (.map x) place p = (.ok w, q)) :
    ∃ y, w = .map y ∧ Value.member? y n.1 = some v := by
  have follows : ∀ a b, rt.inner .free room a b type = none := by
    intro a b
    rw [Runtime.inner, Runtime.follow, alone, Option.map_none]
  have step : ∀ d : Direction, ∀ r ∈ g.timeline.releases, ∀ s ∈ g.timeline.releases, d.Steps r s → ∀ m k,
      (item.statusIn c.kind g.timeline r).member? = some m →
      (item.statusIn c.kind g.timeline s).member? = some k → ∀ x v w (p q : Progress),
      Value.member? x m.1 = some v → True →
      rt.convert room r.name s.name (.map x) place p = (.ok w, q) →
      ∃ y u, w = .map y ∧ Value.member? y k.1 = some u ∧ u = v ∧ True := by
    intro d r atR s atS hop m k before after x v w p q held _ converted
    obtain ⟨e, y, u, p', q', same, there, _, here⟩ := made.convert_hinted_step struct listed nested keeps own
      atR atS hop before after held converted
    rw [Conversion.hintedValue_untouched base unregistered (follows ..) complex] at here
    cases here
    exact ⟨y, _, same, there, rfl, trivial⟩
  obtain ⟨y, u, same, there, rfl⟩ := made.convert_held_path run own (P := fun _ => True)
    (Q := fun _ _ v u => u = v) atStop after (fun _ => rfl) step
    (fun _ _ _ _ _ _ _ _ _ _ first later => later.trans first) start atStart present m x v w p q before held trivial
    converted
  exact ⟨y, same, there⟩

end Generation.Made

namespace Runtime

variable {ι : Type}

/-- Whether a runtime leaves the values that are nested in those of its container as they are, in whatever
version, as far as their types are not basic ones. -/
def LeavesNested (rt : Runtime ι) (c : Container) : Prop :=
  ∀ item ∈ c.items, item.nested = true → item.KeepsType → ∀ type, item.type = some type →
    Conversion.coercion? .free (TypeName.base type) = none →
    ∀ room a b first second before after x v w place p q,
      rt.generation.definition a = .ok first → rt.generation.definition b = .ok second →
      first.memberOfItem? item.name = some before → second.memberOfItem? item.name = some after →
      Value.member? x before.name = some v → rt.convert room a b (.map x) place p = (.ok w, q) →
      ∃ y, w = .map y ∧ Value.member? y after.name = some v

/-- Where no other containers are registered, the values of nested items are left as they are. -/
theorem leavesNested_of_registered {c : Container} {rt : Runtime ι}
    (run : Generation.ofContainer c = .ok rt.generation) (struct : c.kind = .struct)
    (unregistered : rt.functions.converters = []) (alone : rt.node.registered = []) : rt.LeavesNested c := by
  intro item listed nested keeps type typed complex room a b first second before after x v w place p q atA atB
    source target held converted
  have made := Generation.made_of_ofContainer run
  obtain ⟨start, atStart, stop, atStop, rfl, rfl, present, ⟨m, atSource, old⟩, n, atTarget, new⟩ :=
    made.exists_members listed atA atB source target
  rw [old] at held
  rw [new]
  have none : rt.functions.converter? (some (TypeName.base type)) (some (TypeName.base type)) = none := by
    rw [Functions.converter?, unregistered]
    rfl
  have nothing : rt.nested? (TypeName.base type) = .none := by
    rw [nested?_eq, alone]
    rfl
  exact made.convert_untouched_path struct listed nested keeps rfl (by rw [typed, Option.map_some])
    none nothing complex run atStart atStop present atSource atTarget held converted

end Runtime

end Lineage
