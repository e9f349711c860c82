import Lineage.Proofs.Ranked
import Lineage.Proofs.Value.Order
import Lineage.Value.OrderedMap

namespace Lineage

theorem Value.int_beq_int (i j : Int) : (Value.int i == Value.int j) = (i == j) := by
  simp only [BEq.beq, sameKey, wholeNumber?, asInt?]

theorem getElem?_takeWhile {α : Type} {p : α → Bool} {xs : List α} {i : Nat}
    (front : i < (xs.takeWhile p).length) : (xs.takeWhile p)[i]? = xs[i]? := by
  conv_rhs => rw [← List.takeWhile_append_dropWhile (p := p) (l := xs)]
  exact (List.getElem?_append_left front).symm

theorem getElem?_length_takeWhile {α : Type} (p : α → Bool) (xs : List α) :
    xs[(xs.takeWhile p).length]? = (xs.dropWhile p).head? := by
  induction xs with
  | nil => rfl
  | cons x rest ih =>
    cases passes : p x
    · simp [passes]
    · simpa [passes] using ih

namespace OrderedMap

variable {m : OrderedMap} {r : Ranked Value} {es : Entries Int Value} {key : Int} {value : Value}

/-- An entry with an integer key as one of an ordered map. -/
def keyed (e : Int × Value) : Value × Value :=
  (.int e.1, e.2)

/-- Inserts the values of pairs at their keys, one after the other. -/
def insertAll (m : OrderedMap) (new : List (Value × Value)) : Except Fault OrderedMap :=
  new.foldlM (fun m e => m.insert e.1 e.2) m

@[simp] theorem keyed_fst (e : Int × Value) : (keyed e).1 = .int e.1 := rfl

@[simp] theorem keyed_snd (e : Int × Value) : (keyed e).2 = e.2 := rfl

@[simp] theorem map_keyed_fst (es : List (Int × Value)) :
    (es.map keyed).map (·.1) = es.map fun e => Value.int e.1 :=
  List.map_map

section Dictionary

theorem get?_keyed (es : Entries Int Value) (key : Int) :
    Entries.get? (es.map keyed) (.int key) = es.get? key := by
  simp only [Entries.get?, List.find?_map, Function.comp_def, keyed_fst, keyed_snd, Value.int_beq_int,
    Option.map_map]

theorem has_keyed (es : Entries Int Value) (key : Int) :
    Entries.has (es.map keyed) (.int key) = es.has key := by
  simp only [Entries.has_eq_isSome_get?, get?_keyed]

theorem put_keyed (es : Entries Int Value) (key : Int) (value : Value) :
    Entries.put (es.map keyed) (.int key) value = (es.put key value).map keyed := by
  induction es with
  | nil => rfl
  | cons e rest ih =>
    by_cases here : e.1 = key
    · simp [Entries.put, keyed, Value.int_beq_int, here]
    · simp [Entries.put, keyed, Value.int_beq_int, here, ← ih]

end Dictionary

/-- Every key of a map has its entry, so none is missing where the entries are listed. -/
theorem exists_entryOf (m : OrderedMap) {k : Value} (among : k ∈ m.keys) :
    ∃ v, m.entryOf k = .ok (k, v) := by
  obtain ⟨e, listed, own⟩ := List.mem_map.mp (m.inStep.subset among)
  have found : (m.values.find? fun e => e.1 == k || !(e.1 == e.1) && !(k == k)).isSome := by
    rw [List.find?_isSome]
    refine ⟨e, listed, ?_⟩
    rw [own]
    cases k == k <;> rfl
  obtain ⟨f, found⟩ := Option.isSome_iff_exists.mp found
  exact ⟨f.2, by rw [entryOf, found]⟩

/-- What a map holds: its keys are those of entries that are ordered, and its values are those of a
dictionary that finds the same. -/
structure Holds (m : OrderedMap) (r : Ranked Value) (es : Entries Int Value) : Prop where
  keys : m.keys = r.map fun e => .int e.1
  values : m.values = es.map keyed
  ordered : r.Pairwise (·.1 < ·.1)
  alike : ∀ key, es.get? key = r.get? key

/-- Where a test of the keys fails from some entry on, halving finds how many pass it. -/
theorem bisect_keys {goesOn : Value → Except Fault Bool} {p : Int × Value → Bool}
    (closed : r.Pairwise fun e f => p f = true → p e = true)
    (tests : ∀ e : Int × Value, goesOn (.int e.1) = .ok (p e)) :
    bisect goesOn (r.map fun e => Value.int e.1).toArray 0 (r.map fun e => Value.int e.1).length =
      .ok (r.takeWhile p).length := by
  have whole : (r.map fun e => Value.int e.1) =
      ((r.takeWhile p).map fun e => .int e.1) ++ (r.dropWhile p).map fun e => .int e.1 := by
    rw [← List.map_append, List.takeWhile_append_dropWhile]
  have passes : ∀ k ∈ (r.takeWhile p).map fun e => Value.int e.1, goesOn k = .ok true := by
    rintro _ member
    obtain ⟨e, inside, rfl⟩ := List.mem_map.mp member
    rw [tests, List.mem_takeWhile_imp inside]
  have fails : ∀ k ∈ (r.dropWhile p).map fun e => Value.int e.1, goesOn k = .ok false := by
    rintro _ member
    obtain ⟨e, inside, rfl⟩ := List.mem_map.mp member
    rw [tests, ((mem_dropWhile_iff closed).mp inside).2]
  rw [whole, bisect_append passes fails, List.length_map]

namespace Holds

variable (holds : m.Holds r es)
include holds

theorem get? (key : Int) : m.get? (.int key) = .ok (r.get? key) := by
  rw [OrderedMap.get?, holds.values, get?_keyed, holds.alike]
  rfl

theorem has (key : Int) : m.has (.int key) = .ok (r.get? key).isSome := by
  rw [OrderedMap.has, holds.values, has_keyed, Entries.has_eq_isSome_get?, holds.alike]
  rfl

theorem placeBelow (key : Int) :
    m.placeBelow (.int key) = .ok (r.takeWhile fun e => decide (e.1 < key)).length := by
  rw [OrderedMap.placeBelow, holds.keys]
  exact bisect_keys (Ranked.closed_lt holds.ordered key) fun e => Value.less_int e.1 key

theorem placeAbove (key : Int) :
    m.placeAbove (.int key) = .ok (r.takeWhile fun e => decide (e.1 ≤ key)).length := by
  rw [OrderedMap.placeAbove, holds.keys]
  refine bisect_keys (Ranked.closed_le holds.ordered key) fun e => ?_
  rw [Value.less_int]
  simp [bind, Except.bind, pure, Except.pure, ← decide_not]

/-- The entry of a key is the one that stands under it. -/
theorem entryOf {e : Int × Value} (listed : e ∈ r) : m.entryOf (.int e.1) = .ok (keyed e) := by
  have found : (es.find? fun f => f.1 == e.1).map (·.2) = some e.2 :=
    (holds.alike e.1).trans (Ranked.get?_of_mem holds.ordered listed)
  obtain ⟨f, first, same⟩ := Option.map_eq_some_iff.mp found
  have finds : m.values.find? (fun f => f.1 == Value.int e.1 || !(f.1 == f.1) && !(Value.int e.1 == .int e.1)) =
      some (keyed f) := by
    simp only [holds.values, List.find?_map, Function.comp_def, keyed_fst, Value.int_beq_int, beq_self_eq_true,
      Bool.not_true, Bool.and_false, Bool.or_false, first, Option.map_some]
  rw [OrderedMap.entryOf, finds]
  exact congrArg (fun v => Except.ok (Value.int e.1, v)) same

/-- The entries of a map with numbers as keys are those of the ranked entries. -/
theorem items : m.items = .ok (r.map keyed) := by
  rw [OrderedMap.items, holds.keys]
  have each : ∀ rest : List (Int × Value), (∀ e ∈ rest, e ∈ r) →
      (rest.map fun e => Value.int e.1).mapM m.entryOf = .ok (rest.map keyed) := by
    intro rest
    induction rest with
    | nil => exact fun _ => rfl
    | cons e rest ih =>
      intro among
      rw [List.map_cons, List.mapM_cons, holds.entryOf (among e (List.mem_cons_self ..)),
        ih fun f member => among f (List.mem_cons_of_mem _ member)]
      rfl
  exact each r fun _ => id

/-- The entry at a place of the key vector, if there is one. -/
theorem entryAt (place : Nat) : m.keys[place]?.mapM m.entryOf = .ok (r[place]?.map keyed) := by
  rw [holds.keys, List.getElem?_map]
  cases there : r[place]? with
  | none => rfl
  | some e =>
    simp only [Option.map_some, Option.mapM_some, holds.entryOf (List.mem_of_getElem? there)]
    rfl

theorem lower? (key : Int) : m.lower? (.int key) = .ok ((r.lower? key).map keyed) := by
  rw [OrderedMap.lower?, holds.placeBelow, Ranked.lower?]
  cases size : (r.takeWhile fun e => decide (e.1 < key)).length with
  | zero =>
    rw [List.length_eq_zero_iff.mp size]
    rfl
  | succ place =>
    have last : r[place]? = (r.takeWhile fun e => decide (e.1 < key)).getLast? := by
      rw [List.getLast?_eq_getElem?, size, Nat.add_sub_cancel, getElem?_takeWhile (by omega)]
    exact (holds.entryAt place).trans (by rw [last])

theorem upper? (key : Int) : m.upper? (.int key) = .ok ((r.upper? key).map keyed) := by
  rw [OrderedMap.upper?, holds.placeAbove, Ranked.upper?, ← getElem?_length_takeWhile]
  exact holds.entryAt _

theorem neighbors (key : Int) : m.neighbors (.int key) = .ok (r.neighbors key) := by
  rw [OrderedMap.neighbors, holds.lower?, holds.upper?]
  simp [bind, Except.bind, pure, Except.pure, Ranked.neighbors, Function.comp_def]

theorem length : m.length = r.length := by
  rw [OrderedMap.length, holds.keys, List.length_map]

/-- An insertion keeps the key vector and the dictionary in step. -/
theorem insert (key : Int) (value : Value) :
    ∃ m', m.insert (.int key) value = .ok m' ∧ m'.Holds (r.insert key value) (es.put key value) := by
  have alike : ∀ other, (es.put key value).get? other = (r.insert key value).get? other := by
    intro other
    rw [Ranked.get?_insert holds.ordered]
    split
    · rename_i same
      rw [same, Entries.get?_put_self]
    · rename_i different
      rw [Entries.get?_put_of_ne es value different, holds.alike]
  have values : Entries.put m.values (.int key) value = (es.put key value).map keyed := by
    rw [holds.values, put_keyed]
  have ordered := Ranked.insert_ordered holds.ordered key value
  have known : Entries.has m.values (.int key) = (r.get? key).isSome := by
    rw [holds.values, has_keyed, Entries.has_eq_isSome_get?, holds.alike]
  rw [OrderedMap.insert]
  cases there : r.get? key with
  | some old =>
    have present : Entries.has m.values (.int key) = true := by rw [known, there, Option.isSome_some]
    refine ⟨_, by rw [dif_pos present]; rfl, ?_, values, ordered, alike⟩
    have same := congrArg (List.map Value.int) (@Ranked.keys_insert _ key value r holds.ordered old there)
    simp only [List.map_map, Function.comp_def] at same
    exact holds.keys.trans same.symm
  | none =>
    have absent : ∀ e ∈ r, e.1 ≠ key := by
      rintro e listed rfl
      rw [Ranked.get?_of_mem holds.ordered listed] at there
      cases there
    have fresh : ¬ Entries.has m.values (.int key) = true := by rw [known, there]; decide
    refine ⟨_, by rw [dif_neg fresh, holds.placeAbove]; rfl, ?_, values, ordered, alike⟩
    have divided : m.keys = ((r.takeWhile fun e => decide (e.1 ≤ key)).map fun e => .int e.1) ++
        (r.dropWhile fun e => decide (e.1 ≤ key)).map fun e => .int e.1 := by
      rw [holds.keys, ← List.map_append, List.takeWhile_append_dropWhile]
    change m.keys.take _ ++ Value.int key :: m.keys.drop _ = _
    rw [Ranked.insert_of_absent absent, divided, List.take_left' (List.length_map _),
      List.drop_left' (List.length_map _), List.map_append, List.map_cons]

end Holds

/-- Whether an entry is the one next to a key below it, or there is none. -/
def IsBelow (r : Ranked Value) (key : Int) (low : Option (Int × Value)) : Prop :=
  (∀ e, low = some e ↔ e ∈ r ∧ e.1 < key ∧ ∀ f ∈ r, f.1 < key → f.1 ≤ e.1) ∧
    (low = none ↔ ∀ e ∈ r, key ≤ e.1)

/-- Whether an entry is the one next to a key above it, or there is none. -/
def IsAbove (r : Ranked Value) (key : Int) (high : Option (Int × Value)) : Prop :=
  (∀ e, high = some e ↔ e ∈ r ∧ key < e.1 ∧ ∀ f ∈ r, key < f.1 → e.1 ≤ f.1) ∧
    (high = none ↔ ∀ e ∈ r, e.1 ≤ key)

/-- Insertions at integer keys do what they do where the keys are integers throughout, and the dictionary
keeps the keys as they came first. -/
theorem insertAll_holds (new : List (Int × Value)) :
    ∃ m, insertAll empty (new.map keyed) = .ok m ∧ m.Holds (Ranked.insertAll [] new) (Entries.ofList new) := by
  suffices all : ∀ (new : List (Int × Value)) {m : OrderedMap} {r es}, m.Holds r es →
      ∃ m', insertAll m (new.map keyed) = .ok m' ∧ m'.Holds (Ranked.insertAll r new) (Entries.putAll es new) from
    all new ⟨rfl, rfl, .nil, fun _ => rfl⟩
  intro new
  induction new with
  | nil => exact fun holds => ⟨_, rfl, holds⟩
  | cons e rest ih =>
    intro m r es holds
    obtain ⟨m', first, kept⟩ := holds.insert e.1 e.2
    obtain ⟨m'', later, kept⟩ := ih kept
    refine ⟨m'', ?_, kept⟩
    rw [insertAll, List.map_cons, List.foldlM_cons, keyed, first]
    exact later

/-- What is inserted at integer keys stands in ascending order, every key once and with the value that was
inserted last, though the dictionary keeps the keys as they came first. A look-up at any key finds the value
of the entry with it, and the entries next to it on both sides. A map whose keys are integers throughout has
the same entries and gives the same answers. -/
theorem insertAll_sorts (new : List (Int × Value)) :
    ∃ m r, insertAll empty (new.map keyed) = .ok m ∧ Ranked.insertAll [] new = r ∧
      r.Pairwise (·.1 < ·.1) ∧ (∀ key value, (key, value) ∈ r ↔ Ranked.IsLast new key value) ∧
      m.keys = (r.map fun e => .int e.1) ∧ m.values = (Entries.ofList new).map keyed ∧
      m.items = .ok (r.map keyed) ∧ m.length = (new.map (·.1)).dedup.length ∧
      ∀ key, ∃ found low high, (∀ value, found = some value ↔ (key, value) ∈ r) ∧ IsBelow r key low ∧
        IsAbove r key high ∧
        m.get? (.int key) = .ok found ∧ m.has (.int key) = .ok found.isSome ∧
        m.lower? (.int key) = .ok (low.map keyed) ∧ m.upper? (.int key) = .ok (high.map keyed) ∧
        m.neighbors (.int key) = .ok (low.map (·.2), high.map (·.2)) ∧
        r.get? key = found ∧ r.has key = found.isSome ∧ r.lower? key = low ∧ r.upper? key = high ∧
        r.neighbors key = (low.map (·.2), high.map (·.2)) := by
  obtain ⟨m, made, holds⟩ := insertAll_holds new
  have ordered := holds.ordered
  refine ⟨m, _, made, rfl, ordered, fun _ _ => Ranked.mem_insertAll_iff new, holds.keys, holds.values,
    holds.items, holds.length.trans (Ranked.length_insertAll new), fun key => ?_⟩
  exact ⟨_, _, _, fun _ => Ranked.get?_eq_some_iff ordered,
    ⟨fun _ => Ranked.lower?_eq_some_iff ordered, Ranked.lower?_eq_none_iff ordered⟩,
    ⟨fun _ => Ranked.upper?_eq_some_iff ordered, Ranked.upper?_eq_none_iff ordered⟩,
    holds.get? key, holds.has key, holds.lower? key, holds.upper? key, holds.neighbors key, rfl,
    Ranked.has_eq_isSome_get? _ key, rfl, rfl, rfl⟩

end OrderedMap

end Lineage
