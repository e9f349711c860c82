namespace Lineage

/-- The entries of a mapping in the order in which their keys were first put. -/
abbrev Entries (α β : Type) := List (α × β)

namespace Entries

variable {α β : Type} [BEq α]

/-- The value at a key. -/
def get? (entries : Entries α β) (key : α) : Option β :=
  (entries.find? fun e => e.1 == key).map (·.2)

/-- Whether a key is present. -/
def has (entries : Entries α β) (key : α) : Bool :=
  entries.any fun e => e.1 == key

/-- Puts a value at a key; a key that is present keeps its place. -/
def put : Entries α β → α → β → Entries α β
  | [], key, value => [(key, value)]
  | e :: rest, key, value => if e.1 == key then (e.1, value) :: rest else e :: put rest key value

/-- The entries without the one at a key. -/
def erase (entries : Entries α β) (key : α) : Entries α β :=
  entries.eraseP fun e => e.1 == key

/-- Puts the entries of a list one after the other. -/
def putAll (entries new : Entries α β) : Entries α β :=
  new.foldl (fun acc e => put acc e.1 e.2) entries

/-- The entries of a list in which a later value replaces an earlier one at the same key. -/
def ofList (new : List (α × β)) : Entries α β :=
  putAll [] new

theorem has_eq_isSome_get? (entries : Entries α β) (key : α) :
    has entries key = (get? entries key).isSome := by
  induction entries with
  | nil => rfl
  | cons e rest ih =>
    by_cases h : e.1 == key
    · simp [has, get?, h]
    · simpa [has, get?, h] using ih

/-- A new key comes last. -/
theorem put_of_new {entries : Entries α β} {key : α} {value : β}
    (apart : ∀ e ∈ entries, (e.1 == key) = false) : put entries key value = entries ++ [(key, value)] := by
  induction entries with
  | nil => rfl
  | cons e rest ih =>
    have other := apart e (List.mem_cons_self ..)
    simp only [put, other, List.cons_append, Bool.false_eq_true, if_false]
    rw [ih fun f member => apart f (List.mem_cons_of_mem _ member)]

/-- Where a key is present, putting a value at it leaves the keys as they are. -/
theorem keys_put_of_has {entries : Entries α β} {key : α} {value : β} (present : has entries key = true) :
    (put entries key value).map (·.1) = entries.map (·.1) := by
  induction entries with
  | nil => cases present
  | cons e rest ih =>
    by_cases here : (e.1 == key) = true
    · simp only [put, here, if_true, List.map_cons]
    · have later : has rest key = true := by simpa [has, here] using present
      simp only [put, here, Bool.false_eq_true, if_false, List.map_cons, ih later]

variable [LawfulBEq α]

@[simp] theorem get?_put_self (entries : Entries α β) (key : α) (value : β) :
    get? (put entries key value) key = some value := by
  induction entries with
  | nil => simp [put, get?]
  | cons e rest ih =>
    by_cases h : e.1 == key
    · simp [put, h, get?]
    · simpa [put, h, get?, List.find?_cons] using ih

/-- A value that is put at one key leaves those at other keys as they are. -/
theorem get?_put_of_ne (entries : Entries α β) {key other : α} (value : β) (ne : other ≠ key) :
    get? (put entries key value) other = get? entries other := by
  induction entries with
  | nil => simp [put, get?, Ne.symm ne]
  | cons e rest ih =>
    by_cases h : e.1 = key
    · have : ¬ e.1 = other := fun same => ne (same.symm.trans h)
      simp [put, h, get?, Ne.symm ne]
    · by_cases same : e.1 = other
      · subst same
        simp [put, get?, h]
      · simpa [put, h, get?, List.find?_cons, same] using ih

/-- Putting keeps the order of the keys, and a new key comes last. -/
theorem keys_put (entries : Entries α β) (key : α) (value : β) :
    (put entries key value).map (·.1) =
      if key ∈ entries.map (·.1) then entries.map (·.1) else entries.map (·.1) ++ [key] := by
  induction entries with
  | nil => simp [put]
  | cons e rest ih =>
    by_cases h : e.1 = key
    · simp [put, h]
    · have : ¬ key = e.1 := fun same => h same.symm
      simp only [put, beq_iff_eq, h, if_false, List.map_cons, ih, List.mem_cons, this, false_or]
      split <;> rfl

end Entries

end Lineage
