namespace Lineage

/-- Values under integer keys, in ascending order of the keys. -/
abbrev Ranked (α : Type) := List (Int × α)

namespace Ranked

variable {α : Type}

/-- Inserts a value at a key, in the place of the value that is there. -/
def insert : Ranked α → Int → α → Ranked α
  | [], key, value => [(key, value)]
  | e :: rest, key, value =>
    if key < e.1 then (key, value) :: e :: rest
    else if key = e.1 then (key, value) :: rest
    else e :: insert rest key value

/-- The value at a key. -/
def get? (entries : Ranked α) (key : Int) : Option α :=
  (entries.find? fun e => e.1 == key).map (·.2)

/-- Whether a key is present. -/
def has (entries : Ranked α) (key : Int) : Bool :=
  entries.any fun e => e.1 == key

/-- The entry with the greatest key below a key. -/
def lower? (entries : Ranked α) (key : Int) : Option (Int × α) :=
  (entries.takeWhile fun e => e.1 < key).getLast?

/-- The entry with the least key above a key. -/
def upper? (entries : Ranked α) (key : Int) : Option (Int × α) :=
  (entries.dropWhile fun e => e.1 ≤ key).head?

/-- The values next to a key on both sides; its own value is not one of them. -/
def neighbors (entries : Ranked α) (key : Int) : Option α × Option α :=
  ((entries.lower? key).map (·.2), (entries.upper? key).map (·.2))

end Ranked

end Lineage
