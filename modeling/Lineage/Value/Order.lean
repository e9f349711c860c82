import Lineage.Fault
import Lineage.Text.Half
import Lineage.Value.Key

namespace Lineage

/-- The first position from `low` on, up to `high`, at which a test of the items fails, found by
halving. Only the items in the middle are tested, so it is the first if none after it passes. -/
def bisect {ε α : Type} (test : α → Except ε Bool) (xs : Array α) (low high : Nat) :
    Except ε Nat :=
  if _found : low < high then
    match xs[(low + high) / 2]? with
    | none => .ok low
    | some x => do
      if ← test x then bisect test xs ((low + high) / 2 + 1) high
      else bisect test xs low ((low + high) / 2)
  else .ok low
termination_by high - low

/-- Items at the start of a list that rise, or fall, from one to the next, and the others. -/
def leadingRun {ε α : Type} (less : α → α → Except ε Bool) (falling : Bool) (last : α) :
    List α → Except ε (List α × List α)
  | [] => .ok ([], [])
  | x :: rest => do
    if (← less x last) == falling then
      let (run, others) ← leadingRun less falling x rest
      return (x :: run, others)
    else return ([], x :: rest)

/-- Puts an item behind those that it is not less than, in a list that is sorted. -/
def insertSorted {ε α : Type} (less : α → α → Except ε Bool) (xs : Array α) (x : α) :
    Except ε (Array α) := do
  let position ← bisect (fun y => return !(← less x y)) xs 0 xs.size
  return xs.insertIdxIfInBounds position x

/-- Sorts a list by an order that may be missing between some items. The run at its start is kept, or
turned round, and the other items are inserted one after the other. -/
def sorted {ε α : Type} (less : α → α → Except ε Bool) : List α → Except ε (List α)
  | x :: y :: rest => do
    let falling ← less y x
    let (run, others) ← leadingRun less falling y rest
    let start := if falling then (x :: y :: run).reverse else x :: y :: run
    return (← others.foldlM (insertSorted less) start.toArray).toList
  | xs => .ok xs

namespace Value

/-- Whether a number is less than another. What is not a number is less than nothing. -/
def lessNumber (a b : Value) : Bool :=
  match a, b, a.scaled?, b.scaled? with
  | _, _, some m, some n => m < n
  | .float x, .float y, _, _ => x < y
  | .float x, _, none, _ => x < 0
  | _, .float y, _, none => 0 < y
  | _, _, _, _ => false

/-- Whether a value is less than another: numbers, texts and byte strings have an order. -/
def less (a b : Value) : Except Fault Bool :=
  match a, b with
  | .text s, .text t => .ok (Text.before s t)
  | .bytes s, .bytes t => .ok (s < t)
  | a, b =>
    if a.isNumber && b.isNumber then .ok (lessNumber a b)
    else .error (.unordered a.kindName b.kindName)

end Value

end Lineage
