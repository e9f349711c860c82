import Lineage.Edge

namespace Lineage

namespace FieldStep

/-- Carries a field over. The value of a nested item follows the same edge in its own container. -/
def carry (item : Item) (source target : String) (fromType toType : Option String) : FieldStep :=
  if item.nested then .nested item.name source target fromType toType item.hint
  else .copy item.name source target

/-- Carries a field over to another type, by a function if there is one. -/
def convert (item : Item) (function : Option String) (source target : String)
    (fromType toType : Option String) : FieldStep :=
  match filled? function with
  | some f => .apply item.name source target f
  | none => .nested item.name source target fromType toType item.hint

/-- The step of an item from its status in one version to that in the next. An item that is not new has to
be in the version before, and a change that keeps the type carries it over. -/
def upgrade (item : Item) (old new : Status) : Except Fault (Option FieldStep) :=
  match new with
  | .absent => .ok none
  | .added name type a => .ok (some (.default item.name name type a.supplier a.default))
  | .changed _ fromType target toType upgradeWith _ => do
    let (source, _) ← old.member
    return some (if fromType = toType then carry item source target fromType toType
      else convert item upgradeWith source target fromType toType)
  | new => do
    let (source, fromType) ← old.member
    let (target, toType) ← new.member
    return some (carry item source target fromType toType)

/-- The step of an item back to its status in the version before, if it was there. -/
def downgrade (item : Item) (old new : Status) : Except Fault (Option FieldStep) :=
  match old.member?, new with
  | none, _ => .ok none
  | some (target, _), .changed _ fromType source toType _ downgradeWith =>
    .ok (some (if fromType = toType then carry item source target toType fromType
      else convert item downgradeWith source target toType fromType))
  | some (target, toType), new => do
    let (source, fromType) ← new.member
    return some (carry item source target fromType toType)

end FieldStep

/-- The field that is lost on the way back because the version before does not have the item. -/
def Dropped.ofStatuses? (item : Item) (old new : Status) : Option Dropped :=
  if old.isPresent then none else new.member?.map fun (source, _) => ⟨item.name, source⟩

namespace VariantStep

/-- Carries a variant over. The payload of a nested item follows the same edge in its container. -/
def carry (item : Item) (source target : String) (fromType toType : Option String) : VariantStep :=
  if item.nested then .keep item.name source target none fromType toType true
  else .keep item.name source target none none none false

/-- The step of a variant from its status in one version to that in the next. A variant that is not new has
to be in the version before. -/
def upgrade (item : Item) (old new : Status) : Except Fault (Option VariantStep) :=
  match new with
  | .absent | .added _ _ _ => .ok none
  | .changed _ fromType target toType upgradeWith _ => do
    let (source, _) ← old.member
    return some (.keep item.name source target upgradeWith fromType toType item.nested)
  | new => do
    let (source, fromType) ← old.member
    let (target, toType) ← new.member
    return some (carry item source target fromType toType)

/-- The fallback of a variant that was added. -/
def fallbackOf? : Status → Option String
  | .added _ _ a => filled? a.fallback
  | _ => none

/-- The step of a variant back to its status in the version before, whose definition is used to look
the fallback up if it is given. -/
def downgrade (container : String) (item : Item) (old new : Status) (older newer : Release)
    (definition : Option Definition) : Except Failure (Option VariantStep) :=
  let irreversible := fun cause =>
    Except.error (Failure.irreversible container item.name newer.name older.name cause)
  match new.member?, old.member? with
  | none, _ => .ok none
  | some (source, fromType), some (target, toType) =>
    match new with
    | .changed _ oldType _ newType _ downgradeWith =>
      .ok (some (.keep item.name source target downgradeWith newType oldType item.nested))
    | _ => .ok (some (carry item source target fromType toType))
  | some (source, _), none =>
    match fallbackOf? new with
    | none => irreversible (.noFallback source older.name)
    | some variant =>
      if definition.any fun d => (d.member? variant).isNone then
        irreversible (.unknownFallback variant older.name)
      else .ok (some (.fallback item.name source variant))

end VariantStep

namespace Steps

/-- The items of chains with their statuses in two versions. -/
def statuses (chains : List Chain) (older newer : Release) :
    Except Failure (List (Item × Status × Status)) :=
  chains.mapM fun chain => do
    return (chain.item, ← chain.statusAt older, ← chain.statusAt newer)

/-- The steps between two versions. The definitions, if they are given, tell which variants the older
version has. -/
def generate (v : Validated) (chains : List Chain) (older newer : Release) (direction : Direction)
    (definitions : Option (List Definition)) : Except Failure Steps := do
  let triples ← statuses chains older newer
  match v.container.kind, direction with
  | .struct, .upgrade =>
    let steps ← triples.mapM fun (item, old, new) => FieldStep.upgrade item old new
    return .fields (steps.filterMap id) []
  | .struct, .downgrade =>
    let steps ← triples.mapM fun (item, old, new) => FieldStep.downgrade item old new
    return .fields (steps.filterMap id)
      (triples.filterMap fun (item, old, new) => Dropped.ofStatuses? item old new)
  | .enum, .upgrade =>
    let steps ← triples.mapM fun (item, old, new) => VariantStep.upgrade item old new
    return .variants (steps.filterMap id)
  | .enum, .downgrade =>
    let definition := (definitions.getD []).find? fun d => d.release.name == older.name
    let steps ← triples.mapM fun (item, old, new) =>
      VariantStep.downgrade v.container.name item old new older newer definition
    return .variants (steps.filterMap id)

end Steps

namespace Edge

/-- The edge between two versions that follow each other. -/
def generate (v : Validated) (chains : List Chain) (older newer : Release) (direction : Direction)
    (definitions : Option (List Definition)) : Except Failure Edge :=
  if v.timeline.next? older ≠ some newer then .error (.fault (.notAdjacent older.name newer.name))
  else do
    let steps ← Steps.generate v chains older newer direction definitions
    return match direction with
      | .upgrade => ⟨v.container.name, older, newer, direction, steps⟩
      | .downgrade => ⟨v.container.name, newer, older, direction, steps⟩

/-- The edges in both directions between all versions that follow each other, except where the
container or the older version skips them. -/
def generateAll (v : Validated) (chains : List Chain) (definitions : Option (List Definition)) :
    Except Failure (List Edge) := do
  let pairs := v.timeline.adjacentPairs.filter fun (older, _) =>
    !(v.container.options.skipFrom || older.skipFrom)
  let edges ← pairs.mapM fun (older, newer) => do
    return [← generate v chains older newer .upgrade definitions,
      ← generate v chains older newer .downgrade definitions]
  return edges.flatten

/-- The functions that edges call, each once, in the order of their first use. -/
def functions (edges : List Edge) : List String :=
  (edges.flatMap fun e => e.steps.functions).eraseDups

end Edge

end Lineage
