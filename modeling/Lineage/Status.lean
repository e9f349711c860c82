import Lineage.Fault
import Lineage.Item
import Lineage.Text.Quoted
import Lineage.Value.Key

namespace Lineage

/-- What an item is in one version, and what happened to it there. -/
inductive Status where
  | added (name : String) (type : Option String) (addition : Addition)
  | renamed (fromName toName : String) (type : Option String)
  | changed (fromName : String) (fromType : Option String) (toName : String)
      (toType upgradeWith downgradeWith : Option String)
  | deprecated (previousName name : String) (type note : Option String)
  | unchanged (name : String) (type : Option String) (deprecated : Bool) (note : Option String)
  | absent
  deriving Repr

namespace Status

/-- The word for what happened to the item. -/
def label : Status → String
  | added _ _ _ => "added"
  | renamed _ _ _ => "renamed"
  | changed _ _ _ _ _ _ => "changed"
  | deprecated _ _ _ _ => "deprecated"
  | unchanged _ _ _ _ => "no_change"
  | absent => "not_present"

/-- The name and the type that the item has in the version. -/
def member? : Status → Option (String × Option String)
  | added name type _ => some (name, type)
  | renamed _ name type => some (name, type)
  | changed _ _ name type _ _ => some (name, type)
  | deprecated _ name type _ => some (name, type)
  | unchanged name type _ _ => some (name, type)
  | absent => none

/-- The name and the type of an item that has to be in the version. -/
def member (s : Status) : Except Fault (String × Option String) :=
  match s.member? with
  | some m => .ok m
  | none => .error (.noAttribute "NotPresent" "name")

/-- Whether the item is in the version. -/
def isPresent (s : Status) : Bool :=
  s.member?.isSome

/-- The name and the type that the item had just before the version. -/
def predecessor? : Status → Option (String × Option String)
  | renamed name _ type => some (name, type)
  | changed name type _ _ _ _ => some (name, type)
  | deprecated name _ type _ => some (name, type)
  | unchanged name type _ _ => some (name, type)
  | added _ _ _ | absent => none

/-- Whether the item is deprecated in the version. -/
def isDeprecated : Status → Bool
  | deprecated _ _ _ _ => true
  | unchanged _ _ marked _ => marked
  | _ => false

/-- The note of the deprecation of the item. -/
def note : Status → Option String
  | deprecated _ _ _ note | unchanged _ _ _ note => note
  | _ => none

/-- What the item is in the versions that follow without an action of their own. -/
def later : Status → Status
  | absent => absent
  | deprecated _ name type note => unchanged name type true note
  | unchanged name type marked note => unchanged name type marked note
  | added name type _ | renamed _ name type | changed _ _ name type _ _ =>
    unchanged name type false none

/-- What the item of a name is in the versions before its first action: it is not there yet if that adds
it, and otherwise it is what the action made something else of. -/
def earlier (item : String) (s : Status) : Except Fault Status :=
  match s, s.predecessor? with
  | added _ _ _, _ => .ok absent
  | _, some (name, type) => .ok (unchanged name type false none)
  | s, none => .error (.noEarlier (Text.quoted item) s.label)

theorem earlier_of_predecessor? {s : Status} {name : String} {type : Option String}
    (known : s.predecessor? = some (name, type)) (item : String) :
    s.earlier item = .ok (unchanged name type false none) := by
  cases s <;> cases known <;> rfl

/-- A status as data. -/
def toValue (s : Status) : Value :=
  .object (("status", .text s.label) :: match s with
    | added name type a =>
      [("name", .text name), ("type", .ofText? type), ("default", .ofText? a.supplier)]
        ++ (a.default.map fun v => ("default_value", v)).toList
        ++ ((a.fallback.filter fun f => !f.isEmpty).map fun f =>
          ("downgrade_fallback", Value.text f)).toList
    | renamed fromName toName type =>
      [("from_name", .text fromName), ("to_name", .text toName), ("type", .ofText? type)]
    | changed fromName fromType toName toType _ _ =>
      [("from_name", .text fromName), ("from_type", .ofText? fromType), ("to_name", .text toName),
        ("to_type", .ofText? toType)]
    | deprecated previousName name type note =>
      [("previous_name", .text previousName), ("name", .text name), ("type", .ofText? type),
        ("note", .ofText? note)]
    | unchanged name type marked _ =>
      [("name", .text name), ("type", .ofText? type), ("previously_deprecated", .bool marked)]
    | absent => [])

end Status

end Lineage
